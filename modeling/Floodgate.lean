import Floodgate.Cluster
import Floodgate.Counter
import Floodgate.HashStore.Basic
import Floodgate.HashStore.Field
import Floodgate.Main
import Floodgate.PeerStore.Basic
import Floodgate.PeerStore.Views
import Floodgate.Proofs.Assoc
import Floodgate.Proofs.Cluster.Coherent
import Floodgate.Proofs.Cluster.Convergence
import Floodgate.Proofs.Cluster.Growth
import Floodgate.Proofs.Cluster.Run
import Floodgate.Proofs.Cluster.Steps
import Floodgate.Proofs.Counter
import Floodgate.Proofs.Gate.Calls
import Floodgate.Proofs.Gate.Visits
import Floodgate.Proofs.HashStore.Field
import Floodgate.Proofs.HashStore.Follows
import Floodgate.Proofs.HashStore.Run
import Floodgate.Proofs.Keyed
import Floodgate.Proofs.LockData
import Floodgate.Proofs.PeerStore.Judged
import Floodgate.Proofs.PeerStore.LeaseWatch
import Floodgate.Proofs.PeerStore.Merge
import Floodgate.Proofs.PeerStore.Operations
import Floodgate.Proofs.PeerStore.Reports
import Floodgate.Proofs.Replication.Change
import Floodgate.Proofs.Replication.Lane
import Floodgate.Proofs.Replication.Line
import Floodgate.Proofs.Replication.NewestWrite
import Floodgate.Proofs.Replication.NoLoss
import Floodgate.Proofs.Replication.Overlap
import Floodgate.Proofs.Replication.Parts
import Floodgate.Proofs.Replication.Pending
import Floodgate.Proofs.Replication.Run
import Floodgate.Proofs.Replication.Section
import Floodgate.Proofs.Replication.Sound
import Floodgate.Proofs.Server.Stream
import Floodgate.Proofs.Server.Table
import Floodgate.Proofs.Text.Token
import Floodgate.Proofs.Verdict
import Floodgate.Registry
import Floodgate.Replication.Basic
import Floodgate.Server.Basic
import Floodgate.Server.Options
import Floodgate.Simulation.ClusterScene
import Floodgate.Simulation.CounterScene
import Floodgate.Simulation.GateScene
import Floodgate.Simulation.HashScene
import Floodgate.Simulation.PeerScene
import Floodgate.Simulation.RegistryScene
import Floodgate.Simulation.ReplicationScene
import Floodgate.Simulation.ServerScene
import Floodgate.Proofs.LocalLock
import Floodgate.Proofs.Server.Prune
import Floodgate.Proofs.Server.Calls
import Floodgate.Proofs.PeerStore.Ranking
import Floodgate.Proofs.PeerStore.Pruning
import Floodgate.Proofs.HashStore.Log
import Floodgate.Proofs.HashStore.LastStatus
import Floodgate.Proofs.HashStore.Resubscribe
import Floodgate.Proofs.Replication.Silence
import Floodgate.Proofs.PeerStore.Acceptance
import Floodgate.Proofs.Replication.Clock
import Floodgate.Proofs.Replication.Leases
import Floodgate.Proofs.Replication.Calm
import Floodgate.Proofs.Replication.KeyShown
import Floodgate.Proofs.Replication.Independence
import Floodgate.Proofs.StatusForms
import Floodgate.Proofs.CounterReports
import Floodgate.Proofs.Replication.Sweeps
import Floodgate.Proofs.PeerStore.Evaluations
import Floodgate.Proofs.PeerStore.Regrouping
import Floodgate.Proofs.Server.Forwarding
import Floodgate.Proofs.Server.Sections
import Floodgate.Proofs.Server.Prefix
import Floodgate.Proofs.Replication.Forget
import Floodgate.Proofs.PeerStore.Attribution
import Floodgate.Proofs.PeerStore.Removal
import Floodgate.Proofs.Expiry
import Floodgate.Proofs.Replication.Deadline
import Floodgate.Proofs.Gate.Polling
import Floodgate.Proofs.Replication.Asking
import Floodgate.Proofs.Replication.Attempts
import Floodgate.Proofs.Replication.Withdrawal
import Floodgate.Proofs.Replication.Pursuit
import Floodgate.Proofs.Rejoining
import Floodgate.Proofs.HashStore.Reading
import Floodgate.Proofs.Replication.InFlight
import Floodgate.Proofs.Registry
