import Floodgate.Simulation.ServerScene
import Floodgate.Text.Decimal
import Std.Time.DateTime.Timestamp
/-!
# Floodgate.Main

**A status server on the standard streams,** with the default options and the wall clock, for a
relay that owns the connections. Each line of the input is one report, its parts set apart by tabs:
the lock key, the instance, `1` for busy or `0` for idle, the lock data, and the end of the lease in
milliseconds since the epoch, zero for no lease. An accepted report is answered by the snapshot of
its lock key, a line of the same form for each instance, and then an empty line. A refused one is
answered by the reason.
-/

namespace Floodgate.Main

def readReport (line : String) : Option StatusRequest :=
  match line.splitOn "\t" with
  | [lockKey, instanceId, busy, lockData, millis] =>
    (Text.parseInt64? millis.toList).map fun validUntilMillis =>
      ⟨lockKey, instanceId, busy == "1", lockData, validUntilMillis⟩
  | _ => none

def writeStatus (lockKey instanceId : String) (w : WireStatus) : String :=
  "\t".intercalate [lockKey, instanceId, if w.isBusy then "1" else "0", w.lockData,
    String.ofList (Text.renderInt w.validUntilMillis)]

/-- Answers a report. -/
def answer (s : ServerScene) (r : StatusRequest) : List String × ServerScene :=
  match s.setStatus r with
  | (.error e, s) => (["refused\t" ++ e.message], s)
  | (.ok (), s) =>
    let rows := match s.server.table.entryFor? r.lockKey with
      | some e => e.instances.map fun (id, w) => writeStatus r.lockKey id w
      | none => []
    (rows ++ [""], s)

def wallClock : IO Int := return (← Std.Time.Timestamp.now).toMillisecondsSinceUnixEpoch.val

/-- Answers line by line until the input ends. Whatever has to be pruned by the time a line arrives
is pruned first. -/
partial def serve (input output : IO.FS.Stream) (t : Timeline ServerScene Arrival) : IO Unit := do
  let line ← input.getLine
  if line.isEmpty then return
  let now ← wallClock
  let t := ({ t with now } : Timeline ServerScene Arrival).settle ServerScene.workload
  let (answers, state) := match readReport (line.dropEndWhile (· == '\n')).toString with
    | some r => answer t.state r
    | none => (["refused\tnot a report"], t.state)
  for a in answers do output.putStrLn a
  output.flush
  serve input output { t with state }

end Floodgate.Main

/-- Runs the server until the input ends. -/
def main : IO Unit := do
  let now ← Floodgate.Main.wallClock
  match Floodgate.ServerOptions.validate {} with
  | .ok plan =>
    let scene := Floodgate.ServerScene.start plan now
    Floodgate.Main.serve (← IO.getStdin) (← IO.getStdout) (.start now scene)
  | .error e => IO.eprintln e.message
