import Floodgate.PeerStore.Basic
/-!
# Floodgate.Simulation.Address

**Which texts a simulated transport takes for the address of a server.** An address is not empty and
holds only the characters that a URI may hold: letters and digits of ASCII, and the marks below.
-/

namespace Floodgate.PeerStore

/-- The marks that a URI may hold. -/
def addressMarks : List Char := "-._~:/?#[]@!$&'()*+,;=%".toList

/-- Whether a character may stand in an address. -/
def isAddressChar (c : Char) : Bool := c.isAlphanum || addressMarks.contains c

/-- Whether a text can be the address of a server. -/
def isAddress (s : String) : Bool := !s.isEmpty && s.toList.all isAddressChar

/-- Starts a store on the simulated transport. -/
def start (instanceName lockKey : String) (urls : List String) (options : ReplicatorOptions)
    (reconnectMillis : Nat) (house : Gatehouse) (now : Int) : Except PeerStoreError PeerStore :=
  startWith isAddress instanceName lockKey urls options reconnectMillis house now

end Floodgate.PeerStore
