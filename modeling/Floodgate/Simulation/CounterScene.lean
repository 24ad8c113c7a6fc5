import Floodgate.Counter
/-!
# Floodgate.Simulation.CounterScene

**A counter over a store that fails when it is told to.** The store keeps every call that reaches
it. A call that is not told to fail succeeds, and drives a local gate if there is one.
-/

namespace Floodgate

/-- A call that reached the store. -/
structure StatusCall where
  instanceName : String
  /-- What was reported. -/
  edge : StatusEdge

/-- A store that fails when it is told to. -/
structure FaultyStore where
  /-- What becomes of the calls still to come; they succeed when the list has run out. -/
  faults : List (Option StoreError)
  /-- The gate that successful calls drive. -/
  house : Option Gatehouse
  /-- The calls so far, newest first. -/
  calls : List StatusCall

/-- Takes one call. -/
def FaultyStore.setStatus (s : FaultyStore) (instanceName : String) (edge : StatusEdge) :
    Except StoreError Unit × FaultyStore :=
  let s' := { s with faults := s.faults.tail, calls := ⟨instanceName, edge⟩ :: s.calls }
  match s.faults.head? with
  | some (some error) => (.error error, s')
  | _ =>
    match s.house with
    | none => (.ok (), s')
    | some house =>
      let (result, house) := localStore.setStatus house instanceName edge
      (result, { s' with house := some house })

/-- The store as a place that a counter reports to. -/
def FaultyStore.store : StatusStore FaultyStore := ⟨FaultyStore.setStatus⟩

end Floodgate
