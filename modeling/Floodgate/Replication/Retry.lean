import Floodgate.Time.Duration
/-!
# Floodgate.Replication.Retry

**How long to wait after a failed attempt, if there is to be another.** A retry policy is asked with
the number of attempts that have failed so far, counted from one.
-/

namespace Floodgate

/-- A retry policy: the delay after so many failed attempts, or none to give up. -/
structure RetryPolicy where
  /-- The delay after so many failed attempts. -/
  delayAfter : Nat → Option Duration

namespace RetryPolicy

/-- Waits equally long after every failure and never gives up. -/
def forever (delay : Duration) : RetryPolicy := ⟨fun _ => some delay⟩

/-- Waits equally long after every failure and gives up when so many attempts have failed. -/
def limited (delay : Duration) (maxAttempts : Nat) : RetryPolicy :=
  ⟨fun failed => if maxAttempts ≤ failed then none else some delay⟩

/-- Gives up after the first failure. -/
def never : RetryPolicy := ⟨fun _ => none⟩

/-- Waits as a table says, and gives up when the table has run out. -/
def table (delays : List Duration) : RetryPolicy :=
  ⟨fun failed => if failed = 0 then none else delays[failed - 1]?⟩

/-- Waits one second after every failure and never gives up. -/
def standard : RetryPolicy := forever (.ofSecs 1)

@[simp] theorem delayAfter_forever (d : Duration) (n : Nat) :
    (forever d).delayAfter n = some d := rfl

@[simp] theorem delayAfter_never (n : Nat) : never.delayAfter n = none := rfl

theorem delayAfter_limited_eq_none_iff {d : Duration} {m n : Nat} :
    (limited d m).delayAfter n = none ↔ m ≤ n := by
  simp only [limited]
  split <;> simp_all

end RetryPolicy

end Floodgate
