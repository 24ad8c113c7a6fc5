import Floodgate.Text.Decimal
/-!
# Floodgate.Time.Duration

**Spans of time, exact to the nanosecond.** Options and retry policies are given in durations.
Timers step in whole milliseconds: a timer set for a duration fires at the first millisecond not
before its end (`Duration.timerMillis`), while a deadline written in whole milliseconds is rounded
down (`Duration.wholeMillis`).

Messages show a duration in the largest of s, ms, µs and ns that is not above it, with the exact
fraction and no trailing zeros.
-/

namespace Floodgate

/-- A span of time, in nanoseconds. -/
structure Duration where
  nanos : Nat
  deriving DecidableEq, Repr

namespace Duration

/-- A duration of whole seconds and a rest in nanoseconds. -/
def ofParts (secs nanos : Nat) : Duration := ⟨secs * 1000000000 + nanos⟩

/-- A duration of whole seconds. -/
def ofSecs (secs : Nat) : Duration := ofParts secs 0

def ofMillis (millis : Nat) : Duration := ⟨millis * 1000000⟩

/-- The whole seconds. -/
def secs (d : Duration) : Nat := d.nanos / 1000000000

/-- The nanoseconds beyond the whole seconds. -/
def subsecNanos (d : Duration) : Nat := d.nanos % 1000000000

/-- Whether the duration has no length. -/
def isZero (d : Duration) : Bool := d.nanos == 0

/-- The whole milliseconds, rounded down. -/
def wholeMillis (d : Duration) : Nat := d.nanos / 1000000

/-- The milliseconds until a timer set for the duration fires, rounded up. -/
def timerMillis (d : Duration) : Nat := (d.nanos + 999999) / 1000000

@[simp] theorem wholeMillis_ofMillis (n : Nat) : (ofMillis n).wholeMillis = n := by
  simp [wholeMillis, ofMillis]

@[simp] theorem timerMillis_ofMillis (n : Nat) : (ofMillis n).timerMillis = n := by
  simp only [timerMillis, ofMillis]; omega

/-! ### As messages show it -/

/-- A number below `10 ^ width`, with leading zeros up to `width` digits and then without the
zeros at its end. -/
def fractionDigits (width n : Nat) : List Char :=
  let digits := Text.renderNat n
  let padded := List.replicate (width - digits.length) '0' ++ digits
  (padded.reverse.dropWhile (· == '0')).reverse

/-- A count of some unit with `width` digits of fraction. -/
def inUnit (width nanos : Nat) (unit : String) : String :=
  let whole := Text.renderNat (nanos / Nat.pow 10 width)
  let fraction := fractionDigits width (nanos % Nat.pow 10 width)
  let point := if fraction.isEmpty then [] else '.' :: fraction
  String.ofList (whole ++ point) ++ unit

/-- A duration as messages show it. -/
def render (d : Duration) : String :=
  if 1000000000 ≤ d.nanos then inUnit 9 d.nanos "s"
  else if 1000000 ≤ d.nanos then inUnit 6 d.nanos "ms"
  else if 1000 ≤ d.nanos then inUnit 3 d.nanos "µs"
  else inUnit 0 d.nanos "ns"

end Duration

end Floodgate
