/-!
# Floodgate.Time.Timestamp

**Lease ends are whole milliseconds within the calendar.** The wall clock is read in whole
milliseconds since the Unix epoch, an `Int`. A lease ends at a `Timestamp`, a reading that the
calendar can name: the years -262143 to 262142, that is -8334601228800000 to 8210266876799999.
A count outside that range is no timestamp.

On the wire a lease end is a 64-bit count of milliseconds where zero says "no lease", so the
epoch itself cannot be sent (`ofWire_toWire`).
-/

namespace Floodgate

/-- A moment that the calendar can name, in milliseconds since the Unix epoch. -/
structure Timestamp where
  /-- Milliseconds since the Unix epoch. -/
  millis : Int
  /-- The first millisecond of the calendar. -/
  min_le : -8334601228800000 ≤ millis
  /-- The last millisecond of the calendar. -/
  le_max : millis ≤ 8210266876799999
  deriving DecidableEq, Repr

namespace Timestamp

/-- Timestamps are equal when they count the same milliseconds. -/
@[ext] theorem ext {a b : Timestamp} (h : a.millis = b.millis) : a = b := by
  cases a; cases b; cases h; rfl

/-- The timestamp of a millisecond count, if the calendar reaches it. -/
def ofMillis? (millis : Int) : Option Timestamp :=
  if h : -8334601228800000 ≤ millis ∧ millis ≤ 8210266876799999 then
    some ⟨millis, h.1, h.2⟩
  else
    none

@[simp] theorem ofMillis?_millis (t : Timestamp) : ofMillis? t.millis = some t := by
  simp [ofMillis?, t.min_le, t.le_max]

theorem ofMillis?_eq_some_iff {m : Int} {t : Timestamp} :
    ofMillis? m = some t ↔ t.millis = m := by
  constructor
  · intro h
    unfold ofMillis? at h
    split at h
    · cases h; rfl
    · cases h
  · rintro rfl
    exact ofMillis?_millis t

/-! ### The wire form -/

/-- A lease end on the wire: its milliseconds, zero for no lease. -/
def toWire : Option Timestamp → Int
  | some t => t.millis
  | none => 0

/-- Reads a lease end off the wire. Zero and counts outside the calendar say "no lease". -/
def ofWire (millis : Int) : Option Timestamp :=
  if millis = 0 then none else ofMillis? millis

@[simp] theorem toWire_none : toWire none = 0 := rfl

@[simp] theorem toWire_some (t : Timestamp) : toWire (some t) = t.millis := rfl

@[simp] theorem ofWire_zero : ofWire 0 = none := rfl

/-- The wire form keeps every lease end but the epoch. -/
theorem ofWire_toWire {t : Timestamp} (h : t.millis ≠ 0) : ofWire (toWire (some t)) = some t := by
  simp [ofWire, h]

end Timestamp

end Floodgate
