/-!
# Floodgate.Text.Decimal

**Whole numbers as decimal text.** Writing puts a `-` in front of a negative number and no sign
or leading zero elsewhere. Reading is wider: one optional `+` or `-`, then one or more ASCII
digits, leading zeros included. A wire field of 64 signed bits refuses a value it cannot hold.

The main statement is that reading undoes writing (`parseInt?_renderInt`).
-/

namespace Floodgate.Text

/-! ### Digits -/

def digitChar (d : Nat) : Char := Char.ofNat ('0'.toNat + d)

def digitValue? (c : Char) : Option Nat :=
  if '0'.toNat ≤ c.toNat ∧ c.toNat ≤ '9'.toNat then some (c.toNat - '0'.toNat) else none

/-- The decimal digits of a number, most significant first. -/
def renderNat (n : Nat) : List Char :=
  if n < 10 then [digitChar n] else renderNat (n / 10) ++ [digitChar (n % 10)]

/-- The decimal text of a number. -/
def natText (n : Nat) : String := String.ofList (renderNat n)

/-- Reads digits behind a value already read. -/
def readDigits (acc : Nat) : List Char → Option Nat
  | [] => some acc
  | c :: rest =>
    match digitValue? c with
    | some d => readDigits (acc * 10 + d) rest
    | none => none

/-- Reads one or more ASCII digits. -/
def parseNat? : List Char → Option Nat
  | [] => none
  | cs => readDigits 0 cs

/-! ### Signs -/

/-- A whole number with a `-` if it is negative. -/
def renderInt (i : Int) : List Char :=
  if i < 0 then '-' :: renderNat i.natAbs else renderNat i.natAbs

/-- Reads an optional sign and one or more ASCII digits. -/
def parseInt? : List Char → Option Int
  | '+' :: rest => (parseNat? rest).map Int.ofNat
  | '-' :: rest => (parseNat? rest).map fun n => -Int.ofNat n
  | cs => (parseNat? cs).map Int.ofNat

/-- Whether a number fits in 64 signed bits. -/
def fitsInt64 (i : Int) : Bool := -9223372036854775808 ≤ i && i ≤ 9223372036854775807

/-- Reads a number of 64 signed bits. -/
def parseInt64? (cs : List Char) : Option Int := (parseInt? cs).filter fitsInt64

/-! ### Reading undoes writing -/

theorem digitValue?_digitChar {d : Nat} (h : d < 10) : digitValue? (digitChar d) = some d :=
  (by decide : ∀ k : Fin 10, digitValue? (digitChar k) = some k.val) ⟨d, h⟩

theorem readDigits_append (cs ds : List Char) (acc : Nat) :
    readDigits acc (cs ++ ds) = (readDigits acc cs).bind fun n => readDigits n ds := by
  induction cs generalizing acc with
  | nil => rfl
  | cons c rest ih =>
    simp only [List.cons_append, readDigits]
    cases digitValue? c with
    | none => rfl
    | some d => exact ih _

theorem readDigits_renderNat (n : Nat) : readDigits 0 (renderNat n) = some n := by
  induction n using renderNat.induct with
  | case1 n h =>
    rw [renderNat, if_pos h]
    simp [readDigits, digitValue?_digitChar h]
  | case2 n h ih =>
    rw [renderNat, if_neg h, readDigits_append, ih]
    simp only [Option.bind_some, readDigits, digitValue?_digitChar (Nat.mod_lt n (by omega))]
    congr 1
    omega

theorem renderNat_ne_nil (n : Nat) : renderNat n ≠ [] := by
  rw [renderNat]
  split <;> simp

/-- Reading the digits of a number gives it back. -/
theorem parseNat?_renderNat (n : Nat) : parseNat? (renderNat n) = some n := by
  cases h : renderNat n with
  | nil => exact absurd h (renderNat_ne_nil n)
  | cons c rest => rw [parseNat?, ← h, readDigits_renderNat]; simp

/-- Every character that `renderNat` writes is a digit. -/
theorem digitValue?_isSome_of_mem_renderNat {n : Nat} {c : Char} (h : c ∈ renderNat n) :
    (digitValue? c).isSome := by
  induction n using renderNat.induct with
  | case1 n hn =>
    rw [renderNat, if_pos hn, List.mem_singleton] at h
    rw [h, digitValue?_digitChar hn]; rfl
  | case2 n hn ih =>
    rw [renderNat, if_neg hn, List.mem_append, List.mem_singleton] at h
    rcases h with h | rfl
    · exact ih h
    · rw [digitValue?_digitChar (Nat.mod_lt n (by omega))]; rfl

/-- Unsigned digits are read as they stand. -/
theorem parseInt?_renderNat (n : Nat) : parseInt? (renderNat n) = some (Int.ofNat n) := by
  have hdigit : ∀ c ∈ renderNat n, (digitValue? c).isSome := fun _ =>
    digitValue?_isSome_of_mem_renderNat
  have hread := parseNat?_renderNat n
  generalize renderNat n = cs at hdigit hread
  unfold parseInt?
  split
  · exact absurd (hdigit '+' (by simp)) (by decide)
  · exact absurd (hdigit '-' (by simp)) (by decide)
  · rw [hread]; rfl

/-- Reading what was written gives the number back. -/
theorem parseInt?_renderInt (i : Int) : parseInt? (renderInt i) = some i := by
  unfold renderInt
  split
  · simp only [parseInt?, parseNat?_renderNat, Option.map_some]
    congr 1
    simp only [Int.ofNat_eq_natCast]
    omega
  · rw [parseInt?_renderNat]
    congr 1
    simp only [Int.ofNat_eq_natCast]
    omega

end Floodgate.Text
