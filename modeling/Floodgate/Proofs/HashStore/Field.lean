import Floodgate.HashStore.Field
import Floodgate.Proofs.LockData
/-!
# Floodgate.Proofs.HashStore.Field

**What a store writes into its field is read back as it was written.** A field is cut at its first
two delimiters, so the data must not hold one; behind the second delimiter stands the lease end,
which is read as a whole, and whose digits hold neither blanks nor a delimiter.

Data with a delimiter is never read back: it comes back cut short (`decode_encode_iff`). So of the
tokens that a hash store refuses in lock data, the delimiter is the one that its fields need
(`decode_encode_of_validate`).
-/

namespace Floodgate.HashStore

open Floodgate.Text

variable {before rest : List Char} {lockData : Option String}

/-! ### Lease ends -/

theorem isBlank_eq_false_of_digit {c : Char} (h : (digitValue? c).isSome) : isBlank c = false := by
  unfold digitValue? at h
  split at h
  · next hdigit =>
    have hlow : 48 ≤ c.toNat := hdigit.1
    have hhigh : c.toNat ≤ 57 := hdigit.2
    simp only [isBlank, Bool.or_eq_false_iff, Bool.and_eq_false_iff, decide_eq_false_iff_not,
      beq_eq_false_iff_ne]
    omega
  · cases h

/-- A written number has no blanks that a reader could take off. -/
theorem trim_renderInt (i : Int) : trim (renderInt i) = renderInt i := by
  refine trim_eq_self fun c hc => ?_
  unfold renderInt at hc
  split at hc
  · rcases List.mem_cons.mp hc with rfl | hc
    · decide
    · exact isBlank_eq_false_of_digit (digitValue?_isSome_of_mem_renderNat hc)
  · exact isBlank_eq_false_of_digit (digitValue?_isSome_of_mem_renderNat hc)

/-- Every lease end of the calendar fits into 64 signed bits. -/
theorem fitsInt64_millis (t : Timestamp) : fitsInt64 t.millis = true := by
  have hmin := t.min_le
  have hmax := t.le_max
  simp only [fitsInt64, Bool.and_eq_true, decide_eq_true_eq]
  omega

@[simp] theorem readLease_nil : readLease [] = none := rfl

@[simp] theorem readLease_renderInt (t : Timestamp) : readLease (renderInt t.millis) = some t := by
  rw [readLease, trim_renderInt, parseInt64?, parseInt?_renderInt, Option.filter_some,
    if_pos (fitsInt64_millis t), Option.bind_some, Timestamp.ofMillis?_millis]

/-! ### Lock data -/

theorem cut_append (h : delimiter ∉ before) :
    cut (before ++ delimiter :: rest) = (before, some rest) := by
  have hpass : ∀ c ∈ before, decide (c ≠ delimiter) = true := fun c hc =>
    decide_eq_true (ne_of_mem_of_not_mem hc h)
  rw [cut, List.takeWhile_append_of_pos hpass, List.dropWhile_append_of_pos hpass]
  simp

/-- Data is read as it stands, but for empty data, which is none. -/
theorem readData_toList (lockData : Option String) :
    readData (lockData.getD "").toList = lockData.filter (· ≠ "") := by
  cases lockData with
  | none => rfl
  | some text =>
    rw [Option.filter_some]
    by_cases htext : text = "" <;> simp [readData, htext]

/-! ### Fields -/

theorem encodeParts_eq (isBusy : Bool) (lockData : Option String)
    (validUntil : Option Timestamp) :
    encodeParts isBusy lockData validUntil =
      (if isBusy then '1' else '0') :: delimiter :: ((lockData.getD "").toList ++
        delimiter :: ((validUntil.map fun t => renderInt t.millis).getD [])) := by
  cases validUntil <;> rfl

/-- A field is read by its parts. -/
theorem decodeParts_of_parts (isBusy : Bool) (hbefore : delimiter ∉ before) (rest : List Char) :
    decodeParts ((if isBusy then '1' else '0') :: delimiter :: (before ++ delimiter :: rest)) =
      (isBusy, readData before, readLease rest) := by
  have hflag (tail : List Char) : cut ((if isBusy then '1' else '0') :: delimiter :: tail) =
      ([if isBusy then '1' else '0'], some tail) :=
    @cut_append [_] _ (by cases isBusy <;> decide)
  have htrim : (trim [if isBusy then '1' else '0'] == ['1']) = isBusy := by
    cases isBusy <;> decide
  simp only [decodeParts, hflag, cut_append hbefore, htrim, Option.bind_some]

theorem decode_encode (instanceId : String) (isBusy : Bool) (validUntil : Option Timestamp)
    (h : ∀ text ∈ lockData, delimiter ∉ text.toList) :
    decode instanceId (encode isBusy lockData validUntil) =
      ⟨instanceId, isBusy, lockData.filter (· ≠ ""), validUntil⟩ := by
  have hfree : delimiter ∉ (lockData.getD "").toList := by
    cases lockData with
    | none => simp
    | some text => exact h text rfl
  have hlease : readLease ((validUntil.map fun t => renderInt t.millis).getD []) = validUntil := by
    cases validUntil <;> simp
  rw [decode, encode, String.toList_ofList, encodeParts_eq, decodeParts_of_parts _ hfree,
    readData_toList, hlease]

/-- Of data with a delimiter only what stands before the first one is read. -/
theorem lockData_decode_encode {text : String} (instanceId : String) (isBusy : Bool)
    (validUntil : Option Timestamp) (hsplit : text.toList = before ++ delimiter :: rest)
    (hbefore : delimiter ∉ before) :
    (decode instanceId (encode isBusy (some text) validUntil)).lockData = readData before := by
  rw [decode, encode, String.toList_ofList, encodeParts_eq, Option.getD_some, hsplit,
    List.append_assoc, List.cons_append, decodeParts_of_parts isBusy hbefore]

theorem readData_ne_some {text : String} (hsplit : text.toList = before ++ delimiter :: rest) :
    readData before ≠ some text := by
  unfold readData
  split
  · simp
  · intro h
    have hsame : before = text.toList := by rw [← Option.some.inj h, String.toList_ofList]
    have hlength := congrArg List.length (hsame.trans hsplit)
    simp at hlength

/-- A status that a hash store accepts is read back as it was set. -/
theorem decode_encode_of_validate (instanceId : String) (isBusy : Bool)
    (validUntil : Option Timestamp)
    (h : LockData.validate lockData [String.singleton delimiter] = .ok ()) :
    decode instanceId (encode isBusy lockData validUntil) =
      ⟨instanceId, isBusy, lockData.filter (· ≠ ""), validUntil⟩ := by
  refine decode_encode instanceId isBusy validUntil fun text htext hmem => ?_
  have hfree := LockData.validate_eq_ok_iff.mp h text htext (String.singleton delimiter) (by simp)
  rw [LockData.contains_eq_false_iff] at hfree
  obtain ⟨before, rest, hsplit⟩ := List.append_of_mem hmem
  exact hfree ⟨before, rest, by simp [hsplit]⟩

/-- **A status is read back as it was written, empty data as none, exactly if its data does not hold
the delimiter.** -/
theorem decode_encode_iff (instanceId : String) (isBusy : Bool) (lockData : Option String)
    (validUntil : Option Timestamp) :
    decode instanceId (encode isBusy lockData validUntil) =
        ⟨instanceId, isBusy, lockData.filter (· ≠ ""), validUntil⟩ ↔
      ∀ text ∈ lockData, delimiter ∉ text.toList := by
  refine ⟨fun hread text htext hmem => ?_, decode_encode instanceId isBusy validUntil⟩
  cases htext
  obtain ⟨before, rest, hsplit, hbefore⟩ := List.eq_append_cons_of_mem hmem
  have hne : text ≠ "" := by
    rintro rfl
    cases hmem
  have hdata := congrArg Status.lockData hread
  rw [lockData_decode_encode instanceId isBusy validUntil hsplit hbefore, Option.filter_some,
    if_pos (decide_eq_true hne)] at hdata
  exact readData_ne_some hsplit hdata

end Floodgate.HashStore
