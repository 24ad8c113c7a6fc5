/-!
# Floodgate.Assoc

**Lists of keys with values, each key once.** `put` replaces the value of a key where it stands and
adds a new key at the end, so the order of the keys is the order of their first `put`. Look-up is
`List.lookup`.
-/

namespace Floodgate.Assoc

variable {κ ν : Type} [BEq κ]

def put (key : κ) (value : ν) : List (κ × ν) → List (κ × ν)
  | [] => [(key, value)]
  | (k, v) :: rest => if key == k then (k, value) :: rest else (k, v) :: put key value rest

/-- Takes a key out. -/
def erase (key : κ) (entries : List (κ × ν)) : List (κ × ν) := entries.filter fun e => !(key == e.1)

/-- The list that results from giving each key its value in turn. -/
def ofList (entries : List (κ × ν)) : List (κ × ν) :=
  entries.foldl (fun acc e => put e.1 e.2 acc) []

variable [LawfulBEq κ]

@[simp] theorem lookup_put_self (key : κ) (value : ν) (entries : List (κ × ν)) :
    (put key value entries).lookup key = some value := by
  induction entries with
  | nil => simp [put]
  | cons e rest ih =>
    obtain ⟨k, v⟩ := e
    cases h : key == k with
    | true => simp [put, h, List.lookup_cons]
    | false => simp [put, h, List.lookup_cons, ih]

theorem lookup_put_of_ne {key other : κ} (h : other ≠ key) (value : ν) (entries : List (κ × ν)) :
    (put key value entries).lookup other = entries.lookup other := by
  have hne : (other == key) = false := beq_eq_false_iff_ne.mpr h
  induction entries with
  | nil => simp [put, List.lookup_cons, hne]
  | cons e rest ih =>
    obtain ⟨k, v⟩ := e
    cases hk : key == k with
    | true =>
      obtain rfl := eq_of_beq hk
      simp [put, List.lookup_cons, hne]
    | false => simp [put, hk, List.lookup_cons, ih]

end Floodgate.Assoc
