import Floodgate.StoreError
/-!
# Floodgate.LockData

**Lock data says why a lock is busy.** Each busy instance may attach one text, and the texts of
several instances are merged into one by joining them with a separator. The separator is
therefore refused in the data of a single instance (`validate`), together with the tokens that a
backend reserves for its own encoding; splitting drops empty entries, so that instances without
data leave no trace.
-/

namespace Floodgate.LockData

open Floodgate.Text

/-- What stands between the data of two instances in merged data. -/
def separator : String := "#REACTIVELOCK#"

/-- Merges the data of several instances. -/
def join (entries : List String) : String := separator.intercalate entries

/-- The entries of merged data, without empty ones. -/
def split (data : String) : List String :=
  ((pieces separator.toList data.toList).filter (· ≠ [])).map String.ofList

/-- Whether a token occurs in lock data. -/
def contains (data token : String) : Bool := occursIn token.toList data.toList

/-- Refuses data that holds the separator or one of the reserved tokens, naming the first of them
that it holds. -/
def validate (data : Option String) (reserved : List String) : Except StoreError Unit :=
  match data with
  | none => .ok ()
  | some text =>
    match (separator :: reserved).find? (contains text) with
    | some token => .error (.invalidLockData text token)
    | none => .ok ()

end Floodgate.LockData
