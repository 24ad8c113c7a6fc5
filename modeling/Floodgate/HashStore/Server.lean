import Floodgate.Assoc
/-!
# Floodgate.HashStore.Server

**A server of hashes.** Each hash maps fields to values. While the server is unavailable, writing
and reading fail and change nothing.
-/

namespace Floodgate

/-- A server of hashes. -/
structure HashServer where
  /-- The hashes by their keys, each with its fields. -/
  hashes : List (String × List (String × String))
  /-- Whether it can be reached. -/
  isAvailable : Bool
  deriving DecidableEq, Repr

namespace HashServer

def empty : HashServer := ⟨[], true⟩

/-- The fields of a hash; a hash never written has none. -/
def fields (s : HashServer) (hash : String) : List (String × String) :=
  (s.hashes.lookup hash).getD []

def write (s : HashServer) (hash field value : String) : Option HashServer :=
  if s.isAvailable then
    some { s with hashes := Assoc.put hash (Assoc.put field value (s.fields hash)) s.hashes }
  else
    none

def readAll (s : HashServer) (hash : String) : Option (List (String × String)) :=
  if s.isAvailable then some (s.fields hash) else none

/-- A field that has been written reads back, and no other field is touched. -/
theorem fields_of_write {s s' : HashServer} {hash field value : String}
    (h : s.write hash field value = some s') :
    s'.fields hash = Assoc.put field value (s.fields hash) := by
  unfold write at h
  split at h
  · cases h
    simp [fields]
  · cases h

end HashServer

end Floodgate
