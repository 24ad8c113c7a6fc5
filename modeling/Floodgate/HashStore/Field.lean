import Floodgate.Status
import Floodgate.Text.Blank
import Floodgate.Text.Decimal
/-!
# Floodgate.HashStore.Field

**A status as the value of a hash field.** The form is `flag;data;millis`: `1` for busy or `0` for
idle, the lock data, and the lease end in milliseconds since the epoch, the last two empty when
they are missing. Values written before leases existed (`1`, `1;data`) have no lease, and a lease
end that cannot be read counts as none.

The delimiter must not occur in lock data; everything behind the second delimiter belongs to the
lease end.
-/

namespace Floodgate.HashStore

open Floodgate.Text

/-- What stands between the parts of a field value. -/
def delimiter : Char := ';'

/-- The hash that holds the statuses of a lock key. -/
def hashKey (lockKey : String) : String := "ReactiveLock:Redis:HashSet:" ++ lockKey

/-- The channel on which changes to the statuses of a lock key are published. -/
def channelName (lockKey : String) : String := "ReactiveLock:Redis:HashSetNotifier:" ++ lockKey

/-- Writes the parts of a field value. -/
def encodeParts (isBusy : Bool) (lockData : Option String) (validUntil : Option Timestamp) :
    List Char :=
  (if isBusy then '1' else '0') :: delimiter :: (lockData.getD "").toList ++ delimiter ::
    (match validUntil with
    | some t => renderInt t.millis
    | none => [])

/-- The value of a field. -/
def encode (isBusy : Bool) (lockData : Option String) (validUntil : Option Timestamp) : String :=
  String.ofList (encodeParts isBusy lockData validUntil)

/-- The text before the first delimiter, and the text behind it if there is one. -/
def cut (cs : List Char) : List Char × Option (List Char) :=
  (cs.takeWhile (· ≠ delimiter), (cs.dropWhile (· ≠ delimiter)).tail?)

/-- Lock data as it is read: empty data is none. -/
def readData (cs : List Char) : Option String :=
  if cs.isEmpty then none else some (String.ofList cs)

/-- A lease end as it is read: a number of 64 signed bits between blanks that the calendar
reaches. -/
def readLease (cs : List Char) : Option Timestamp :=
  (parseInt64? (trim cs)).bind Timestamp.ofMillis?

/-- Reads the parts of a field value. -/
def decodeParts (cs : List Char) : Bool × Option String × Option Timestamp :=
  let (flag, rest) := cut cs
  let isBusy := trim flag == ['1']
  match rest with
  | none => (isBusy, none, none)
  | some rest =>
    let (data, rest) := cut rest
    (isBusy, readData data, rest.bind readLease)

def decode (instanceId value : String) : Status :=
  let (isBusy, lockData, validUntil) := decodeParts value.toList
  { instanceId, isBusy, lockData, validUntil }

end Floodgate.HashStore
