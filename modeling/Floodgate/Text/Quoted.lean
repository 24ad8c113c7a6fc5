import Floodgate.Text.Unprinted
/-!
# Floodgate.Text.Quoted

**Text between double quotes, as error messages show it.** A quote and a backslash are written
behind a backslash, four controls have a short form (`\0`, `\t`, `\n`, `\r`), characters that
would not show are spelled `\u{hex}` in lower case without leading zeros, and all else stands
for itself. A single quote needs no escape between double quotes.
-/

namespace Floodgate.Text

/-- The lower-case hexadecimal digits of a number, without leading zeros. -/
def hexDigits (n : Nat) : List Char := Nat.toDigits 16 n

/-- One character between double quotes. -/
def escape (c : Char) : List Char :=
  if c = '\x00' then ['\\', '0']
  else if c = '\t' then ['\\', 't']
  else if c = '\n' then ['\\', 'n']
  else if c = '\r' then ['\\', 'r']
  else if c = '"' then ['\\', '"']
  else if c = '\\' then ['\\', '\\']
  else if isUnprinted c then ['\\', 'u', '\x7b'] ++ hexDigits c.toNat ++ ['\x7d']
  else [c]

/-- A text between double quotes. -/
def quoted (s : String) : String :=
  String.ofList (['"'] ++ s.toList.flatMap escape ++ ['"'])

end Floodgate.Text
