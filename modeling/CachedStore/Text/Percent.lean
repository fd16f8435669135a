import CachedStore.Text.Utf8

/-!
Percent-encoded text: path segments, and the name-value pairs of a query.
-/

namespace CachedStore

namespace Percent

def hexValue? (byte : UInt8) : Option UInt8 :=
  if 48 ≤ byte ∧ byte ≤ 57 then some (byte - 48)
  else if 97 ≤ byte ∧ byte ≤ 102 then some (byte - 87)
  else if 65 ≤ byte ∧ byte ≤ 70 then some (byte - 55)
  else none

/-- A percent sign with two hexadecimal digits is a byte; any other stands for itself. -/
def decodeBytes : List UInt8 → List UInt8
  | [] => []
  | 37 :: high :: low :: rest =>
    match hexValue? high, hexValue? low with
    | some h, some l => (h * 16 + l) :: decodeBytes rest
    | _, _ => 37 :: decodeBytes (high :: low :: rest)
  | byte :: rest => byte :: decodeBytes rest

def decodeSegment? (segment : List Char) : Option String :=
  Utf8.decode? (decodeBytes (Utf8.encode segment))

/-- The text of a part of a query, where a plus sign is a blank. -/
def decodeFormPart (part : List Char) : String :=
  let spaced := (Utf8.encode part).map fun byte => if byte = 43 then 32 else byte
  Utf8.decodeLossy (decodeBytes spaced)

/--
The pairs of a query. A pair without an equals sign has an empty value; empty ones are skipped.
-/
def formPairs (query : List Char) : List (String × String) :=
  ((query.splitOn '&').filter (· ≠ [])).map fun pair =>
    (decodeFormPart (pair.takeWhile (· ≠ '=')), decodeFormPart ((pair.dropWhile (· ≠ '=')).drop 1))

end Percent

end CachedStore
