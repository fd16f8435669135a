import CachedStore.Json.Basic
import CachedStore.Number.Shortest

/-!
Compact JSON text: no blanks, members in the order of their names. Only quotes, backslashes and
control characters are escaped.
-/

namespace CachedStore

namespace Json

def hexDigit (value : Nat) : Char := Char.ofNat (if value < 10 then 48 + value else 87 + value)

def escape (c : Char) : List Char :=
  if c = '"' then ['\\', '"']
  else if c = '\\' then ['\\', '\\']
  else if 32 ≤ c.toNat then [c]
  else if c = '\n' then ['\\', 'n']
  else if c = '\r' then ['\\', 'r']
  else if c = '\t' then ['\\', 't']
  else if c.toNat = 8 then ['\\', 'b']
  else if c.toNat = 12 then ['\\', 'f']
  else ['\\', 'u', '0', '0', hexDigit (c.toNat / 16), hexDigit (c.toNat % 16)]

def quote (text : String) : String :=
  String.ofList ('"' :: (text.toList.flatMap escape ++ ['"']))

end Json

def Number.text : Number → String
  | integer value => toString value
  | double value => value.text

namespace Json

mutual

def text : Json → String
  | null => "null"
  | bool true => "true"
  | bool false => "false"
  | number value => value.text
  | string value => quote value
  | array items => "[" ++ itemsText items ++ "]"
  | object members => "\x7b" ++ membersText members ++ "\x7d"

def itemsText : List Json → String
  | [] => ""
  | [item] => text item
  | item :: rest => text item ++ "," ++ itemsText rest

def membersText : List (String × Json) → String
  | [] => ""
  | [(name, value)] => quote name ++ ":" ++ text value
  | (name, value) :: rest => quote name ++ ":" ++ text value ++ "," ++ membersText rest

end

end Json

end CachedStore
