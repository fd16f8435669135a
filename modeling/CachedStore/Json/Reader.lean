import CachedStore.Json.Basic

/-!
Reading JSON text. A whole text is read as one value; of a request body only the first value is
read, field by field against the types that the request asks for, so that the first fault in the
text decides whether the body is malformed or merely unsuitable.
-/

namespace CachedStore

/-- Why a text was refused: it is not JSON, or its values are not those asked for. -/
inductive ReadError where
  | malformed
  | unsuitable
deriving DecidableEq, Repr

namespace Json

/-- A value that is kept must have a meaning; one that is skipped only has to follow the grammar. -/
inductive Purpose where
  | keep
  | skip
deriving DecidableEq

def isSpace (c : Char) : Bool := c == ' ' || c == '\n' || c == '\t' || c == '\r'

def skipSpaces (input : List Char) : List Char := input.dropWhile isSpace

def digitValue (c : Char) : Nat := c.toNat - '0'.toNat

def isDigit (c : Char) : Bool := '0' ≤ c && c ≤ '9'

def hexValue? (c : Char) : Option Nat :=
  if '0' ≤ c ∧ c ≤ '9' then some (c.toNat - 48)
  else if 'a' ≤ c ∧ c ≤ 'f' then some (c.toNat - 87)
  else if 'A' ≤ c ∧ c ≤ 'F' then some (c.toNat - 55)
  else none

def codeUnit? (a b c d : Char) : Option Nat := do
  let a ← hexValue? a
  let b ← hexValue? b
  let c ← hexValue? c
  let d ← hexValue? d
  return ((a * 16 + b) * 16 + c) * 16 + d

def isHighSurrogate (unit : Nat) : Bool := 0xD800 ≤ unit && unit < 0xDC00

def isLowSurrogate (unit : Nat) : Bool := 0xDC00 ≤ unit && unit < 0xE000

def simpleEscape? : Char → Option Char
  | '"' => some '"'
  | '\\' => some '\\'
  | '/' => some '/'
  | 'b' => some '\x08'
  | 'f' => some '\x0c'
  | 'n' => some '\n'
  | 'r' => some '\r'
  | 't' => some '\t'
  | _ => none

def readChars (purpose : Purpose) (done : List Char) :
    List Char → Except ReadError (String × List Char)
  | [] => .error .malformed
  | '"' :: rest => .ok (String.ofList done.reverse, rest)
  | '\\' :: 'u' :: a :: b :: c :: d :: rest =>
    match codeUnit? a b c d with
    | none => .error .malformed
    | some unit =>
      if purpose = .skip then readChars purpose ('?' :: done) rest
      else if isLowSurrogate unit then .error .malformed
      else if isHighSurrogate unit then
        match rest with
        | '\\' :: 'u' :: a' :: b' :: c' :: d' :: rest' =>
          match codeUnit? a' b' c' d' with
          | none => .error .malformed
          | some low =>
            if isLowSurrogate low then
              let code := 0x10000 + (unit - 0xD800) * 0x400 + (low - 0xDC00)
              readChars purpose (Char.ofNat code :: done) rest'
            else .error .malformed
        | _ => .error .malformed
      else readChars purpose (Char.ofNat unit :: done) rest
  | '\\' :: c :: rest =>
    match simpleEscape? c with
    | some c => readChars purpose (c :: done) rest
    | none => .error .malformed
  | c :: rest => if c.toNat < 32 then .error .malformed else readChars purpose (c :: done) rest

/-- Takes digits into a significand while it fits 64 bits; the second part is what did not fit. -/
def absorb (significand : Nat) : List Char → Nat × List Char
  | [] => (significand, [])
  | digit :: rest =>
    let longer := significand * 10 + digitValue digit
    if longer < 2 ^ 64 then absorb longer rest else (significand, digit :: rest)

def digitsValue (digits : List Char) : Nat :=
  digits.foldl (fun value digit => value * 10 + digitValue digit) 0

def readExponent (input : List Char) : Except ReadError (Int × List Char) :=
  let (negative, input) : Bool × List Char :=
    match input with
    | '+' :: rest => (false, rest)
    | '-' :: rest => (true, rest)
    | _ => (false, input)
  match input.span isDigit with
  | ([], _) => .error .malformed
  | (digits, rest) =>
    let value : Int := digitsValue digits
    .ok (if negative then -value else value, rest)

def finishDouble (purpose : Purpose) (negative : Bool) (significand : Nat) (exponent : Int)
    (rest : List Char) : Except ReadError (Number × List Char) :=
  match Double.ofDecimal? significand exponent with
  | some value => .ok (.double (if negative then value.negate else value), rest)
  | none => if purpose = .skip then .ok (.integer 0, rest) else .error .malformed

def readScaled (purpose : Purpose) (negative : Bool) (significand : Nat) (exponent : Int)
    (input : List Char) : Except ReadError (Number × List Char) :=
  match input with
  | 'e' :: rest | 'E' :: rest => do
    let (shift, rest) ← readExponent rest
    finishDouble purpose negative significand (exponent + shift) rest
  | rest => finishDouble purpose negative significand exponent rest

/-- A whole number is an integer if 64 bits hold it. A negative zero is a double. -/
def wholeNumber (negative : Bool) (significand : Nat) : Number :=
  if !negative then .integer significand
  else if significand = 0 ∨ 2 ^ 63 < significand then .double (Double.ofNat significand).negate
  else .integer (-significand)

def readMagnitude (purpose : Purpose) (negative : Bool) (input : List Char) :
    Except ReadError (Number × List Char) :=
  match input.span isDigit with
  | ([], _) => .error .malformed
  | ('0' :: _ :: _, _) => .error .malformed
  | (digits, rest) =>
    let (significand, left) := absorb 0 digits
    match rest with
    | '.' :: rest =>
      match rest.span isDigit with
      | ([], _) => .error .malformed
      | (fraction, rest) =>
        let (significand, ignored) := absorb significand fraction
        let exponent : Int := left.length - (fraction.length - ignored.length)
        readScaled purpose negative significand exponent rest
    | 'e' :: _ | 'E' :: _ => readScaled purpose negative significand left.length rest
    | _ =>
      match left with
      | [] => .ok (wholeNumber negative significand, rest)
      | _ => finishDouble purpose negative significand left.length rest

def readWord (word : List Char) (value : Json) (input : List Char) :
    Except ReadError (Json × List Char) :=
  if input.take word.length = word then .ok (value, input.drop word.length)
  else .error .malformed

def maximalDepth : Nat := 128

mutual

/-- Reads one value. `fuel` bounds the values still read, `depth` the containers still opened. -/
def readValue (purpose : Purpose) :
    (fuel depth : Nat) → List Char → Except ReadError (Json × List Char)
  | 0, _, _ => .error .malformed
  | fuel + 1, depth, input =>
    match skipSpaces input with
    | 'n' :: rest => readWord ['u', 'l', 'l'] .null rest
    | 't' :: rest => readWord ['r', 'u', 'e'] (.bool true) rest
    | 'f' :: rest => readWord ['a', 'l', 's', 'e'] (.bool false) rest
    | '"' :: rest => do
      let (text, rest) ← readChars purpose [] rest
      return (.string text, rest)
    | '[' :: rest =>
      if purpose = .keep ∧ depth ≤ 1 then .error .malformed
      else
        match skipSpaces rest with
        | ']' :: rest => .ok (.array [], rest)
        | rest => do
          let (items, rest) ← readItems purpose fuel (depth - 1) [] rest
          return (.array items, rest)
    | '\x7b' :: rest =>
      if purpose = .keep ∧ depth ≤ 1 then .error .malformed
      else
        match skipSpaces rest with
        | '\x7d' :: rest => .ok (.object [], rest)
        | rest => do
          let (row, rest) ← readMembers purpose fuel (depth - 1) Row.empty rest
          return (row.toJson, rest)
    | '-' :: rest => do
      let (value, rest) ← readMagnitude purpose true rest
      return (.number value, rest)
    | rest => do
      let (value, rest) ← readMagnitude purpose false rest
      return (.number value, rest)

def readItems (purpose : Purpose) :
    (fuel depth : Nat) → List Json → List Char → Except ReadError (List Json × List Char)
  | 0, _, _, _ => .error .malformed
  | fuel + 1, depth, done, input => do
    let (item, rest) ← readValue purpose fuel depth input
    match skipSpaces rest with
    | ',' :: rest => readItems purpose fuel depth (item :: done) rest
    | ']' :: rest => return ((item :: done).reverse, rest)
    | _ => throw .malformed

def readMembers (purpose : Purpose) :
    (fuel depth : Nat) → Row → List Char → Except ReadError (Row × List Char)
  | 0, _, _, _ => .error .malformed
  | fuel + 1, depth, row, input =>
    match skipSpaces input with
    | '"' :: rest => do
      let (name, rest) ← readChars purpose [] rest
      match skipSpaces rest with
      | ':' :: rest =>
        let (value, rest) ← readValue purpose fuel depth rest
        match skipSpaces rest with
        | ',' :: rest => readMembers purpose fuel depth (row.insert name value) rest
        | '\x7d' :: rest => return (row.insert name value, rest)
        | _ => throw .malformed
      | _ => throw .malformed
    | _ => .error .malformed

end

def readFirst (purpose : Purpose) (input : List Char) : Except ReadError (Json × List Char) :=
  readValue purpose (2 * input.length + 2) maximalDepth input

def parse? (text : String) : Option Json :=
  match readFirst .keep text.toList with
  | .ok (value, rest) => if skipSpaces rest = [] then some value else none
  | .error _ => none

inductive FieldType where
  | text
  | optionalText
deriving DecidableEq

/-- The fault of a value that is not text: a container is refused unread. -/
def refuse (input : List Char) : ReadError :=
  match skipSpaces input with
  | '[' :: _ => .unsuitable
  | '\x7b' :: _ => .unsuitable
  | _ =>
    match readFirst .keep input with
    | .ok _ => .unsuitable
    | .error fault => fault

def readText (input : List Char) : Except ReadError (Json × List Char) :=
  match skipSpaces input with
  | '"' :: rest => do
    let (text, rest) ← readChars .keep [] rest
    return (.string text, rest)
  | _ => .error (refuse input)

def readField (type : FieldType) (input : List Char) : Except ReadError (Json × List Char) :=
  match type, skipSpaces input with
  | .optionalText, 'n' :: rest => readWord ['u', 'l', 'l'] .null rest
  | _, _ => readText input

def afterColon (input : List Char) : Except ReadError (List Char) :=
  match skipSpaces input with
  | ':' :: rest => .ok rest
  | _ => .error .malformed

/-- Reads the members of a body; a field given twice is refused, an unknown one skipped. -/
def readBodyMembers (fields : List (String × FieldType)) :
    (fuel : Nat) → Row → List Char → Except ReadError Json
  | 0, _, _ => .error .malformed
  | fuel + 1, row, input =>
    match input with
    | '"' :: rest => do
      let (name, rest) ← readChars .keep [] rest
      let (row, rest) ←
        match fields.lookup name with
        | some type =>
          if row.contains name then throw .unsuitable
          else
            let (value, rest) ← readField type (← afterColon rest)
            pure (row.insert name value, rest)
        | none =>
          let (_, rest) ← readFirst .skip (← afterColon rest)
          pure (row, rest)
      match skipSpaces rest with
      | ',' :: rest => readBodyMembers fields fuel row (skipSpaces rest)
      | '\x7d' :: _ => return row.toJson
      | _ => throw .malformed
    | _ => .error .malformed

def readBodyItems : List (String × FieldType) → List Json → List Char → Except ReadError Json
  | [], done, input =>
    match skipSpaces input with
    | ']' :: _ => .ok (.array done.reverse)
    | _ => .error .malformed
  | (_, type) :: fields, done, input =>
    match done, skipSpaces input with
    | _, ']' :: _ => .ok (.array done.reverse)
    | [], _ => do
      let (value, rest) ← readField type input
      readBodyItems fields [value] rest
    | _ :: _, ',' :: rest =>
      match skipSpaces rest with
      | ']' :: _ => .error .malformed
      | _ => do
        let (value, rest) ← readField type rest
        readBodyItems fields (value :: done) rest
    | _ :: _, _ => .error .malformed

/-- Reads a request body against its fields: an object, or the fields in order as an array. -/
def readBody (fields : List (String × FieldType)) (text : String) : Except ReadError Json :=
  match skipSpaces text.toList with
  | '\x7b' :: rest =>
    match skipSpaces rest with
    | '\x7d' :: _ => .ok (.object [])
    | rest => readBodyMembers fields (rest.length + 1) Row.empty rest
  | '[' :: rest => readBodyItems fields [] rest
  | rest => .error (refuse rest)

end Json

end CachedStore
