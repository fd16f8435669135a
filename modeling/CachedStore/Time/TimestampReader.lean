import CachedStore.Text.Blank
import CachedStore.Time.Timestamp

/-!
Reading timestamps. The strict form is that of RFC 3339; the lenient one also takes short numbers,
blanks between the parts, signed years, and zones written `UTC` or without a colon.
-/

namespace CachedStore

namespace Timestamp

def isDigit (c : Char) : Bool := '0' ≤ c && c ≤ '9'

def digitsValue (digits : List Char) : Nat :=
  digits.foldl (fun value digit => value * 10 + (digit.toNat - 48)) 0

def skipBlanks (input : List Char) : List Char := input.dropWhile Text.isBlank

def readDigits (least most : Nat) (input : List Char) : Option (Nat × List Char) :=
  let digits := (input.take most).takeWhile isDigit
  if least ≤ digits.length then some (digitsValue digits, input.drop digits.length) else none

def expect (c : Char) : List Char → Option (List Char)
  | [] => none
  | head :: rest => if head = c then some rest else none

def within (low high : Nat) (read : Option (Nat × List Char)) : Option (Nat × List Char) :=
  read.filter fun (value, _) => low ≤ value && value ≤ high

/-- Nine digits of a fraction count, the others are dropped. -/
def readFraction : List Char → Option (Nat × List Char)
  | '.' :: input =>
    let digits := input.takeWhile isDigit
    if digits = [] then none
    else
      let kept := digits.take 9
      some (digitsValue kept * 10 ^ (9 - kept.length), input.drop digits.length)
  | input => some (0, input)

def readSeparator : List Char → Option (List Char)
  | 'T' :: rest => some rest
  | 't' :: rest => some rest
  | ' ' :: rest => some rest
  | _ => none

/-- Hours and minutes of an offset, as minutes; `between` takes what stands between them. -/
def readOffset (between : List Char → Option (List Char)) (input : List Char) :
    Option (Int × List Char) := do
  let (negative, input) ←
    match input with
    | '+' :: rest => some (false, rest)
    | '-' :: rest => some (true, rest)
    | '\u2212' :: rest => some (true, rest)
    | _ => none
  let (hours, input) ← readDigits 2 2 input
  let input ← between input
  let (minutes, input) ← within 0 59 (readDigits 2 2 input)
  let offset : Int := hours * 60 + minutes
  if offset < 1440 then return (if negative then -offset else offset, input) else none

def readZone (between : List Char → Option (List Char)) : List Char → Option (Int × List Char)
  | 'Z' :: rest => some (0, rest)
  | 'z' :: rest => some (0, rest)
  | input => readOffset between input

def inUtc? (reading : Timestamp) (offset : Int) : Option Timestamp :=
  let shifted := reading.ofLocal offset
  if reading.IsValid ∧ isCoveredYear shifted.year then some shifted else none

def parseStrict? (text : String) : Option Timestamp := do
  let input := text.toList
  let (year, input) ← readDigits 4 4 input
  let input ← expect '-' input
  let (month, input) ← within 1 12 (readDigits 2 2 input)
  let input ← expect '-' input
  let (day, input) ← within 1 31 (readDigits 2 2 input)
  let input ← readSeparator input
  let (hour, input) ← within 0 23 (readDigits 2 2 input)
  let input ← expect ':' input
  let (minute, input) ← within 0 59 (readDigits 2 2 input)
  let input ← expect ':' input
  let (second, input) ← within 0 60 (readDigits 2 2 input)
  let (nanosecond, input) ← readFraction input
  let (offset, input) ← readZone (expect ':') input
  if input = [] then inUtc? ⟨year, month, day, hour, minute, second, nanosecond⟩ offset else none

/-- A year of up to four digits, or of any number of digits behind a sign. -/
def readYear (input : List Char) : Option (Int × List Char) :=
  match skipBlanks input with
  | '-' :: rest => (readDigits 1 rest.length rest).map fun (year, rest) => (-(year : Int), rest)
  | '+' :: rest => (readDigits 1 rest.length rest).map fun (year, rest) => ((year : Int), rest)
  | rest => (readDigits 1 4 rest).map fun (year, rest) => ((year : Int), rest)

def readPart (low high : Nat) (input : List Char) : Option (Nat × List Char) :=
  within low high (readDigits 1 2 (skipBlanks input))

def expectSpaced (mark : Char) (input : List Char) : Option (List Char) :=
  expect mark (skipBlanks input)

/-- Colons and blanks may stand, in any number, between the hours and the minutes of an offset. -/
def skipColons (input : List Char) : Option (List Char) :=
  some (input.dropWhile fun c => c == ':' || Text.isBlank c)

def readLenientZone (input : List Char) : Option (Int × List Char) :=
  match input with
  | u :: t :: c :: rest =>
    if u.toUpper = 'U' ∧ t.toUpper = 'T' ∧ c.toUpper = 'C' then some (0, rest)
    else readZone skipColons input
  | _ => readZone skipColons input

def parse? (text : String) : Option Timestamp := do
  let (year, input) ← readYear text.toList
  let input ← expectSpaced '-' input
  let (month, input) ← readPart 1 12 input
  let input ← expectSpaced '-' input
  let (day, input) ← readPart 1 31 input
  let input ← readSeparator input
  let (hour, input) ← readPart 0 23 input
  let input ← expectSpaced ':' input
  let (minute, input) ← readPart 0 59 input
  let input ← expectSpaced ':' input
  let (second, input) ← readPart 0 60 input
  let (nanosecond, input) ← readFraction input
  let (offset, input) ← readLenientZone (skipBlanks input)
  if skipBlanks input = [] then
    inUtc? ⟨year, month, day, hour, minute, second, nanosecond⟩ offset
  else none

end Timestamp

end CachedStore
