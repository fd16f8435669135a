/-!
UTF-8: the bytes of a text, and the text of bytes. A byte sequence that is no character is read as
one fault, as long as it could still have become one.
-/

namespace CachedStore

namespace Utf8

def encode (text : List Char) : List UInt8 := text.flatMap String.utf8EncodeChar

def isContinuation (byte : UInt8) : Bool := 0x80 ≤ byte && byte ≤ 0xBF

def mayFollow (first second : UInt8) : Bool :=
  if first = 0xE0 then 0xA0 ≤ second && second ≤ 0xBF
  else if first = 0xED then 0x80 ≤ second && second ≤ 0x9F
  else if first = 0xF0 then 0x90 ≤ second && second ≤ 0xBF
  else if first = 0xF4 then 0x80 ≤ second && second ≤ 0x8F
  else (0xC2 ≤ first && first ≤ 0xF4) && isContinuation second

/-- The code of a leading byte's low bits and of the continuations after it. -/
def assemble (lead : Nat) (continuations : List UInt8) : Char :=
  Char.ofNat (continuations.foldl (fun code byte => code * 64 + byte.toNat % 64) lead)

def decode : List UInt8 → List (Option Char)
  | [] => []
  | first :: rest =>
    if first < 0x80 then some (Char.ofNat first.toNat) :: decode rest
    else
      match rest with
      | [] => [none]
      | second :: rest' =>
        if !mayFollow first second then none :: decode (second :: rest')
        else if first < 0xE0 then some (assemble (first.toNat % 32) [second]) :: decode rest'
        else
          match rest' with
          | [] => [none]
          | third :: rest'' =>
            if !isContinuation third then none :: decode (third :: rest'')
            else if first < 0xF0 then
              some (assemble (first.toNat % 16) [second, third]) :: decode rest''
            else
              match rest'' with
              | [] => [none]
              | fourth :: rest''' =>
                if !isContinuation fourth then none :: decode (fourth :: rest''')
                else some (assemble (first.toNat % 8) [second, third, fourth]) :: decode rest'''

def decode? (bytes : List UInt8) : Option String :=
  ((decode bytes).mapM id).map String.ofList

/-- The text of bytes, each fault shown as the replacement character. -/
def decodeLossy (bytes : List UInt8) : String :=
  String.ofList ((decode bytes).map (·.getD '\uFFFD'))

end Utf8

end CachedStore
