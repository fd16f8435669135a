/-!
Media types: `type/subtype`, then parameters behind semicolons. Letters count in any case.
-/

namespace CachedStore

namespace MediaType

def isTokenChar (c : Char) : Bool :=
  c.isAlphanum || "!#$%&'*+-.^_`|~".toList.contains c

def isQuotable (c : Char) : Bool := 31 < c.toNat && c.toNat != 127

/-- The text behind a quoted value. The first character after the opening quote is never the end. -/
def afterQuoted : List Char → Option (List Char)
  | [] => none
  | first :: rest =>
    if !isQuotable first || !(rest.takeWhile (· != '"')).all isQuotable then none
    else
      match rest.dropWhile (· != '"') with
      | [] => none
      | _ :: rest => some rest

def afterBlanks (input : List Char) : Option (List Char) :=
  match input.dropWhile (· == ' ') with
  | [] => some []
  | ';' :: rest => some rest
  | _ => none

def afterToken (input : List Char) : Option (List Char) :=
  match input.span isTokenChar with
  | (_, []) => some []
  | (_ :: _, ';' :: rest) => some rest
  | _ => none

def areParameters : (fuel : Nat) → List Char → Bool
  | 0, _ => false
  | fuel + 1, input =>
    match (input.dropWhile (· == ' ')).span isTokenChar with
    | ([], []) => true
    | (_ :: _, '=' :: rest) =>
      let next :=
        match rest with
        | '"' :: rest => (afterQuoted rest).bind afterBlanks
        | rest => afterToken rest
      next.any (areParameters fuel)
    | _ => false

def parse? (text : String) : Option (List Char × List Char) :=
  match (text.toList.map Char.toLower).span isTokenChar with
  | (_ :: _, '/' :: rest) =>
    let type := (text.toList.map Char.toLower).takeWhile isTokenChar
    match rest.span isTokenChar with
    | (subtype, []) => some (type, subtype)
    | (_ :: _, ';' :: parameters) =>
      if areParameters (parameters.length + 1) parameters then
        some (type, rest.takeWhile isTokenChar)
      else none
    | _ => none
  | _ => none

/-- The subtype before its last plus sign, unless that comes first, and the suffix after it. -/
def splitSuffix (subtype : List Char) : List Char × Option (List Char) :=
  let suffix := (subtype.reverse.takeWhile (· != '+')).reverse
  let stem := subtype.take (subtype.length - suffix.length - 1)
  if suffix.length + 1 < subtype.length then (stem, some suffix) else (subtype, none)

/-- An application type of JSON, or with the suffix for it; all of it in ASCII. -/
def isJson (text : String) : Bool :=
  match (some text).filter (·.toList.all (·.toNat < 128)) >>= parse? with
  | none => false
  | some (type, subtype) =>
    let (stem, suffix) := splitSuffix subtype
    type == "application".toList && (stem == "json".toList || suffix == some "json".toList)

end MediaType

end CachedStore
