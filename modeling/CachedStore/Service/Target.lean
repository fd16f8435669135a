/-!
The target of a request: a path with a query, alone or behind the scheme and the authority of its
host. A star or an authority alone are targets too, and have no path to a place.
-/

namespace CachedStore

structure Authority where
  /-- Colons since the last at sign or closing bracket. -/
  colons : Nat
  /-- Whether a percent sign stands behind the last at sign or closing bracket. -/
  percent : Bool
  opened : Bool
  closed : Bool
deriving DecidableEq, Repr

namespace Authority

def start : Authority := ⟨0, false, false, false⟩

def isPlain (c : Char) : Bool := c.isAlphanum || "-._~!$&'()*+,;=".toList.contains c

def mostColons : Nat := 8

/--
Takes one more character. User names and addresses in brackets may hold colons and percent signs;
what stands behind them counts anew.
-/
def next? (seen : Authority) (c : Char) : Option Authority :=
  if c = ':' then
    if seen.colons < mostColons then some { seen with colons := seen.colons + 1 } else none
  else if c = '[' then
    if seen.percent || seen.opened then none else some { seen with opened := true }
  else if c = ']' then
    if seen.opened && !seen.closed then some ⟨0, false, true, true⟩ else none
  else if c = '@' then some { seen with colons := 0, percent := false }
  else if c = '%' then some { seen with percent := true }
  else if isPlain c then some seen
  else none

def isComplete (seen : Authority) : Bool :=
  seen.opened == seen.closed && seen.colons ≤ 1 && !seen.percent

def isAuthority (text : List Char) : Bool :=
  (text.foldlM next? start).any isComplete && text.getLast? != some '@'

end Authority

structure Target where
  path : List Char
  query : List Char
deriving DecidableEq, Repr

namespace Target

/-- The characters of a path, percent-encoded bytes and characters past ASCII included. -/
def isPathChar (c : Char) : Bool :=
  let code := c.toNat
  code == 0x21 || code == 0x22 || (0x24 ≤ code && code ≤ 0x3B) || code == 0x3D ||
    (0x40 ≤ code && code ≤ 0x5F) || (0x61 ≤ code && code ≤ 0x7E) || 0x80 ≤ code

def isQueryChar (c : Char) : Bool :=
  let code := c.toNat
  code == 0x21 || (0x24 ≤ code && code ≤ 0x3B) || code == 0x3D ||
    (0x3F ≤ code && code ≤ 0x7E) || 0x80 ≤ code

/-- Reads a path with its query; a fragment is dropped. -/
def parsePath? (input : List Char) : Option Target :=
  let input := input.takeWhile (· != '#')
  let path := input.takeWhile (· != '?')
  let query := (input.dropWhile (· != '?')).drop 1
  if path.all isPathChar && query.all isQueryChar then some ⟨path, query⟩ else none

/-- Reads what follows a scheme: an authority, and a path that is the root if it is missing. -/
def parseHost? (input : List Char) : Option Target :=
  let host := input.takeWhile fun c => c != '/' && c != '?' && c != '#'
  let rest := input.drop host.length
  if host = [] ∨ !Authority.isAuthority host then none
  else
    match rest with
    | '/' :: _ => parsePath? rest
    | _ => parsePath? ('/' :: rest)

def isSchemeChar (c : Char) : Bool := c.isAlphanum || "+-.~".toList.contains c

def longestScheme : Nat := 64

def longest : Nat := 65534

def parse? (text : String) : Option Target :=
  if longest < text.utf8ByteSize then none
  else
    match text.toList with
    | [] => none
    | '/' :: rest => parsePath? ('/' :: rest)
    | ['*'] => some ⟨['*'], []⟩
    | input =>
      let scheme := input.takeWhile isSchemeChar
      match input.drop scheme.length with
      | ':' :: '/' :: '/' :: rest => if scheme.length ≤ longestScheme then parseHost? rest else none
      | _ => if Authority.isAuthority input then some ⟨[], []⟩ else none

end Target

end CachedStore
