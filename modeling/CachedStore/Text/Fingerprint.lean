import CachedStore.Text.Utf8

/-!
FNV-1a fingerprints of byte sequences. Each byte is mixed in by exclusive or and a multiplication
by an odd prime, so bytes may come in any number of pieces.
-/

namespace CachedStore

namespace Fingerprint

def offset64 : UInt64 := 0xcbf29ce484222325

def prime64 : UInt64 := 0x100000001b3

def offset32 : UInt32 := 0x811c9dc5

def prime32 : UInt32 := 0x1000193

def absorb64 (state : UInt64) (bytes : List UInt8) : UInt64 :=
  bytes.foldl (fun state byte => (state ^^^ byte.toUInt64) * prime64) state

def absorb32 (state : UInt32) (bytes : List UInt8) : UInt32 :=
  bytes.foldl (fun state byte => (state ^^^ byte.toUInt32) * prime32) state

def hash64 (bytes : List UInt8) : UInt64 := absorb64 offset64 bytes

def hash32 (bytes : List UInt8) : UInt32 := absorb32 offset32 bytes

/-- The fingerprint of a text: its bytes, closed by one that no text contains. -/
def ofText (text : String) : UInt64 := hash64 (Utf8.encode text.toList ++ [0xff])

end Fingerprint

end CachedStore
