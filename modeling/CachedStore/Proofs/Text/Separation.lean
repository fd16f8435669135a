import CachedStore.Text.Fingerprint

/-!
Fingerprints of byte sequences that differ in one byte. Mixing a byte into a state loses neither of
the two, so that once two states differ they do so for good, whatever bytes follow.
-/

namespace CachedStore

namespace Fingerprint

/-- A way to mix bytes into a state from which either is known by the other and the result. -/
structure Separates {σ : Type} (mix : σ → UInt8 → σ) : Prop where
  byte : ∀ {state : σ} {first second : UInt8}, mix state first = mix state second → first = second
  state : ∀ {first second : σ} {byte : UInt8}, mix first byte = mix second byte → first = second

namespace Separates

variable {σ : Type} {mix : σ → UInt8 → σ}

theorem eq_of_foldl (separates : Separates mix) {bytes : List UInt8} {first second : σ}
    (same : bytes.foldl mix first = bytes.foldl mix second) : first = second := by
  induction bytes generalizing first second with
  | nil => exact same
  | cons byte rest ih => exact separates.state (ih same)

theorem foldl_ne (separates : Separates mix) (before after : List UInt8) {first second : UInt8}
    (different : first ≠ second) (state : σ) :
    (before ++ [first] ++ after).foldl mix state ≠
      (before ++ [second] ++ after).foldl mix state := by
  intro same
  rw [List.foldl_append, List.foldl_append, List.foldl_append, List.foldl_append] at same
  exact different (separates.byte (separates.eq_of_foldl same))

theorem of_inverse [Mul σ] [XorOp σ] {prime one : σ} (inverse : σ) {word : UInt8 → σ}
    (assoc : ∀ a b c : σ, a * b * c = a * (b * c)) (mul_one : ∀ a : σ, a * one = a)
    (inverts : prime * inverse = one)
    (xor_left : ∀ {a b : σ} (mask : σ), a ^^^ mask = b ^^^ mask ↔ a = b)
    (xor_right : ∀ {a b : σ} (mask : σ), mask ^^^ a = mask ^^^ b ↔ a = b)
    (word_inj : ∀ {a b : UInt8}, word a = word b ↔ a = b) :
    Separates fun (state : σ) byte => (state ^^^ word byte) * prime := by
  have cancel : ∀ {a b : σ}, a * prime = b * prime → a = b := by
    intro a b same
    calc
      a = a * prime * inverse := by rw [assoc, inverts, mul_one]
      _ = b * prime * inverse := by rw [same]
      _ = b := by rw [assoc, inverts, mul_one]
  exact
    { byte := fun same => word_inj.mp ((xor_right _).mp (cancel same))
      state := fun same => (xor_left _).mp (cancel same) }

end Separates

theorem separates64 :
    Separates fun (state : UInt64) byte => (state ^^^ byte.toUInt64) * prime64 :=
  .of_inverse 0xce965057aff6957b UInt64.mul_assoc UInt64.mul_one (by decide) UInt64.xor_left_inj
    UInt64.xor_right_inj UInt8.toUInt64_inj

theorem separates32 :
    Separates fun (state : UInt32) byte => (state ^^^ byte.toUInt32) * prime32 :=
  .of_inverse 0x359c449b UInt32.mul_assoc UInt32.mul_one (by decide) UInt32.xor_left_inj
    UInt32.xor_right_inj UInt8.toUInt32_inj

theorem foldl_absorb64 (pieces : List (List UInt8)) (state : UInt64) :
    pieces.foldl absorb64 state = absorb64 state pieces.flatten := by
  induction pieces generalizing state with
  | nil => rfl
  | cons piece rest ih =>
      rw [List.foldl_cons, ih, List.flatten_cons, absorb64, absorb64, absorb64,
        List.foldl_append]

/--
If one byte is changed then so is every fingerprint, whatever bytes stand before and after it, and
however they are cut into pieces.
-/
theorem hash_separates (before after : List UInt8) {first second : UInt8}
    (different : first ≠ second) :
    hash64 (before ++ [first] ++ after) ≠ hash64 (before ++ [second] ++ after) ∧
      hash32 (before ++ [first] ++ after) ≠ hash32 (before ++ [second] ++ after) ∧
      ∀ pieces others : List (List UInt8), pieces.flatten = before ++ [first] ++ after →
        others.flatten = before ++ [second] ++ after →
        pieces.foldl absorb64 offset64 ≠ others.foldl absorb64 offset64 := by
  have apart : hash64 (before ++ [first] ++ after) ≠ hash64 (before ++ [second] ++ after) :=
    separates64.foldl_ne before after different offset64
  refine ⟨apart, separates32.foldl_ne before after different offset32, ?_⟩
  intro pieces others cut recut
  rw [foldl_absorb64, foldl_absorb64, cut, recut]
  exact apart

theorem hash_separates_digit :
    (0x31 : UInt8) ≠ 0x32 ∧ ofText "item-1" ≠ ofText "item-2" ∧
      [[0x69, 0x74], [], [0x65, 0x6d, 0x2d, 0x31, 0xff]].foldl absorb64 offset64 ≠
        [[0x69, 0x74, 0x65, 0x6d], [0x2d, 0x32], [0xff]].foldl absorb64 offset64 := by
  have different : (0x31 : UInt8) ≠ 0x32 := by decide
  obtain ⟨apart, -, cut⟩ := hash_separates [0x69, 0x74, 0x65, 0x6d, 0x2d] [0xff] different
  have one : Utf8.encode "item-1".toList = [0x69, 0x74, 0x65, 0x6d, 0x2d, 0x31] := by
    decide +kernel
  have two : Utf8.encode "item-2".toList = [0x69, 0x74, 0x65, 0x6d, 0x2d, 0x32] := by
    decide +kernel
  refine ⟨different, ?_, cut _ _ rfl rfl⟩
  rw [ofText, ofText, one, two]
  exact apart

end Fingerprint

end CachedStore
