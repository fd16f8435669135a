import Mathlib.Tactic.SplitIfs
import CachedStore.Text.Percent

/-!
Texts as bytes, and as segments of a path: what is encoded is read back. A segment spells out the
characters that it may hold, and writes the bytes of all others as percent signs with two digits.
-/

namespace CachedStore

/-! Characters and their bytes -/

namespace Utf8

theorem toNat_byte {code : Nat} (small : code < 256) : (UInt8.ofNat code).toNat = code :=
  UInt8.toNat_ofNat_of_lt' small

theorem isContinuation_byte {code : Nat} (low : 128 ≤ code) (high : code < 192) :
    isContinuation (UInt8.ofNat code) = true := by
  have same : (UInt8.ofNat code).toNat = code := toNat_byte (by omega)
  simp only [isContinuation, Bool.and_eq_true, decide_eq_true_eq, UInt8.le_iff_toNat_le, same,
    UInt8.reduceToNat]
  omega

theorem mayFollow_byte {first second : Nat} (lead : 194 ≤ first) (last : first ≤ 244)
    (low : 128 ≤ second) (high : second < 192) (short : first = 224 → 160 ≤ second)
    (surrogate : first = 237 → second < 160) (shorter : first = 240 → 144 ≤ second)
    (most : first = 244 → second < 144) :
    mayFollow (UInt8.ofNat first) (UInt8.ofNat second) = true := by
  have same : (UInt8.ofNat first).toNat = first := toNat_byte (by omega)
  have other : (UInt8.ofNat second).toNat = second := toNat_byte (by omega)
  simp only [mayFollow, isContinuation, ← UInt8.toNat_inj, same, UInt8.le_iff_toNat_le, other,
    UInt8.reduceToNat]
  split_ifs <;> simp only [Bool.and_eq_true, decide_eq_true_eq] <;> omega

theorem byte_lt {code : Nat} {bound : UInt8} (small : code < 256) :
    UInt8.ofNat code < bound ↔ code < bound.toNat := by
  rw [UInt8.lt_iff_toNat_lt, toNat_byte small]

theorem not_byte_lt {code : Nat} {bound : UInt8} (small : code < 256)
    (above : bound.toNat ≤ code) : ¬ UInt8.ofNat code < bound := fun less =>
  Nat.not_lt.mpr above ((byte_lt small).mp less)

theorem decode_one {code : Nat} (ascii : code < 128) (rest : List UInt8) :
    decode (UInt8.ofNat code :: rest) = some (Char.ofNat code) :: decode rest := by
  have small : code < 256 := by omega
  have below : UInt8.ofNat code < 0x80 := (byte_lt small).mpr ascii
  rw [decode.eq_def]
  simp only [below, ↓reduceIte, toNat_byte small]

section Longer

variable {first second third fourth : Nat} (rest : List UInt8)
  (follows : mayFollow (UInt8.ofNat first) (UInt8.ofNat second) = true)
  (small : first < 256) (next : second < 256)

include follows small next

theorem decode_two (lead : 128 ≤ first) (two : first < 224) :
    decode (UInt8.ofNat first :: UInt8.ofNat second :: rest) =
      some (Char.ofNat (first % 32 * 64 + second % 64)) :: decode rest := by
  have long : ¬ UInt8.ofNat first < 0x80 := not_byte_lt small lead
  have short : UInt8.ofNat first < 0xE0 := (byte_lt small).mpr two
  rw [decode.eq_def]
  simp only [long, follows, short, Bool.not_true, Bool.false_eq_true, ↓reduceIte, assemble,
    List.foldl_cons, List.foldl_nil, toNat_byte small, toNat_byte next]

theorem decode_three (lead : 224 ≤ first) (three : first < 240) (low : 128 ≤ third)
    (high : third < 192) :
    decode (UInt8.ofNat first :: UInt8.ofNat second :: UInt8.ofNat third :: rest) =
      some (Char.ofNat ((first % 16 * 64 + second % 64) * 64 + third % 64)) :: decode rest := by
  have long : ¬ UInt8.ofNat first < 0x80 := not_byte_lt small (show 128 ≤ first by omega)
  have longer : ¬ UInt8.ofNat first < 0xE0 := not_byte_lt small lead
  have short : UInt8.ofNat first < 0xF0 := (byte_lt small).mpr three
  have last : third < 256 := by omega
  rw [decode.eq_def]
  simp only [long, follows, longer, isContinuation_byte low high, short, Bool.not_true,
    Bool.false_eq_true, ↓reduceIte, assemble, List.foldl_cons, List.foldl_nil, toNat_byte small,
    toNat_byte next, toNat_byte last]

theorem decode_four (lead : 240 ≤ first) (low : 128 ≤ third) (high : third < 192)
    (least : 128 ≤ fourth) (most : fourth < 192) :
    decode (UInt8.ofNat first :: UInt8.ofNat second :: UInt8.ofNat third :: UInt8.ofNat fourth ::
        rest) =
      some (Char.ofNat (((first % 8 * 64 + second % 64) * 64 + third % 64) * 64 + fourth % 64)) ::
        decode rest := by
  have long : ¬ UInt8.ofNat first < 0x80 := not_byte_lt small (show 128 ≤ first by omega)
  have longer : ¬ UInt8.ofNat first < 0xE0 := not_byte_lt small (show 224 ≤ first by omega)
  have longest : ¬ UInt8.ofNat first < 0xF0 := not_byte_lt small lead
  have thirdByte : third < 256 := by omega
  have fourthByte : fourth < 256 := by omega
  rw [decode.eq_def]
  simp only [long, follows, longer, isContinuation_byte low high, longest,
    isContinuation_byte least most, Bool.not_true, Bool.false_eq_true, ↓reduceIte, assemble,
    List.foldl_cons, List.foldl_nil, toNat_byte small, toNat_byte next, toNat_byte thirdByte,
    toNat_byte fourthByte]

end Longer

theorem decode_encodeChar (c : Char) (rest : List UInt8) :
    decode (String.utf8EncodeChar c ++ rest) = some c :: decode rest := by
  have scalar : c.toNat < 0xD800 ∨ 0xDFFF < c.toNat ∧ c.toNat < 0x110000 := c.valid
  have reads : ∀ {code : Nat}, code = c.toNat → some (Char.ofNat code) :: decode rest =
      some c :: decode rest := fun same => by rw [same, Char.ofNat_toNat]
  have unfolded : String.utf8EncodeChar c = (
      let code := c.toNat
      if code ≤ 127 then [UInt8.ofNat code]
      else if code ≤ 2047 then
        [UInt8.ofNat (code / 64 % 32 + 192), UInt8.ofNat (code % 64 + 128)]
      else if code ≤ 65535 then
        [UInt8.ofNat (code / 4096 % 16 + 224), UInt8.ofNat (code / 64 % 64 + 128),
          UInt8.ofNat (code % 64 + 128)]
      else
        [UInt8.ofNat (code / 262144 % 8 + 240), UInt8.ofNat (code / 4096 % 64 + 128),
          UInt8.ofNat (code / 64 % 64 + 128), UInt8.ofNat (code % 64 + 128)]) := rfl
  rw [unfolded]
  generalize c.toNat = code at scalar reads ⊢
  dsimp only
  split_ifs with one two three
  · exact (decode_one (by omega) rest).trans (reads rfl)
  · refine (decode_two rest (mayFollow_byte ?_ ?_ ?_ ?_ ?_ ?_ ?_ ?_) ?_ ?_ ?_ ?_).trans
      (reads ?_) <;> omega
  · refine (decode_three rest (mayFollow_byte ?_ ?_ ?_ ?_ ?_ ?_ ?_ ?_) ?_ ?_ ?_ ?_ ?_ ?_).trans
      (reads ?_) <;> omega
  · refine (decode_four rest (mayFollow_byte ?_ ?_ ?_ ?_ ?_ ?_ ?_ ?_) ?_ ?_ ?_ ?_ ?_ ?_ ?_).trans
      (reads ?_) <;> omega

theorem decode_encode (text : List Char) : decode (encode text) = text.map some := by
  induction text with
  | nil => rfl
  | cons c rest ih =>
      rw [encode, List.flatMap_cons, decode_encodeChar, List.map_cons]
      exact congrArg _ ih

theorem decode?_encode (text : List Char) : decode? (encode text) = some (String.ofList text) := by
  have given : (text.map some).mapM id = some text := by
    induction text with
    | nil => rfl
    | cons c rest ih => rw [List.map_cons, List.mapM_cons, ih]; rfl
  rw [decode?, decode_encode, given]
  rfl

theorem encode_ne_nil {text : List Char} (written : text ≠ []) : encode text ≠ [] := by
  cases text with
  | nil => exact absurd rfl written
  | cons c rest =>
      have size : (String.utf8EncodeChar c).length = c.utf8Size := String.length_utf8EncodeChar c
      have positive := c.utf8Size_pos
      intro empty
      rw [encode, List.flatMap_cons, List.append_eq_nil_iff] at empty
      rw [empty.1, List.length_nil] at size
      omega

theorem decode_ne_nil {bytes : List UInt8} (written : bytes ≠ []) : decode bytes ≠ [] := by
  obtain ⟨first, rest, rfl⟩ := List.exists_cons_of_ne_nil written
  rw [decode.eq_def]
  dsimp only
  by_cases one : first < 0x80
  · rw [if_pos one]
    exact List.cons_ne_nil _ _
  rw [if_neg one]
  rcases rest with _ | ⟨second, rest⟩
  · exact List.cons_ne_nil _ _
  dsimp only
  split
  · exact List.cons_ne_nil _ _
  by_cases two : first < 0xE0
  · rw [if_pos two]
    exact List.cons_ne_nil _ _
  rw [if_neg two]
  rcases rest with _ | ⟨third, rest⟩
  · exact List.cons_ne_nil _ _
  dsimp only
  split
  · exact List.cons_ne_nil _ _
  by_cases three : first < 0xF0
  · rw [if_pos three]
    exact List.cons_ne_nil _ _
  rw [if_neg three]
  rcases rest with _ | ⟨fourth, rest⟩
  · exact List.cons_ne_nil _ _
  dsimp only
  split
  · exact List.cons_ne_nil _ _
  · exact List.cons_ne_nil _ _

theorem decode?_ne_empty {bytes : List UInt8} (written : bytes ≠ []) :
    decode? bytes ≠ some "" := by
  intro empty
  obtain ⟨characters, read, same⟩ := Option.map_eq_some_iff.mp empty
  obtain rfl : characters = [] := by simpa using same
  cases decoded : decode bytes with
  | nil => exact decode_ne_nil written decoded
  | cons first rest =>
      rw [decoded, List.mapM_cons] at read
      obtain ⟨c, _, read⟩ := Option.bind_eq_some_iff.mp read
      obtain ⟨others, _, impossible⟩ := Option.bind_eq_some_iff.mp read
      cases impossible

end Utf8

/-! Segments of a path -/

namespace Percent

def isSegmentChar (c : Char) : Bool :=
  c.isAlphanum || "-._~!$&'()*+,;=:@".toList.contains c

def hexDigit (value : Nat) : Char := Char.ofNat (if value < 10 then 48 + value else 55 + value)

def encodeByte (byte : UInt8) : List Char :=
  ['%', hexDigit (byte.toNat / 16), hexDigit (byte.toNat % 16)]

def encodeChar (c : Char) : List Char :=
  if isSegmentChar c then [c] else (String.utf8EncodeChar c).flatMap encodeByte

def encodeSegment (text : String) : List Char := text.toList.flatMap encodeChar

theorem toNat_of_isAlphanum {c : Char} (letter : c.isAlphanum = true) : c.toNat < 128 := by
  have below : ∀ last : Char, last.toNat < 128 → c.val ≤ last.val → c.toNat < 128 :=
    fun last small less => Nat.lt_of_le_of_lt (UInt32.le_iff_toNat_le.mp less) small
  rcases (Bool.or_eq_true _ _).mp letter with alphabetic | digit
  · rcases (Bool.or_eq_true _ _).mp alphabetic with upper | lower
    · exact below 'Z' (by decide) (of_decide_eq_true upper).2
    · exact below 'z' (by decide) (of_decide_eq_true ((Bool.and_eq_true _ _).mp lower).2)
  · exact below '9' (by decide) (of_decide_eq_true ((Bool.and_eq_true _ _).mp digit).2)

theorem toNat_of_isSegmentChar {c : Char} (plain : isSegmentChar c = true) : c.toNat < 128 := by
  rcases (Bool.or_eq_true _ _).mp plain with letter | mark
  · exact toNat_of_isAlphanum letter
  · have known : "-._~!$&'()*+,;=:@".toList.all (fun c => decide (c.toNat < 128)) = true := by
      decide +kernel
    exact of_decide_eq_true (List.all_eq_true.mp known c (by simpa using mark))

theorem isSegmentChar_hexDigit {value : Nat} (digit : value < 16) :
    isSegmentChar (hexDigit value) = true := by
  revert value
  decide

theorem hexValue?_hexDigit {value : Nat} (digit : value < 16) :
    hexValue? (UInt8.ofNat (hexDigit value).toNat) = some (UInt8.ofNat value) := by
  revert value
  decide

theorem utf8EncodeChar_of_ascii {c : Char} (ascii : c.toNat < 128) :
    String.utf8EncodeChar c = [UInt8.ofNat c.toNat] := by
  rw [String.utf8EncodeChar]
  exact if_pos (Nat.le_of_lt_succ ascii)

theorem encode_of_ascii {c : Char} (ascii : c.toNat < 128) (rest : List Char) :
    Utf8.encode (c :: rest) = UInt8.ofNat c.toNat :: Utf8.encode rest := by
  rw [Utf8.encode, List.flatMap_cons, utf8EncodeChar_of_ascii ascii]
  rfl

/-! Reading a segment -/

theorem decodeBytes_cons {byte : UInt8} (other : byte ≠ 37) (rest : List UInt8) :
    decodeBytes (byte :: rest) = byte :: decodeBytes rest := by
  rw [decodeBytes]
  rintro high low rest rfl
  exact absurd rfl other

theorem decodeBytes_encodeByte (byte : UInt8) (rest : List Char) :
    decodeBytes (Utf8.encode (encodeByte byte ++ rest)) =
      byte :: decodeBytes (Utf8.encode rest) := by
  have small : byte.toNat < 256 := byte.toNat_lt
  have high : byte.toNat / 16 < 16 := by omega
  have low : byte.toNat % 16 < 16 := by omega
  have whole : UInt8.ofNat (byte.toNat / 16) * 16 + UInt8.ofNat (byte.toNat % 16) = byte := by
    rw [← UInt8.toNat_inj]
    simp
    omega
  have percent : Utf8.encode (encodeByte byte ++ rest) = 37 ::
      UInt8.ofNat (hexDigit (byte.toNat / 16)).toNat ::
      UInt8.ofNat (hexDigit (byte.toNat % 16)).toNat :: Utf8.encode rest := by
    rw [encodeByte]
    simp only [List.cons_append, List.nil_append]
    rw [encode_of_ascii (by decide),
      encode_of_ascii (toNat_of_isSegmentChar (isSegmentChar_hexDigit high)),
      encode_of_ascii (toNat_of_isSegmentChar (isSegmentChar_hexDigit low))]
    rfl
  rw [percent, decodeBytes, hexValue?_hexDigit high, hexValue?_hexDigit low]
  exact congrArg (· :: _) whole

theorem decodeBytes_encodeChar (c : Char) (rest : List Char) :
    decodeBytes (Utf8.encode (encodeChar c ++ rest)) =
      String.utf8EncodeChar c ++ decodeBytes (Utf8.encode rest) := by
  unfold encodeChar
  split
  · rename_i plain
    have ascii := toNat_of_isSegmentChar plain
    have other : UInt8.ofNat c.toNat ≠ 37 := by
      intro same
      have code : c.toNat = '%'.toNat := by
        rw [← Utf8.toNat_byte (Nat.lt_trans ascii (by decide)), same]
        rfl
      obtain rfl := Char.toNat_inj.mp code
      cases plain
    rw [List.singleton_append, encode_of_ascii ascii, decodeBytes_cons other,
      utf8EncodeChar_of_ascii ascii]
    rfl
  · have bytes : ∀ bytes : List UInt8,
        decodeBytes (Utf8.encode (bytes.flatMap encodeByte ++ rest)) =
          bytes ++ decodeBytes (Utf8.encode rest) := by
      intro bytes
      induction bytes with
      | nil => rfl
      | cons byte others ih =>
          rw [List.flatMap_cons, List.append_assoc, decodeBytes_encodeByte, ih]
          rfl
    exact bytes _

theorem decodeSegment?_encodeSegment (text : String) :
    decodeSegment? (encodeSegment text) = some text := by
  have bytes : ∀ letters : List Char,
      decodeBytes (Utf8.encode (letters.flatMap encodeChar)) = Utf8.encode letters := by
    intro letters
    induction letters with
    | nil => rfl
    | cons c rest ih =>
        rw [List.flatMap_cons, decodeBytes_encodeChar, ih]
        rfl
  rw [decodeSegment?, encodeSegment, bytes, Utf8.decode?_encode, String.ofList_toList]

theorem decodeBytes_ne_nil {bytes : List UInt8} (written : bytes ≠ []) :
    decodeBytes bytes ≠ [] := by
  unfold decodeBytes
  split
  · exact absurd rfl written
  · split <;> simp
  · simp

end Percent

end CachedStore
