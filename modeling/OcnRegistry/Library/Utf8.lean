/-
  File:      OcnRegistry/Library/Utf8.lean
  Subject:   TEXTS, THEIR UTF-8 BYTES AND THEIR UTF-16 LENGTH. No program fact.

  A text is a sequence of Unicode scalar values. `encode` writes its UTF-8 bytes, `decode` reads
  them back and fails on bytes that are no text, `utf16Length` counts the 16-bit units.

  * `decode_eq_some` -- decoding is the inverse of encoding, and defined on nothing else;
  * `length_encode_eq_iff` -- a text has as many bytes as units exactly when it is ASCII;
  * `encode_toUpper` -- on ASCII, upper-casing the text is upper-casing its bytes one by one.
-/
import OcnRegistry.Library.Packed
import Mathlib.Algebra.Ring.Nat

namespace Utf8

open Packed

/-! ## 1. Encoding and decoding -/

/-- The UTF-8 bytes of a text. -/
def encode (text : String) : List Byte := text.toUTF8.data.toList.map fun b => b.toBitVec

/-- The text with these UTF-8 bytes, if there is one. -/
def decode (bytes : List Byte) : Option String :=
  String.fromUTF8? ⟨(bytes.map UInt8.ofBitVec).toArray⟩

variable {text : String} {bytes : List Byte} {c : Char}

theorem map_toBitVec_ofBitVec (bytes : List Byte) :
    (bytes.map UInt8.ofBitVec).map (fun b => b.toBitVec) = bytes := by
  rw [List.map_map]
  exact List.map_id bytes

theorem map_ofBitVec_toBitVec (octets : List UInt8) :
    (octets.map fun b => b.toBitVec).map UInt8.ofBitVec = octets := by
  rw [List.map_map]
  exact List.map_id octets

/-- **Decoding is the inverse of encoding.** -/
theorem decode_eq_some : decode bytes = some text ↔ encode text = bytes := by
  unfold decode encode String.fromUTF8?
  refine ⟨fun h => ?_, fun h => ?_⟩
  · split at h
    · rename_i hvalid
      rw [← Option.some.inj h]
      exact map_toBitVec_ofBitVec bytes
    · cases h
  · have hbytes : (⟨(bytes.map UInt8.ofBitVec).toArray⟩ : ByteArray) = text.toByteArray := by
      rw [← h, map_ofBitVec_toBitVec]
      exact ByteArray.ext (Array.toArray_toList)
    rw [dif_pos (hbytes ▸ text.isValidUTF8)]
    exact congrArg some (String.toByteArray_inj.mp hbytes)

theorem encode_injective : Function.Injective encode := by
  intro s t h
  have hs : decode (encode t) = some s := decode_eq_some.mpr h
  have ht : decode (encode t) = some t := decode_eq_some.mpr rfl
  exact Option.some.inj (hs.symm.trans ht)

theorem encode_eq_nil : encode text = [] ↔ text = "" :=
  ⟨fun h => encode_injective (h.trans (by decide)), fun h => by rw [h]; decide⟩

/-- The bytes are those of a text. -/
def IsText (bytes : List Byte) : Prop := ∃ text, encode text = bytes

theorem isText_nil : IsText [] := ⟨"", encode_eq_nil.mpr rfl⟩

/-- The UTF-8 bytes of a character. -/
def encodeChar (c : Char) : List Byte := (String.utf8EncodeChar c).map fun b => b.toBitVec

/-- The bytes of a text are those of its characters, one after the other. -/
theorem encode_eq_flatMap : encode text = text.toList.flatMap encodeChar := by
  have hbytes : text.toUTF8 = text.toList.utf8Encode := String.utf8Encode_toList.symm
  unfold encode
  rw [hbytes]
  show ((text.toList.flatMap String.utf8EncodeChar).toByteArray.data.toList.map _) = _
  rw [List.toList_data_toByteArray, List.map_flatMap]
  rfl

theorem encode_append (first second : String) :
    encode (first ++ second) = encode first ++ encode second := by
  rw [encode_eq_flatMap, String.toList_append, List.flatMap_append, ← encode_eq_flatMap,
    ← encode_eq_flatMap]

/-- A text has a NUL character only where its bytes have a zero. -/
theorem nul_not_mem (h : (0 : Byte) ∉ encode text) : Char.ofNat 0 ∉ text.toList := by
  intro hmem
  rw [encode_eq_flatMap] at h
  exact h (List.mem_flatMap.mpr ⟨Char.ofNat 0, hmem, by decide⟩)

/-! ## 2. UTF-16 units -/

/-- The 16-bit units a character takes in UTF-16. -/
def units (c : Char) : Nat := if c.val < 0x10000 then 1 else 2

/-- The number of 16-bit units of a text. -/
def utf16Length (text : String) : Nat := (text.toList.map units).sum

/-- Every character is ASCII. -/
def IsAscii (text : String) : Prop := ∀ c ∈ text.toList, c.toNat < 128

theorem isAscii_append {first second : String} :
    IsAscii (first ++ second) ↔ IsAscii first ∧ IsAscii second := by
  unfold IsAscii
  rw [String.toList_append]
  exact List.forall_mem_append

theorem length_encodeChar : (encodeChar c).length = c.utf8Size := by
  rw [encodeChar, List.length_map, String.length_utf8EncodeChar]

/-- A character takes at least as many bytes as units, and as many only if it is ASCII. -/
theorem units_le_utf8Size : units c ≤ c.utf8Size ∧ (units c = c.utf8Size ↔ c.toNat < 128) := by
  have hunits : units c = if c.toNat < 65536 then 1 else 2 := by
    simp only [units, UInt32.lt_iff_toNat_lt]
    rfl
  have hsize : c.utf8Size = if c.toNat ≤ 127 then 1 else if c.toNat ≤ 2047 then 2
      else if c.toNat ≤ 65535 then 3 else 4 := by
    simp only [Char.utf8Size, UInt32.le_iff_toNat_le]
    rfl
  rw [hunits, hsize]
  split_ifs <;> omega

theorem length_encode_eq_sum : (encode text).length = (text.toList.map Char.utf8Size).sum := by
  rw [encode_eq_flatMap, List.length_flatMap]
  exact congrArg List.sum (List.map_congr_left fun c _ => length_encodeChar)

/-- A text has at most three bytes a unit. -/
theorem length_encode_le : (encode text).length ≤ 3 * utf16Length text := by
  have hchar (c : Char) : c.utf8Size ≤ 3 * units c := by
    have hmax := c.utf8Size_le_four
    unfold units
    split_ifs with h
    · -- four bytes are for what lies beyond one unit
      have hfour : c.utf8Size ≠ 4 := fun h4 => by
        have hlarge := Char.utf8Size_eq_four_iff.mp h4
        rw [UInt32.lt_iff_toNat_lt] at h hlarge
        exact absurd hlarge (Nat.not_lt.mpr (Nat.le_of_lt_succ h))
      omega
    · omega
  rw [length_encode_eq_sum, utf16Length]
  induction text.toList with
  | nil => exact Nat.le_refl 0
  | cons c cs ih =>
      have hc := hchar c
      rw [List.map_cons, List.map_cons, List.sum_cons, List.sum_cons]
      omega

/-- A text has at least as many bytes as characters. -/
theorem length_toList_le : text.toList.length ≤ (encode text).length := by
  rw [length_encode_eq_sum]
  induction text.toList with
  | nil => exact Nat.le_refl 0
  | cons c cs ih =>
      have hpos := c.utf8Size_pos
      rw [List.map_cons, List.sum_cons, List.length_cons]
      omega

/-- **A text has as many bytes as units exactly when it is ASCII.** -/
theorem length_encode_eq_iff : utf16Length text = (encode text).length ↔ IsAscii text := by
  have hlist : ∀ cs : List Char, (cs.map units).sum ≤ (cs.map Char.utf8Size).sum ∧
      ((cs.map units).sum = (cs.map Char.utf8Size).sum ↔ ∀ c ∈ cs, c.toNat < 128) := by
    intro cs
    induction cs with
    | nil => exact ⟨Nat.le_refl 0, iff_of_true rfl fun c hc => absurd hc List.not_mem_nil⟩
    | cons c cs ih =>
        obtain ⟨hle, hiff⟩ := units_le_utf8Size (c := c)
        obtain ⟨hles, hiffs⟩ := ih
        rw [List.map_cons, List.map_cons, List.sum_cons, List.sum_cons, List.forall_mem_cons,
          ← hiff, ← hiffs]
        omega
  rw [length_encode_eq_sum]
  exact (hlist text.toList).2

/-! ## 3. ASCII -/

/-- What holds of the 128 ASCII characters. -/
theorem forall_ascii {P : Char → Prop} (h : ∀ n < 128, P (Char.ofNat n)) (hc : c.toNat < 128) :
    P c := by
  have hP := h c.toNat hc
  rwa [Char.ofNat_toNat] at hP

/-- The byte of an ASCII character. -/
def asciiByte (c : Char) : Byte := BitVec.ofNat 8 c.toNat

theorem encodeChar_ascii (hc : c.toNat < 128) : encodeChar c = [asciiByte c] := by
  have hle : c.val ≤ 0x7f := UInt32.le_iff_toNat_le.mpr (Nat.le_of_lt_succ hc)
  have hsize : c.utf8Size = 1 := Char.utf8Size_eq_one_iff.mpr hle
  rw [encodeChar, String.utf8EncodeChar_eq_singleton hsize]
  show [c.val.toUInt8.toBitVec] = [_]
  refine congrArg (fun b => [b]) (BitVec.eq_of_toNat_eq ?_)
  rw [asciiByte, BitVec.toNat_ofNat]
  exact UInt32.toNat_toUInt8 c.val

/-- The bytes of an ASCII text. -/
theorem encode_ascii (h : IsAscii text) : encode text = text.toList.map asciiByte := by
  rw [encode_eq_flatMap, ← List.flatMap_singleton' (text.toList.map asciiByte), List.flatMap_map]
  exact List.flatMap_congr fun c hc => encodeChar_ascii (h c hc)

theorem length_encode_ascii (h : IsAscii text) : (encode text).length = text.toList.length := by
  rw [encode_ascii h, List.length_map]

/-- The bytes of an ASCII text are below 128. -/
theorem bytes_lt_of_isAscii (h : IsAscii text) : ∀ b ∈ encode text, b.toNat < 128 := by
  rw [encode_ascii h]
  intro b hb
  obtain ⟨c, hc, rfl⟩ := List.mem_map.mp hb
  have hlt := h c hc
  rw [asciiByte, BitVec.toNat_ofNat]
  omega

/-- Bytes below 128 are the bytes of an ASCII text. -/
theorem decode_of_bytes_lt (h : ∀ b ∈ bytes, b.toNat < 128) :
    ∃ text, decode bytes = some text ∧ IsAscii text := by
  have hchar : ∀ b ∈ bytes, (Char.ofNat b.toNat).toNat = b.toNat := by
    intro b hb
    have hlt := h b hb
    rw [Char.ofNat, dif_pos (Or.inl (by omega))]
    rfl
  refine ⟨String.ofList (bytes.map fun b => Char.ofNat b.toNat), ?_⟩
  have hascii : IsAscii (String.ofList (bytes.map fun b => Char.ofNat b.toNat)) := by
    intro c hc
    rw [String.toList_ofList] at hc
    obtain ⟨b, hb, rfl⟩ := List.mem_map.mp hc
    rw [hchar b hb]
    exact h b hb
  refine ⟨decode_eq_some.mpr ?_, hascii⟩
  rw [encode_ascii hascii, String.toList_ofList, List.map_map]
  refine (List.map_congr_left fun b hb => ?_).trans (List.map_id bytes)
  show BitVec.ofNat 8 (Char.ofNat b.toNat).toNat = b
  rw [hchar b hb, BitVec.ofNat_toNat, BitVec.setWidth_eq]

/-- Upper-casing a byte. -/
def upperByte (b : Byte) : Byte := if 97 ≤ b ∧ b ≤ 122 then b - 32 else b

theorem asciiByte_toUpper (hc : c.toNat < 128) : asciiByte c.toUpper = upperByte (asciiByte c) :=
  forall_ascii (P := fun c => asciiByte c.toUpper = upperByte (asciiByte c)) (by decide +kernel) hc

theorem toUpper_lt (hc : c.toNat < 128) : c.toUpper.toNat < 128 :=
  forall_ascii (P := fun c => c.toUpper.toNat < 128) (by decide +kernel) hc

/-- **On ASCII, upper-casing a text is upper-casing its bytes.** -/
theorem encode_toUpper (h : IsAscii text) :
    encode (String.ofList (text.toList.map Char.toUpper)) = (encode text).map upperByte := by
  have hupper : IsAscii (String.ofList (text.toList.map Char.toUpper)) := by
    intro c hc
    rw [String.toList_ofList] at hc
    obtain ⟨d, hd, rfl⟩ := List.mem_map.mp hc
    exact toUpper_lt (h d hd)
  rw [encode_ascii hupper, encode_ascii h, String.toList_ofList, List.map_map, List.map_map]
  exact List.map_congr_left fun c hc => asciiByte_toUpper (h c hc)

end Utf8
