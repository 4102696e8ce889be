/-
  File:      OcnRegistry/Indexer/Ids.lean
  Subject:   THE IDS OF OPERATORS AND PARTIES: when two of them are the same.

  An operator's id is its address in hexadecimal. A party's id is made of the two texts its key
  decodes to. Decoding loses trailing NUL characters and what is no text, so for any keys ids may
  coincide; but a text of ASCII characters only, as many as there were bytes, comes from no other
  bytes. So the id of a key of plain characters is that key's alone.

  * `toHexString_injective` -- an operator's id tells its address;
  * `encode_text` -- a `string` that is a text without NUL characters is kept as it is;
  * `partyEntityId_eq_iff` -- the id of a plain key is the id of no other key;
  * `deletedId_ne` -- the id `handlePartyDelete` looks for is the id of no plain key.
-/
import OcnRegistry.Indexer.Handlers
import Mathlib.Data.List.GetD
import Mathlib.Data.List.Nodup

namespace Ocn

open Packed

namespace Indexer

/-! ## 1. Addresses -/

/-- The sixteen digits differ. -/
theorem hexDigit_injective {m n : Nat} (hm : m < 16) (hn : n < 16)
    (h : hexDigit m = hexDigit n) : m = n := by
  have hnodup : "0123456789abcdef".toList.Nodup := by decide
  have hlen : "0123456789abcdef".toList.length = 16 := by decide
  unfold hexDigit at h
  rw [List.getD_eq_getElem _ _ (hlen.symm ▸ hm), List.getD_eq_getElem _ _ (hlen.symm ▸ hn)] at h
  exact (List.Nodup.getElem_inj_iff hnodup).mp h

theorem byteHex_injective : Function.Injective byteHex := by
  intro b c h
  obtain ⟨hhigh, hlow⟩ := List.cons.inj h
  have hb := b.isLt
  have hc := c.isLt
  have hdiv : b.toNat / 16 = c.toNat / 16 :=
    hexDigit_injective (by omega) (by omega) hhigh
  have hmod : b.toNat % 16 = c.toNat % 16 :=
    hexDigit_injective (by omega) (by omega) (List.cons.inj hlow).1
  exact BitVec.eq_of_toNat_eq (by omega)

/-- **An id tells the address.** -/
theorem toHexString_injective : Function.Injective toHexString := by
  intro a b h
  have hlist := congrArg String.toList h
  unfold toHexString at hlist
  simp only [String.toList_append, String.toList_ofList] at hlist
  have hdigits : (wordBytes 20 a).flatMap byteHex = (wordBytes 20 b).flatMap byteHex :=
    List.append_cancel_left hlist
  have hblocks : ∀ c, (byteHex c).length = 2 := fun _ => rfl
  exact wordBytes_injective 20 (flatMap_injective Nat.two_pos hblocks byteHex_injective hdigits)

/-! ## 2. Decoded words -/

section Words

variable {B : LossyUtf8} {n : Nat} {x : BitVec (8 * n)} {bytes : Bytes}

/-- Every byte of the word is an ASCII character other than NUL. -/
def PlainWord (n : Nat) (x : BitVec (8 * n)) : Prop :=
  ∀ b ∈ wordBytes n x, 0 < b.toNat ∧ b.toNat < 128

instance (n : Nat) (x : BitVec (8 * n)) : Decidable (PlainWord n x) :=
  inferInstanceAs (Decidable (∀ b ∈ wordBytes n x, 0 < b.toNat ∧ b.toNat < 128))

/-- **A plain word is decoded as the text it is the bytes of.** -/
theorem toString_plain (B : LossyUtf8) (h : PlainWord n x) :
    Utf8.encode (B.toString (wordBytes n x)) = wordBytes n x ∧
      Utf8.IsAscii (B.toString (wordBytes n x)) := by
  obtain ⟨text, hdecode, hascii⟩ := Utf8.decode_of_bytes_lt fun b hb => (h b hb).2
  have hencode := Utf8.decode_eq_some.mp hdecode
  have hlast : ∀ c ∈ text.toList, c ≠ Char.ofNat 0 := by
    intro c hc e
    have hmem : Utf8.asciiByte c ∈ wordBytes n x := by
      rw [← hencode, Utf8.encode_ascii hascii]
      exact List.mem_map_of_mem hc
    have hpos := (h _ hmem).1
    rw [e] at hpos
    exact absurd hpos (by decide)
  have htext : B.toString (wordBytes n x) = text := by
    unfold LossyUtf8.toString
    rw [← hencode, B.valid, List.rdropWhile_eq_self_iff.mpr, String.ofList_toList]
    intro hne hnul
    exact hlast _ (List.getLast_mem hne) (of_decide_eq_true hnul)
  rw [htext]
  exact ⟨hencode, hascii⟩

theorem mem_rdropWhile {α : Type} {p : α → Bool} {xs : List α} {a : α} (h : a ∈ xs)
    (ha : p a = false) : a ∈ xs.rdropWhile p := by
  induction xs using List.reverseRecOn with
  | nil => cases h
  | append_singleton xs b ih =>
      rw [List.rdropWhile_concat]
      split
      · rename_i hb
        rcases List.mem_append.mp h with h | h
        · exact ih h
        · rw [← List.mem_singleton.mp h, ha] at hb
          cases hb
      · exact h

/-- **What decodes to ASCII characters** has at least as many bytes, and is their bytes if it has no
    more. -/
theorem length_toString_le (B : LossyUtf8) (bytes : Bytes) (h : Utf8.IsAscii (B.toString bytes)) :
    (B.toString bytes).toList.length ≤ bytes.length ∧
      ((B.toString bytes).toList.length = bytes.length →
        Utf8.encode (B.toString bytes) = bytes) := by
  cases hdecode : Utf8.decode bytes with
  | none =>
      -- the replacement character is not ASCII
      have hmem : Char.ofNat 0xFFFD ∈ (B.toString bytes).toList := by
        unfold LossyUtf8.toString
        rw [String.toList_ofList]
        exact mem_rdropWhile (B.invalid bytes hdecode) (by decide)
      exact absurd (h _ hmem) (by decide)
  | some text =>
      have hencode := Utf8.decode_eq_some.mp hdecode
      have htrim : (B.toString bytes).toList <+: text.toList := by
        unfold LossyUtf8.toString
        rw [String.toList_ofList, ← hencode, B.valid]
        exact List.rdropWhile_prefix _ _
      have hle : text.toList.length ≤ bytes.length := by
        rw [← hencode]
        exact Utf8.length_toList_le
      refine ⟨Nat.le_trans htrim.length_le hle, fun hfull => ?_⟩
      have hsame : (B.toString bytes).toList = text.toList :=
        htrim.eq_of_length_le (le_of_le_of_eq hle hfull.symm)
      rw [String.toList_inj.mp hsame, hencode]

/-- The length of a plain word's text. -/
theorem length_toString_plain (B : LossyUtf8) (h : PlainWord n x) :
    (B.toString (wordBytes n x)).toList.length = n := by
  obtain ⟨hencode, hascii⟩ := toString_plain B h
  rw [← Utf8.length_encode_ascii hascii, hencode, length_wordBytes]

/-- **No other word is decoded as the text of a plain one.** -/
theorem PlainWord.unique {y : BitVec (8 * n)} (h : PlainWord n x)
    (e : B.toString (wordBytes n y) = B.toString (wordBytes n x)) : y = x := by
  obtain ⟨hencode, hascii⟩ := toString_plain B h
  rw [← e] at hencode hascii
  have hlen : (B.toString (wordBytes n y)).toList.length = (wordBytes n y).length := by
    rw [e, length_toString_plain B h, length_wordBytes]
  have hbytes := (length_toString_le B (wordBytes n y) hascii).2 hlen
  exact wordBytes_injective n (hbytes.symm.trans hencode)

end Words

/-! ## 3. Texts -/

/-- The bytes of a text without NUL characters. -/
def IsPlainText (bytes : Bytes) : Prop := Utf8.IsText bytes ∧ (0 : Byte) ∉ bytes

/-- **An entity keeps such a text as it is.** -/
theorem encode_text (B : LossyUtf8) {bytes : Bytes} (h : IsPlainText bytes) :
    Utf8.encode (B.text bytes) = bytes := by
  obtain ⟨⟨text, rfl⟩, hnul⟩ := h
  rw [B.text_eq, B.valid]
  rw [B.valid]
  exact Utf8.nul_not_mem hnul

/-- **No other such text is kept as this one.** -/
theorem IsPlainText.unique {B : LossyUtf8} {bytes bytes' : Bytes} (h : IsPlainText bytes)
    (h' : IsPlainText bytes') (e : B.text bytes' = B.text bytes) : bytes' = bytes := by
  rw [← encode_text B h', e, encode_text B h]

/-! ## 4. Keys -/

section Keys

variable {B : LossyUtf8} {countryCode countryCode' : Bytes2} {partyId partyId' : Bytes3}

/-- A key of ASCII characters other than NUL. -/
def PlainKey (countryCode : Bytes2) (partyId : Bytes3) : Prop :=
  PlainWord 2 countryCode ∧ PlainWord 3 partyId

instance (countryCode : Bytes2) (partyId : Bytes3) : Decidable (PlainKey countryCode partyId) :=
  inferInstanceAs (Decidable (PlainWord 2 countryCode ∧ PlainWord 3 partyId))

/-- The id `handlePartyUpdate` writes under. -/
def partyEntityId (B : LossyUtf8) (countryCode : Bytes2) (partyId : Bytes3) : String :=
  B.toString (wordBytes 2 countryCode) ++ "/" ++ B.toString (wordBytes 3 partyId)

/-- The id `handlePartyDelete` looks for. -/
def deletedId (B : LossyUtf8) (countryCode : Bytes2) (partyId : Bytes3) : String :=
  B.toString (wordBytes 2 countryCode) ++ B.toString (wordBytes 3 partyId)

theorem length_partyEntityId : (partyEntityId B countryCode partyId).toList.length =
    (B.toString (wordBytes 2 countryCode)).toList.length + 1 +
      (B.toString (wordBytes 3 partyId)).toList.length := by
  unfold partyEntityId
  rw [String.toList_append, String.toList_append, List.length_append, List.length_append]
  rfl

/-- A plain key's id: two characters, the separator, three. -/
theorem plain_id (B : LossyUtf8) (h : PlainKey countryCode partyId) :
    (partyEntityId B countryCode partyId).toList.length = 6 ∧
      Utf8.IsAscii (partyEntityId B countryCode partyId) := by
  refine ⟨?_, ?_⟩
  · rw [length_partyEntityId, length_toString_plain B h.1, length_toString_plain B h.2]
  · have hslash : Utf8.IsAscii "/" := by
      intro c hc
      rw [List.mem_singleton.mp hc]
      decide
    exact Utf8.isAscii_append.mpr ⟨Utf8.isAscii_append.mpr ⟨(toString_plain B h.1).2, hslash⟩,
      (toString_plain B h.2).2⟩

/-- Words decoded as ASCII: at most two characters and at most three. -/
theorem length_le_of_isAscii (hc : Utf8.IsAscii (B.toString (wordBytes 2 countryCode)))
    (hp : Utf8.IsAscii (B.toString (wordBytes 3 partyId))) :
    (B.toString (wordBytes 2 countryCode)).toList.length ≤ 2 ∧
      (B.toString (wordBytes 3 partyId)).toList.length ≤ 3 := by
  have hcLe := (length_toString_le B (wordBytes 2 countryCode) hc).1
  have hpLe := (length_toString_le B (wordBytes 3 partyId) hp).1
  rw [length_wordBytes] at hcLe hpLe
  exact ⟨hcLe, hpLe⟩

/-- **The id of a plain key is the id of no other key.** -/
theorem partyEntityId_eq_iff (h : PlainKey countryCode partyId) :
    partyEntityId B countryCode' partyId' = partyEntityId B countryCode partyId ↔
      (countryCode', partyId') = (countryCode, partyId) := by
  refine ⟨fun e => ?_, fun e => by cases e; rfl⟩
  obtain ⟨hlen, hascii⟩ := plain_id B h
  rw [← e] at hlen hascii
  obtain ⟨hleft, hp⟩ := Utf8.isAscii_append.mp hascii
  obtain ⟨hcLe, hpLe⟩ := length_le_of_isAscii (Utf8.isAscii_append.mp hleft).1 hp
  rw [length_partyEntityId] at hlen
  -- six characters, so both texts are as long as they can be
  have hcLen : (B.toString (wordBytes 2 countryCode')).toList.length = 2 := by omega
  have hchars := congrArg String.toList e
  unfold partyEntityId at hchars
  rw [String.toList_append, String.toList_append, String.toList_append, String.toList_append]
    at hchars
  obtain ⟨hfirst, hsecond⟩ := List.append_inj hchars (by
    rw [List.length_append, List.length_append, hcLen, length_toString_plain B h.1])
  rw [h.1.unique (String.toList_inj.mp (List.append_cancel_right hfirst)),
    h.2.unique (String.toList_inj.mp hsecond)]

/-- **The id without a separator is the id of no plain key.** -/
theorem deletedId_ne (h : PlainKey countryCode partyId) :
    deletedId B countryCode' partyId' ≠ partyEntityId B countryCode partyId := by
  intro e
  obtain ⟨hlen, hascii⟩ := plain_id B h
  rw [← e] at hlen hascii
  obtain ⟨hc, hp⟩ := Utf8.isAscii_append.mp hascii
  obtain ⟨hcLe, hpLe⟩ := length_le_of_isAscii hc hp
  unfold deletedId at hlen
  rw [String.toList_append, List.length_append] at hlen
  omega

end Keys

end Indexer

end Ocn
