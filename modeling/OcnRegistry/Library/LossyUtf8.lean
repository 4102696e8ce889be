/-
  File:      OcnRegistry/Library/LossyUtf8.lean
  Subject:   DECODING BYTES THAT MAY BE NO TEXT. No program fact.

  Bytes are read from the left in pieces. A piece is a character, or a longest part that begins
  like a character and goes on like none; one byte, where nothing begins. `lossy` shows such a part
  as one replacement character, and `repaired` writes that character's three bytes for it.

  * `firstChar_eq_some` -- at most one character's bytes stand at the beginning;
  * `pieces_part` -- the pieces are the bytes, and there are no more than bytes;
  * `encode_lossy` -- what is shown is the repaired bytes' text, and a text is shown as it is;
  * `lossy_unpad` -- zero bytes at the end are NUL characters at the end, and only they.
-/
import OcnRegistry.Library.Utf8
import Mathlib.Data.List.DropRight

namespace Utf8

open Packed

/-! ## 1. The first character -/

/-- The character whose bytes stand at the beginning. -/
def firstChar (bytes : List Byte) : Option Char :=
  ByteArray.utf8DecodeChar? ⟨(bytes.map UInt8.ofBitVec).toArray⟩ 0

variable {bytes rest : List Byte} {b : Byte} {c : Char}

theorem toByteArray_eq (octets : List UInt8) : octets.toByteArray = ⟨octets.toArray⟩ :=
  ByteArray.ext (Array.toList_inj.mp (List.toList_data_toByteArray))

/-- The bytes of a character in front. -/
theorem map_encodeChar_append (c : Char) (rest : List Byte) :
    (⟨((encodeChar c ++ rest).map UInt8.ofBitVec).toArray⟩ : ByteArray) =
      (String.utf8EncodeChar c).toByteArray ++ (rest.map UInt8.ofBitVec).toByteArray := by
  rw [List.map_append, encodeChar, map_ofBitVec_toBitVec, ← toByteArray_eq,
    List.toByteArray_append]

/-- **At most one character's bytes stand at the beginning.** -/
theorem firstChar_eq_some : firstChar bytes = some c ↔ encodeChar c <+: bytes := by
  refine ⟨fun h => ?_, fun h => ?_⟩
  · obtain ⟨tail, htail⟩ := ByteArray.exists_of_utf8DecodeChar?_eq_some h
    refine ⟨tail.data.toList.map fun b => b.toBitVec, ?_⟩
    have hoctets : bytes.map UInt8.ofBitVec = String.utf8EncodeChar c ++ tail.data.toList := by
      have hlist := congrArg (fun octets : ByteArray => octets.data.toList) htail
      simpa using hlist
    have hmap := congrArg (List.map fun b : UInt8 => b.toBitVec) hoctets
    rw [map_toBitVec_ofBitVec, List.map_append] at hmap
    exact hmap.symm
  · obtain ⟨tail, rfl⟩ := h
    unfold firstChar
    rw [map_encodeChar_append]
    exact ByteArray.utf8DecodeChar?_utf8EncodeChar_append

theorem encodeChar_ne_nil (c : Char) : encodeChar c ≠ [] := by
  intro h
  have hlen := length_encodeChar (c := c)
  have hpos := c.utf8Size_pos
  rw [h, List.length_nil] at hlen
  omega

/-- Bytes below 128 stand for themselves only. -/
theorem encodeChar_of_mem (hb : b ∈ encodeChar c) (hlow : b.toNat < 128) : encodeChar c = [b] := by
  unfold encodeChar String.utf8EncodeChar at hb ⊢
  dsimp only at hb ⊢
  split_ifs at hb ⊢
  · rw [List.map_singleton, List.mem_singleton] at hb
    rw [List.map_singleton, hb]
  -- all bytes of a longer code are at least 128
  all_goals
    exfalso
    simp only [List.map_cons, List.map_nil, List.mem_cons, List.not_mem_nil, or_false] at hb
    rcases hb with rfl | rfl | rfl | rfl <;> simp at hlow <;> omega

/-! ## 2. Pieces -/

/-- The bounds of the bytes that may follow a first byte, place by place. -/
def following (b : Byte) : List (Byte × Byte) :=
  if 0xC2 ≤ b ∧ b ≤ 0xDF then [(0x80, 0xBF)]
  else if b = 0xE0 then [(0xA0, 0xBF), (0x80, 0xBF)]
  else if b = 0xED then [(0x80, 0x9F), (0x80, 0xBF)]
  else if 0xE1 ≤ b ∧ b ≤ 0xEF then [(0x80, 0xBF), (0x80, 0xBF)]
  else if b = 0xF0 then [(0x90, 0xBF), (0x80, 0xBF), (0x80, 0xBF)]
  else if 0xF1 ≤ b ∧ b ≤ 0xF3 then [(0x80, 0xBF), (0x80, 0xBF), (0x80, 0xBF)]
  else if b = 0xF4 then [(0x80, 0x8F), (0x80, 0xBF), (0x80, 0xBF)]
  else []

/-- How many bytes are within their bounds. -/
def continued : List (Byte × Byte) → List Byte → Nat
  | (low, high) :: places, b :: rest =>
      if low ≤ b ∧ b ≤ high then continued places rest + 1 else 0
  | _, _ => 0

inductive Piece
  | char (c : Char)
  | illFormed (part : List Byte)

/-- **The pieces of the bytes**, from the left. -/
def pieces : List Byte → List Piece
  | [] => []
  | b :: rest =>
      match firstChar (b :: rest) with
      | some c => .char c :: pieces (rest.drop (c.utf8Size - 1))
      | none =>
          .illFormed (b :: rest.take (continued (following b) rest)) ::
            pieces (rest.drop (continued (following b) rest))
  termination_by bytes => bytes.length
  decreasing_by
    all_goals
      rw [List.length_drop, List.length_cons]
      omega

/-- The bytes a piece is made of. -/
def Piece.part : Piece → List Byte
  | .char c => encodeChar c
  | .illFormed part => part

theorem pieces_nil : pieces [] = [] := by rw [pieces]

/-- A character in front. -/
theorem pieces_char (c : Char) (rest : List Byte) :
    pieces (encodeChar c ++ rest) = .char c :: pieces rest := by
  cases hcode : encodeChar c with
  | nil => exact absurd hcode (encodeChar_ne_nil c)
  | cons b code =>
      have hfirst : firstChar (b :: (code ++ rest)) = some c :=
        firstChar_eq_some.mpr ⟨rest, by rw [hcode]; rfl⟩
      have hlen : c.utf8Size - 1 = code.length := by
        rw [← length_encodeChar, hcode, List.length_cons, Nat.add_sub_cancel]
      rw [List.cons_append, pieces, hfirst]
      dsimp only
      rw [hlen, List.drop_left]

/-- No character in front. -/
theorem pieces_illFormed (h : firstChar (b :: rest) = none) :
    pieces (b :: rest) = .illFormed (b :: rest.take (continued (following b) rest)) ::
      pieces (rest.drop (continued (following b) rest)) := by
  rw [pieces, h]

/-- **Bytes are read piece by piece.** -/
theorem pieces_induction {P : List Byte → Prop} (nil : P [])
    (char : ∀ c rest, P rest → P (encodeChar c ++ rest))
    (illFormed : ∀ b rest, firstChar (b :: rest) = none →
      P (rest.drop (continued (following b) rest)) → P (b :: rest)) (bytes : List Byte) :
    P bytes := by
  induction bytes using pieces.induct with
  | case1 => exact nil
  | case2 b rest c hfirst ih =>
      obtain ⟨tail, htail⟩ := firstChar_eq_some.mp hfirst
      cases hcode : encodeChar c with
      | nil => exact absurd hcode (encodeChar_ne_nil c)
      | cons d code =>
          rw [hcode] at htail
          obtain ⟨rfl, rfl⟩ := List.cons.inj htail
          have hlen : c.utf8Size - 1 = code.length := by
            rw [← length_encodeChar, hcode, List.length_cons, Nat.add_sub_cancel]
          have hP := char c tail (by rwa [hlen, List.append_eq, List.drop_left] at ih)
          rwa [hcode] at hP
  | case3 b rest hfirst ih => exact illFormed b rest hfirst ih

/-- **The pieces are the bytes.** -/
theorem pieces_part (bytes : List Byte) : (pieces bytes).flatMap Piece.part = bytes := by
  induction bytes using pieces_induction with
  | nil => rw [pieces_nil, List.flatMap_nil]
  | char c rest ih =>
      rw [pieces_char, List.flatMap_cons, ih]
      rfl
  | illFormed b rest hfirst ih =>
      rw [pieces_illFormed hfirst, List.flatMap_cons, ih]
      exact congrArg (b :: ·) (List.take_append_drop _ rest)

/-- There are no more pieces than bytes. -/
theorem length_pieces_le (bytes : List Byte) : (pieces bytes).length ≤ bytes.length := by
  induction bytes using pieces_induction with
  | nil => exact le_of_eq (congrArg List.length pieces_nil)
  | char c rest ih =>
      have hpos := List.length_pos_of_ne_nil (encodeChar_ne_nil c)
      rw [pieces_char, List.length_cons, List.length_append]
      omega
  | illFormed b rest hfirst ih =>
      rw [List.length_drop] at ih
      rw [pieces_illFormed hfirst, List.length_cons, List.length_cons]
      omega

/-! ## 3. Replacement -/

/-- U+FFFD. -/
def replacement : Char := Char.ofNat 0xFFFD

/-- The character a piece is shown as. -/
def Piece.shown : Piece → Char
  | .char c => c
  | .illFormed _ => replacement

/-- The bytes of that character. -/
def Piece.repaired : Piece → List Byte
  | .char c => encodeChar c
  | .illFormed _ => [0xEF, 0xBF, 0xBD]

/-- **Decoding that never fails.** -/
def lossy (bytes : List Byte) : String := String.ofList ((pieces bytes).map Piece.shown)

/-- The bytes with `EF BF BD` for what is no text. -/
def repaired (bytes : List Byte) : List Byte := (pieces bytes).flatMap Piece.repaired

theorem encodeChar_replacement : encodeChar replacement = [0xEF, 0xBF, 0xBD] := by decide

/-- What is shown is the text of the repaired bytes. -/
theorem encode_lossy (bytes : List Byte) : encode (lossy bytes) = repaired bytes := by
  unfold lossy repaired
  rw [encode_eq_flatMap, String.toList_ofList, List.flatMap_map]
  refine List.flatMap_congr fun piece _ => ?_
  cases piece with
  | char c => rfl
  | illFormed part => exact encodeChar_replacement

/-- The pieces of a text's bytes are its characters. -/
theorem pieces_encode (text : String) : pieces (encode text) = text.toList.map Piece.char := by
  rw [encode_eq_flatMap]
  induction text.toList with
  | nil => rw [List.flatMap_nil, pieces_nil, List.map_nil]
  | cons c cs ih => rw [List.flatMap_cons, pieces_char, ih, List.map_cons]

/-- **A text is shown as it is.** -/
theorem lossy_encode (text : String) : lossy (encode text) = text := by
  unfold lossy
  rw [pieces_encode, List.map_map]
  show String.ofList (text.toList.map id) = text
  rw [List.map_id, String.ofList_toList]

/-- The beginning of a longer code is one part. -/
example : repaired [0xE2, 0x82, 0x41] = [0xEF, 0xBF, 0xBD, 0x41] := by decide +kernel

/-- What is no text shows a replacement character. -/
theorem replacement_mem_lossy (h : decode bytes = none) : replacement ∈ (lossy bytes).toList := by
  by_contra hnone
  have hchars : ∀ piece ∈ pieces bytes, piece.part = encodeChar piece.shown := by
    intro piece hpiece
    cases piece with
    | char c => rfl
    | illFormed part =>
        refine absurd ?_ hnone
        unfold lossy
        rw [String.toList_ofList]
        exact List.mem_map.mpr ⟨_, hpiece, rfl⟩
  have hencode : encode (lossy bytes) = bytes := by
    unfold lossy
    rw [encode_eq_flatMap, String.toList_ofList, List.flatMap_map, ← List.flatMap_congr hchars,
      pieces_part]
  rw [decode_eq_some.mpr hencode] at h
  cases h

/-! ## 4. Padding -/

/-- The character of the byte zero. -/
def nul : Char := Char.ofNat 0

/-- The bytes without the zeros at their end. -/
def unpad (bytes : List Byte) : List Byte := bytes.rdropWhile fun b => b = 0

/-- A word is read back from its bytes without the zeros, if its width is known. -/
theorem eq_of_unpad {bytes bytes' : List Byte} (h : unpad bytes = unpad bytes')
    (hlen : bytes.length = bytes'.length) : bytes = bytes' := by
  have hpadding : ∀ word : List Byte,
      word = unpad word ++ List.replicate (word.length - (unpad word).length) 0 := by
    intro word
    have hsplit : unpad word ++ word.rtakeWhile (fun b => b = 0) = word :=
      List.rdropWhile_append_rtakeWhile
    have hzero := List.eq_replicate_of_mem fun b hb =>
      of_decide_eq_true (List.mem_rtakeWhile_imp (p := fun b => decide (b = 0)) (l := word) hb)
    have hlength := congrArg List.length hsplit
    rw [List.length_append] at hlength
    rw [show word.length - (unpad word).length = (word.rtakeWhile fun b => b = 0).length by omega,
      ← hzero, hsplit]
  rw [hpadding bytes, hpadding bytes', h, hlen]

theorem encodeChar_nul : encodeChar nul = [0] := by decide

theorem eq_nul_of_zero_mem (h : 0 ∈ encodeChar c) : c = nul := by
  have hcode := encodeChar_of_mem h (by decide)
  have hfirst : firstChar [0] = some c := firstChar_eq_some.mpr ⟨[], by rw [hcode]; rfl⟩
  have hnul : firstChar [0] = some nul := firstChar_eq_some.mpr ⟨[], rfl⟩
  exact Option.some.inj (hfirst.symm.trans hnul)

/-- No zero byte follows a first byte. -/
theorem low_pos_of_mem_following : ∀ place ∈ following b, ¬ place.1 ≤ 0 := by
  have hall : ((following b).all fun place => ¬ place.1 ≤ 0) = true := by
    unfold following
    split_ifs <;> decide
  exact fun place hplace => of_decide_eq_true (List.all_eq_true.mp hall place hplace)

theorem continued_zero {places : List (Byte × Byte)} (hlow : ∀ place ∈ places, ¬ place.1 ≤ 0)
    (rest : List Byte) : continued places (rest ++ [0]) = continued places rest := by
  induction places generalizing rest with
  | nil => cases rest <;> rfl
  | cons place places ih =>
      cases rest with
      | nil => exact if_neg fun h => hlow place List.mem_cons_self h.1
      | cons d rest =>
          show (if _ then continued places (rest ++ [0]) + 1 else 0) = _
          rw [ih (fun place hplace => hlow place (List.mem_cons_of_mem _ hplace))]
          rfl

theorem continued_le (places : List (Byte × Byte)) (rest : List Byte) :
    continued places rest ≤ rest.length := by
  induction places generalizing rest with
  | nil => exact Nat.zero_le _
  | cons place places ih =>
      cases rest with
      | nil => exact Nat.zero_le _
      | cons d rest =>
          unfold continued
          split_ifs with hd
          · exact Nat.succ_le_succ (ih rest)
          · exact Nat.zero_le _

/-- **A zero byte at the end is one more character.** -/
theorem pieces_zero (bytes : List Byte) : pieces (bytes ++ [0]) = pieces bytes ++ [.char nul] := by
  have hlast : pieces [0] = [.char nul] := by
    rw [← encodeChar_nul, ← List.append_nil (encodeChar nul), pieces_char, pieces_nil]
  induction bytes using pieces_induction with
  | nil => rw [List.nil_append, hlast, pieces_nil, List.nil_append]
  | char c rest ih => rw [List.append_assoc, pieces_char, pieces_char, ih, List.cons_append]
  | illFormed b rest hfirst ih =>
      have hnone : firstChar (b :: (rest ++ [0])) = none := by
        by_contra hsome
        obtain ⟨c, hc⟩ := Option.ne_none_iff_exists'.mp hsome
        have hprefix : encodeChar c <+: (b :: rest) ++ [0] := firstChar_eq_some.mp hc
        rcases List.prefix_concat_iff.mp hprefix with hwhole | hpart
        · -- the code would end with the zero, so it would be the zero alone
          have hzero : 0 ∈ encodeChar c := by
            rw [hwhole]
            exact List.mem_append_right _ (List.mem_singleton_self _)
          have hcode := encodeChar_of_mem hzero (by decide)
          rw [hcode] at hwhole
          have hlen := congrArg List.length hwhole
          rw [List.length_append, List.length_cons] at hlen
          simp at hlen
        · rw [firstChar_eq_some.mpr hpart] at hfirst
          cases hfirst
      have hle := continued_le (following b) rest
      rw [List.cons_append, pieces_illFormed hnone, pieces_illFormed hfirst,
        continued_zero low_pos_of_mem_following,
        List.take_append_of_le_length hle, List.drop_append_of_le_length hle, ih, List.cons_append]

/-- Only a zero byte at the end shows a NUL character there. -/
theorem getLast_lossy_ne (hb : b ≠ 0) (h : (lossy (bytes ++ [b])).toList ≠ []) :
    (lossy (bytes ++ [b])).toList.getLast h ≠ nul := by
  intro hnul
  have hchars : (lossy (bytes ++ [b])).toList = (pieces (bytes ++ [b])).map Piece.shown :=
    String.toList_ofList
  rcases List.eq_nil_or_concat (pieces (bytes ++ [b])) with hnil | ⟨before, piece, hpieces⟩
  · rw [hchars, hnil] at h
    exact h rfl
  · have hpart := pieces_part (bytes ++ [b])
    rw [hpieces, List.concat_eq_append, List.flatMap_append, List.flatMap_singleton] at hpart
    have hshown : piece.shown = nul := by
      rw [← hnul]
      simp only [hchars, hpieces, List.map_concat]
      simp
    cases piece with
    | char c =>
        have hcode : encodeChar c = [0] := by rw [show c = nul from hshown, encodeChar_nul]
        rw [show Piece.part (.char c) = [0] from hcode] at hpart
        exact hb (List.cons.inj (List.append_inj_right' hpart rfl)).1.symm
    | illFormed part => exact absurd hshown (show replacement ≠ nul by decide)

/-- **NUL characters at the end are zero bytes at the end.** -/
theorem lossy_unpad (bytes : List Byte) :
    (lossy bytes).toList.rdropWhile (fun c => c = nul) = (lossy (unpad bytes)).toList := by
  induction bytes using List.reverseRecOn with
  | nil =>
      unfold unpad lossy
      rw [List.rdropWhile_nil, pieces_nil, List.map_nil, String.toList_ofList, List.rdropWhile_nil]
  | append_singleton bytes b ih =>
      by_cases hb : b = 0
      · have hconcat : (lossy (bytes ++ [b])).toList = (lossy bytes).toList ++ [nul] := by
          unfold lossy
          rw [hb, pieces_zero, List.map_append, String.toList_ofList, String.toList_ofList]
          rfl
        have htrim : unpad (bytes ++ [b]) = unpad bytes :=
          List.rdropWhile_concat_pos _ _ _ (decide_eq_true hb)
        rw [hconcat, htrim, ← ih]
        exact List.rdropWhile_concat_pos _ _ _ (decide_eq_true rfl)
      · have hself : unpad (bytes ++ [b]) = bytes ++ [b] :=
          List.rdropWhile_concat_neg _ _ _ (by rw [decide_eq_true_eq]; exact hb)
        rw [hself, List.rdropWhile_eq_self_iff]
        intro hne hlast
        exact getLast_lossy_ne hb hne (of_decide_eq_true hlast)

/-- A text without the NUL characters at its end has the bytes without the zeros at theirs. -/
theorem encode_trim (text : String) :
    encode (String.ofList (text.toList.rdropWhile fun c => c = nul)) = unpad (encode text) := by
  rw [encode_eq_flatMap, encode_eq_flatMap, String.toList_ofList]
  induction text.toList using List.reverseRecOn with
  | nil => rfl
  | append_singleton cs c ih =>
      rw [List.flatMap_append, List.flatMap_singleton]
      by_cases hc : c = nul
      · have htrim : unpad (cs.flatMap encodeChar ++ encodeChar c) =
            unpad (cs.flatMap encodeChar) := by
          rw [hc, encodeChar_nul]
          exact List.rdropWhile_concat_pos _ _ _ (decide_eq_true rfl)
        rw [htrim, ← ih]
        exact congrArg (List.flatMap encodeChar)
          (List.rdropWhile_concat_pos _ _ _ (decide_eq_true hc))
      · have hself : unpad (cs.flatMap encodeChar ++ encodeChar c) =
            cs.flatMap encodeChar ++ encodeChar c := by
          refine List.rdropWhile_eq_self_iff.mpr fun hne hlast => hc (eq_nul_of_zero_mem ?_)
          have hzero := of_decide_eq_true hlast
          rw [List.getLast_append_of_ne_nil _ (encodeChar_ne_nil c)] at hzero
          rw [← hzero]
          exact List.getLast_mem _
        rw [hself, List.rdropWhile_concat_neg _ _ _ (by rw [decide_eq_true_eq]; exact hc),
          List.flatMap_append, List.flatMap_singleton]

end Utf8
