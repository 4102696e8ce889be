/-
  File:      OcnRegistry/Indexer/Collisions.lean
  Subject:   WHEN TWO KEYS SHARE AN ENTITY.

  An id is a country code's text, a separator and a party id's text. The separator may be a
  character of either text, and the texts are without the keys' zero bytes, so "A" and "/B" are put
  together as "A/" and "B" are. The texts of a key that is no UTF-8 show replacement characters, and
  different bytes show the same.

  * `joined_eq_iff` -- two ids are the same if the texts are, or if a separator moved;
  * `updatesApart_iff_ne` -- updates keep out of each other's entity exactly if the ids differ;
  * `shared_entity` -- two keys of texts that share an entity;
  * `updates_apart_iff` -- when updates under two keys write different entities.
-/
import OcnRegistry.Indexer.Run
import OcnRegistry.Library.LossyUtf8

namespace Ocn

open Packed

namespace Indexer

/-! ## 1. Texts around a separator -/

/-- **Two joins are the same** if the texts are, or if the separator ends the one's first text and
    begins the other's second. First texts are one or two characters long. -/
theorem joined_eq_iff {c p c' p' : String} (hc : 0 < c.toList.length) (hcLe : c.toList.length ≤ 2)
    (hc' : 0 < c'.toList.length) (hcLe' : c'.toList.length ≤ 2) :
    c ++ "/" ++ p = c' ++ "/" ++ p' ↔
      (c = c' ∧ p = p') ∨ (c' = c ++ "/" ∧ p = "/" ++ p') ∨ (c = c' ++ "/" ∧ p' = "/" ++ p) := by
  have hmoved : ∀ {x y x' y' : List Char}, 0 < x.length → x'.length ≤ 2 →
      (∃ z, x' = x ++ z ∧ '/' :: y = z ++ '/' :: y') →
        (x = x' ∧ y = y') ∨ (x' = x ++ ['/'] ∧ y = '/' :: y') := by
    rintro x y x' y' hx hx' ⟨z, rfl, hz⟩
    cases z with
    | nil => exact Or.inl ⟨(List.append_nil x).symm, (List.cons.inj hz).2⟩
    | cons d z =>
        obtain ⟨rfl, rfl⟩ := List.cons.inj hz
        rw [List.length_append, List.length_cons] at hx'
        have hz : z = [] := List.length_eq_zero_iff.mp (by omega)
        rw [hz]
        exact Or.inr ⟨rfl, rfl⟩
  simp only [← String.toList_inj, String.toList_append, List.append_assoc]
  show c.toList ++ '/' :: p.toList = c'.toList ++ '/' :: p'.toList ↔ _ ∨
    (c'.toList = c.toList ++ ['/'] ∧ p.toList = '/' :: p'.toList) ∨
    (c.toList = c'.toList ++ ['/'] ∧ p'.toList = '/' :: p.toList)
  refine ⟨fun h => ?_, ?_⟩
  · rcases List.append_eq_append_iff.mp h with hleft | hright
    · exact (hmoved hc hcLe' hleft).imp_right Or.inl
    · rcases hmoved hc' hcLe hright with ⟨h1, h2⟩ | hmove
      · exact Or.inl ⟨h1.symm, h2.symm⟩
      · exact Or.inr (Or.inr hmove)
  · rintro (⟨h1, h2⟩ | ⟨h1, h2⟩ | ⟨h1, h2⟩)
    · rw [h1, h2]
    · rw [h1, h2, List.append_assoc]
      rfl
    · rw [h1, h2, List.append_assoc]
      rfl

/-! ## 2. What words are read as -/

/-- **Decoding that shows one replacement character** for each longest part that is no text. -/
def replacing : LossyUtf8 where
  lossy := Utf8.lossy
  valid := Utf8.lossy_encode
  invalid := fun _ h => Utf8.replacement_mem_lossy h
  text := Utf8.lossy
  text_eq := fun _ _ => rfl

section Words

variable {B : LossyUtf8} {n : Nat} {x : BitVec (8 * n)}

/-- The bytes of a word's text, and that it has some characters, but no more than the word bytes. -/
structure ReadAs (B : LossyUtf8) (read : Bytes → Bytes) (word : Bytes) : Prop where
  bytes : Utf8.encode (B.toString word) = read word
  pos : 0 < (B.toString word).toList.length
  le : (B.toString word).toList.length ≤ word.length

theorem unpad_ne_nil (h : x ≠ 0) : Utf8.unpad (wordBytes n x) ≠ [] := by
  intro hnil
  refine h (wordBytes_injective n ?_)
  have hzero : ∀ b ∈ wordBytes n x, b = 0 := by
    intro b hb
    exact of_decide_eq_true (List.rdropWhile_eq_nil_iff.mp hnil b hb)
  have hzero' : ∀ b ∈ wordBytes n (0 : BitVec (8 * n)), b = 0 := by
    intro b hb
    obtain ⟨i, _, rfl⟩ := List.mem_map.mp hb
    exact BitVec.extractLsb'_zero
  rw [List.eq_replicate_of_mem hzero, List.eq_replicate_of_mem hzero', length_wordBytes,
    length_wordBytes]

theorem length_unpad_le (bytes : Bytes) : (Utf8.unpad bytes).length ≤ bytes.length :=
  (List.rdropWhile_prefix _ bytes).length_le

/-- **Any word**, shown with replacement characters. -/
theorem readAs_repaired (h : x ≠ 0) :
    ReadAs replacing (fun word => Utf8.repaired (Utf8.unpad word)) (wordBytes n x) := by
  have htext : replacing.toString (wordBytes n x) = Utf8.lossy (Utf8.unpad (wordBytes n x)) :=
    String.toList_inj.mp (String.toList_ofList.trans (Utf8.lossy_unpad _))
  have hlen : (Utf8.lossy (Utf8.unpad (wordBytes n x))).toList.length =
      (Utf8.pieces (Utf8.unpad (wordBytes n x))).length := by
    unfold Utf8.lossy
    rw [String.toList_ofList, List.length_map]
  refine ⟨?_, ?_, ?_⟩
  · rw [htext, Utf8.encode_lossy]
  · rw [htext, hlen]
    refine List.length_pos_of_ne_nil fun hnil => unpad_ne_nil h ?_
    rw [← Utf8.pieces_part (Utf8.unpad (wordBytes n x)), hnil, List.flatMap_nil]
  · rw [htext, hlen]
    exact Nat.le_trans (Utf8.length_pieces_le _) (length_unpad_le _)

/-- **A word that is a text**, by any decoder. -/
theorem readAs_unpad (B : LossyUtf8) (h : x ≠ 0) {text : String}
    (htext : Utf8.decode (wordBytes n x) = some text) :
    ReadAs B Utf8.unpad (wordBytes n x) := by
  have hencode := Utf8.decode_eq_some.mp htext
  have hbytes : Utf8.encode (B.toString (wordBytes n x)) = Utf8.unpad (wordBytes n x) := by
    unfold LossyUtf8.toString
    rw [← hencode, B.valid]
    exact Utf8.encode_trim text
  refine ⟨hbytes, ?_, ?_⟩
  · refine List.length_pos_of_ne_nil fun hnil => unpad_ne_nil h ?_
    rw [← hbytes, Utf8.encode_eq_flatMap, hnil, List.flatMap_nil]
  · refine Nat.le_trans Utf8.length_toList_le ?_
    rw [hbytes]
    exact length_unpad_le _

end Words

/-! ## 3. Keys -/

section Keys

variable {B : LossyUtf8} {read : Bytes → Bytes} {key key' : Bytes2 × Bytes3}

/-- What `setParty` takes. -/
def Accepted (key : Bytes2 × Bytes3) : Prop := key.1 ≠ 0 ∧ key.2 ≠ 0

/-- Both words of the key are texts. -/
def IsText (key : Bytes2 × Bytes3) : Prop :=
  (Utf8.decode (wordBytes 2 key.1)).isSome ∧ (Utf8.decode (wordBytes 3 key.2)).isSome

instance (key : Bytes2 × Bytes3) : Decidable (Accepted key) :=
  inferInstanceAs (Decidable (key.1 ≠ 0 ∧ key.2 ≠ 0))

/-- The two words are read as the same bytes. -/
def ReadAlike (read : Bytes → Bytes) (key key' : Bytes2 × Bytes3) : Prop :=
  read (wordBytes 2 key.1) = read (wordBytes 2 key'.1) ∧
    read (wordBytes 3 key.2) = read (wordBytes 3 key'.2)

/-- **The separator moved**: the second country code is read as the first one followed by `/`, and
    the first party id as `/` followed by the second one. -/
def SlashMoved (read : Bytes → Bytes) (key key' : Bytes2 × Bytes3) : Prop :=
  read (wordBytes 2 key'.1) = read (wordBytes 2 key.1) ++ [0x2F] ∧
    read (wordBytes 3 key.2) = 0x2F :: read (wordBytes 3 key'.2)

/-- **When ids are the same.** -/
theorem partyEntityId_eq_iff_of_readAs (hc : ReadAs B read (wordBytes 2 key.1))
    (hp : ReadAs B read (wordBytes 3 key.2)) (hc' : ReadAs B read (wordBytes 2 key'.1))
    (hp' : ReadAs B read (wordBytes 3 key'.2)) :
    partyEntityId B key.1 key.2 = partyEntityId B key'.1 key'.2 ↔
      ReadAlike read key key' ∨ SlashMoved read key key' ∨ SlashMoved read key' key := by
  have hslash : Utf8.encode "/" = [0x2F] := by decide
  have hcLe := hc.le
  have hcLe' := hc'.le
  rw [length_wordBytes] at hcLe hcLe'
  unfold partyEntityId ReadAlike SlashMoved
  rw [joined_eq_iff hc.pos hcLe hc'.pos hcLe']
  simp only [← Utf8.encode_injective.eq_iff, Utf8.encode_append, hc.bytes, hp.bytes, hc'.bytes,
    hp'.bytes, hslash, List.singleton_append]

/-- Words of one width without their padding are the same only if they are the same. -/
theorem unpad_injective {n : Nat} {x y : BitVec (8 * n)}
    (h : Utf8.unpad (wordBytes n x) = Utf8.unpad (wordBytes n y)) : x = y :=
  wordBytes_injective n (Utf8.eq_of_unpad h (by rw [length_wordBytes, length_wordBytes]))

/-- An update of the party under the key. -/
def IsUpdateOf (key : Bytes2 × Bytes3) (log : Log) : Prop :=
  ∃ partyAddress roles name url paymentStatus cvStatus active operatorAddress,
    log.event = .partyUpdate key.1 key.2 partyAddress roles name url paymentStatus cvStatus active
      operatorAddress

/-- **Updates under the two keys write different entities**: what an update under the first key
    has saved is still there after an update under the second. -/
def UpdatesApart (B : LossyUtf8) (key key' : Bytes2 × Bytes3) : Prop :=
  ∀ g log log', IdsKept g → IsUpdateOf key log → IsUpdateOf key' log' →
    (handle B (handle B g log) log').parties (partyEntityId B key.1 key.2) =
      (handle B g log).parties (partyEntityId B key.1 key.2)

/-- An update of a party that is active or not, and else of no content. -/
def bareUpdate (key : Bytes2 × Bytes3) (active : Bool) : Log :=
  ⟨⟨0, 0, 0, 0⟩, .partyUpdate key.1 key.2 0 [] [] [] .pending .notVerified active 0⟩

theorem bareUpdate_saved {g : Subgraph} (hg : IdsKept g) (key : Bytes2 × Bytes3) (active : Bool) :
    (handle B g (bareUpdate key active)).parties (partyEntityId B key.1 key.2) =
      some (updatedParty B g key.1 key.2 0 [] [] [] .pending .notVerified active 0) :=
  (congrFun (handlePartyUpdate_parties hg) _).trans (Function.update_self ..)

/-- **Updates keep out of each other's entity** exactly if the ids differ. -/
theorem updatesApart_iff_ne :
    UpdatesApart B key key' ↔ partyEntityId B key.1 key.2 ≠ partyEntityId B key'.1 key'.2 := by
  refine ⟨fun h hid => ?_, fun hne g log log' hg hlog hlog' => ?_⟩
  · have hsame := h Subgraph.empty (bareUpdate key true) (bareUpdate key' false) idsKept_empty
      ⟨0, [], [], [], .pending, .notVerified, true, 0, rfl⟩
      ⟨0, [], [], [], .pending, .notVerified, false, 0, rfl⟩
    have hkept := idsKept_handle (B := B) idsKept_empty (bareUpdate key true)
    rw [bareUpdate_saved idsKept_empty, hid, bareUpdate_saved hkept] at hsame
    -- the second update would have left the party active
    have hactive := congrArg Party.active (Option.some.inj hsame)
    exact absurd hactive (show false ≠ true by decide)
  · obtain ⟨_, _, _, _, _, _, _, _, hevent⟩ := hlog'
    have hkept := idsKept_handle (B := B) hg log
    generalize handle B g log = g at hkept
    unfold handle
    rw [hevent]
    dsimp only
    rw [handlePartyUpdate_parties hkept, Function.update_of_ne hne]

/-! ## 4. When entities are shared -/

/-- The ids of two texts, by any decoder. -/
theorem updatesApart_iff_of_isText (B : LossyUtf8) (haccepted : Accepted key)
    (haccepted' : Accepted key') (htext : IsText key) (htext' : IsText key') :
    UpdatesApart B key key' ↔ ¬ (ReadAlike Utf8.unpad key key' ∨ SlashMoved Utf8.unpad key key' ∨
      SlashMoved Utf8.unpad key' key) := by
  obtain ⟨⟨_, hc⟩, ⟨_, hp⟩⟩ :=
    And.intro (Option.isSome_iff_exists.mp htext.1) (Option.isSome_iff_exists.mp htext.2)
  obtain ⟨⟨_, hc'⟩, ⟨_, hp'⟩⟩ :=
    And.intro (Option.isSome_iff_exists.mp htext'.1) (Option.isSome_iff_exists.mp htext'.2)
  rw [updatesApart_iff_ne, Ne, partyEntityId_eq_iff_of_readAs (readAs_unpad B haccepted.1 hc)
    (readAs_unpad B haccepted.2 hp) (readAs_unpad B haccepted'.1 hc')
    (readAs_unpad B haccepted'.2 hp')]

/-- **Two keys that share an entity**, by any decoder: `A` with `/B`, and `A/` with `B`. -/
theorem shared_entity :
    Accepted (0x4100, 0x2F4200) ∧ Accepted (0x412F, 0x420000) ∧
      ((0x4100, 0x2F4200) : Bytes2 × Bytes3) ≠ (0x412F, 0x420000) ∧
      ∀ B, ¬ UpdatesApart B (0x4100, 0x2F4200) (0x412F, 0x420000) := by
  have htext : ∀ bytes : Bytes, (∀ b ∈ bytes, b.toNat < 128) → (Utf8.decode bytes).isSome := by
    intro bytes h
    obtain ⟨text, hdecode, _⟩ := Utf8.decode_of_bytes_lt h
    rw [hdecode]
    rfl
  refine ⟨by decide, by decide, by decide, fun B => ?_⟩
  rw [updatesApart_iff_of_isText B (by decide) (by decide)
    ⟨htext _ (by decide), htext _ (by decide)⟩ ⟨htext _ (by decide), htext _ (by decide)⟩,
    Classical.not_not]
  exact Or.inr (Or.inl ⟨by decide, by decide⟩)

/-- **When updates under two keys write different entities**: unless the keys are read alike or a
    separator moved, where bytes that are no text are all read as the replacement character. Keys
    that are texts share an entity, by any decoder, only where a separator moved. -/
theorem updates_apart_iff (haccepted : Accepted key) (haccepted' : Accepted key')
    (hne : key ≠ key') :
    (UpdatesApart replacing key key' ↔
      ¬ (ReadAlike (fun word => Utf8.repaired (Utf8.unpad word)) key key' ∨
        SlashMoved (fun word => Utf8.repaired (Utf8.unpad word)) key key' ∨
        SlashMoved (fun word => Utf8.repaired (Utf8.unpad word)) key' key)) ∧
    ∀ B, IsText key → IsText key' → (UpdatesApart B key key' ↔
      ¬ (SlashMoved Utf8.unpad key key' ∨ SlashMoved Utf8.unpad key' key)) := by
  refine ⟨?_, fun B htext htext' => ?_⟩
  · rw [updatesApart_iff_ne, Ne, partyEntityId_eq_iff_of_readAs (readAs_repaired haccepted.1)
      (readAs_repaired haccepted.2) (readAs_repaired haccepted'.1) (readAs_repaired haccepted'.2)]
  · have hdifferent : ¬ ReadAlike Utf8.unpad key key' := by
      rintro ⟨hc, hp⟩
      exact hne (Prod.ext (unpad_injective hc) (unpad_injective hp))
    rw [updatesApart_iff_of_isText B haccepted haccepted' htext htext', or_iff_right hdifferent]

/-- `DE/MSP` and `DE/CPO`. -/
theorem updates_apart_of_plain :
    UpdatesApart replacing (0x4445, 0x4D5350) (0x4445, 0x43504F) ↔
      ¬ (ReadAlike (fun word => Utf8.repaired (Utf8.unpad word)) (0x4445, 0x4D5350)
          (0x4445, 0x43504F) ∨
        SlashMoved (fun word => Utf8.repaired (Utf8.unpad word)) (0x4445, 0x4D5350)
          (0x4445, 0x43504F) ∨
        SlashMoved (fun word => Utf8.repaired (Utf8.unpad word)) (0x4445, 0x43504F)
          (0x4445, 0x4D5350)) :=
  (updates_apart_iff (by decide) (by decide) (by decide)).1

/-- Bytes that are no text are read alike. -/
example : Utf8.repaired (Utf8.unpad (wordBytes 2 0xFF41)) =
    Utf8.repaired (Utf8.unpad (wordBytes 2 0xFE41)) := by decide +kernel

end Keys

end Indexer

end Ocn
