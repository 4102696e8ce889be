/-
  File:      OcnRegistry/Indexer/Deleted.lean
  Subject:   DELETED PARTIES: does the subgraph's flag say who is registered?

  `handlePartyUpdate` keeps a party under country code, a slash and party id; `handlePartyDelete`
  looks for it under the two without a slash. That is the id of no printable key, so the flag of
  such an entity is never set, and nothing would reset it. A party that moves to another key sends
  no event about the old one. So an entity says that its key was once registered, no more.

  * `shown_iff` -- the entity of a plain key exists, not deleted, exactly if the key was ever
    registered;
  * `deleted_party_stays_shown` -- a deleted party's entity is not flagged;
  * `flags_agree_iff` -- flags agree with the registry as long as no party leaves its key to nobody.
-/
import OcnRegistry.Indexer.Run

namespace Ocn

open Transaction Packed

namespace Indexer

/-! ## 1. What the flag should say -/

/-- Every byte of the word is a printable ASCII character. -/
def PrintableWord (n : Nat) (x : BitVec (8 * n)) : Prop :=
  ∀ b ∈ wordBytes n x, 0x20 ≤ b.toNat ∧ b.toNat ≤ 0x7E

instance (n : Nat) (x : BitVec (8 * n)) : Decidable (PrintableWord n x) :=
  inferInstanceAs (Decidable (∀ b ∈ wordBytes n x, 0x20 ≤ b.toNat ∧ b.toNat ≤ 0x7E))

/-- A key of printable ASCII characters. -/
def PrintableKey (countryCode : Bytes2) (partyId : Bytes3) : Prop :=
  PrintableWord 2 countryCode ∧ PrintableWord 3 partyId

instance (countryCode : Bytes2) (partyId : Bytes3) : Decidable (PrintableKey countryCode partyId) :=
  inferInstanceAs (Decidable (PrintableWord 2 countryCode ∧ PrintableWord 3 partyId))

/-- The entity of the key exists and is not deleted. -/
def Shown (B : LossyUtf8) (g : Subgraph) (countryCode : Bytes2) (partyId : Bytes3) : Prop :=
  ∃ party, g.parties (partyEntityId B countryCode partyId) = some party ∧ party.deleted = false

/-- **The flags agree with the registry**, for every printable key. -/
def FlagsAgree (B : LossyUtf8) (s : Indexed) : Prop :=
  ∀ countryCode partyId, PrintableKey countryCode partyId →
    (Shown B s.subgraph countryCode partyId ↔
      ∃ a, s.registry.Registered a ∧ s.registry.keyOf a = (countryCode, partyId))

/-- The transaction leaves a printable key without a party: it deletes the only party registered
    under it, or moves that party to another key. -/
def FreesKey (st : OcnRegistry) (t : Tx) : Prop :=
  ∃ a, st.Registered a ∧ PrintableKey (st.keyOf a).1 (st.keyOf a).2 ∧
    (∀ b, st.Registered b → st.keyOf b = st.keyOf a → b = a) ∧
    (OcnRegistry.RemovesParty st t a ∨
      ∃ countryCode partyId operator, OcnRegistry.SetsParty st t a countryCode partyId operator ∧
        st.keyOf a ≠ (countryCode, partyId))

section Deleted

variable {B : LossyUtf8} {X : Crypto} {s : Indexed} {t : MinedTx} {countryCode : Bytes2}
  {partyId : Bytes3}

theorem PrintableKey.plain (h : PrintableKey countryCode partyId) :
    PlainKey countryCode partyId := by
  obtain ⟨hc, hp⟩ := h
  refine ⟨fun b hb => ?_, fun b hb => ?_⟩
  · have hrange := hc b hb
    omega
  · have hrange := hp b hb
    omega

/-! ## 2. The flag is never set -/

/-- **What holds of every state of a run**: besides the rest, entities of plain keys are not
    flagged. -/
structure Unflagged (B : LossyUtf8) (s : Indexed) : Prop extends Sound s where
  deleted : ∀ countryCode partyId, PlainKey countryCode partyId → ∀ party,
    s.subgraph.parties (partyEntityId B countryCode partyId) = some party → party.deleted = false

theorem unflagged_start (D : Deployment) : Unflagged B ⟨D.start, Subgraph.empty⟩ :=
  ⟨sound_start D, fun _ _ _ _ h => (by cases h)⟩

/-- What a registration leaves unflagged. -/
theorem Unflagged.updatedParty_deleted (hI : Unflagged B s)
    (hplain : PlainKey countryCode partyId) {partyAddress operatorAddress : Address}
    {roles : List Role} {name url : Bytes} {paymentStatus : PaymentStatus} {cvStatus : CvStatus}
    {active : Bool} :
    (updatedParty B s.subgraph countryCode partyId partyAddress roles name url paymentStatus
      cvStatus active operatorAddress).deleted = false := by
  unfold updatedParty
  dsimp only
  cases hload : s.subgraph.parties (partyEntityId B countryCode partyId) with
  | none => rfl
  | some party => exact hI.deleted _ _ hplain party hload

theorem unflagged_step (hI : Unflagged B s) : Unflagged B ((machine B X).step s t) := by
  refine ⟨sound_step hI.toSound, fun cc pid hplain party hparty => ?_⟩
  cases partyStep (B := B) (X := X) (t := t) hI.array hI.ids with
  | set countryCode partyId name url operator owner verifiedRoles status hset _ hparties =>
      rw [hparties] at hparty
      by_cases e : partyEntityId B cc pid = partyEntityId B countryCode partyId
      · obtain ⟨rfl, rfl⟩ := Prod.mk.inj ((partyEntityId_eq_iff hplain).mp e.symm)
        rw [Function.update_self] at hparty
        rw [← Option.some.inj hparty]
        exact hI.updatedParty_deleted hplain
      · rw [Function.update_of_ne e] at hparty
        exact hI.deleted cc pid hplain party hparty
  | removed _ _ _ hparties =>
      rw [hparties cc pid hplain] at hparty
      exact hI.deleted cc pid hplain party hparty
  | same _ _ _ hparties =>
      rw [hparties] at hparty
      exact hI.deleted cc pid hplain party hparty

/-! ## 3. One step -/

/-- The transaction registers somebody under the key. -/
def SetsKey (st : OcnRegistry) (t : Tx) (countryCode : Bytes2) (partyId : Bytes3) : Prop :=
  ∃ owner operator, OcnRegistry.SetsParty st t owner countryCode partyId operator

/-- **The entity of a plain key is shown** if it was, or if the transaction registers the key. -/
theorem shown_step (hI : Unflagged B s) (hplain : PlainKey countryCode partyId) :
    Shown B ((machine B X).step s t).subgraph countryCode partyId ↔
      SetsKey s.registry t.tx countryCode partyId ∨ Shown B s.subgraph countryCode partyId := by
  unfold Shown
  cases partyStep (B := B) (X := X) (t := t) hI.array hI.ids with
  | set cc pid name url operator owner verifiedRoles status hset _ hparties =>
      rw [hparties]
      by_cases e : (cc, pid) = (countryCode, partyId)
      · cases e
        rw [Function.update_self]
        exact iff_of_true ⟨_, rfl, hI.updatedParty_deleted hplain⟩ (Or.inl ⟨owner, operator, hset⟩)
      · have hid : partyEntityId B countryCode partyId ≠ partyEntityId B cc pid :=
          fun he => e ((partyEntityId_eq_iff hplain).mp he.symm)
        rw [Function.update_of_ne hid]
        refine (or_iff_right fun hkey => e ?_).symm
        obtain ⟨owner', operator', hset'⟩ := hkey
        obtain ⟨_, rfl, rfl, _⟩ := hset.unique hset'
        rfl
  | removed party hdel _ hparties =>
      rw [hparties countryCode partyId hplain]
      refine (or_iff_right fun hkey => ?_).symm
      obtain ⟨owner, operator, hset⟩ := hkey
      exact hset.not_deletes hdel.1
  | same hset _ _ hparties =>
      rw [hparties]
      refine (or_iff_right fun hkey => ?_).symm
      obtain ⟨owner, operator, hset'⟩ := hkey
      exact hset _ _ _ _ hset'

/-- The keys that are held, in terms of the key index. -/
theorem flagsAgree_iff : FlagsAgree B s ↔ ∀ k : Bytes2 × Bytes3, PrintableKey k.1 k.2 →
    (Shown B s.subgraph k.1 k.2 ↔ s.registry.keyIndex.Held k) := by
  have hheld (k : Bytes2 × Bytes3) : s.registry.keyIndex.Held k ↔
      ∃ a, s.registry.Registered a ∧ s.registry.keyOf a = k :=
    exists_congr fun a => and_congr_left fun _ => OcnRegistry.live_keyIndex
  refine ⟨fun h k hk => ?_, fun h countryCode partyId hk => ?_⟩
  · rw [hheld]
    exact h k.1 k.2 hk
  · rw [← hheld]
    exact h (countryCode, partyId) hk

theorem soleHolder_iff {st : OcnRegistry} {a : Address} : st.keyIndex.SoleHolder a ↔
    st.Registered a ∧ ∀ b, st.Registered b → st.keyOf b = st.keyOf a → b = a := by
  refine and_congr OcnRegistry.live_keyIndex (forall_congr' fun b => ?_)
  exact imp_congr_left OcnRegistry.live_keyIndex

/-- A registration frees a key exactly if it moves its only holder. -/
theorem freesKey_of_set {st : OcnRegistry} {u : Tx} {owner operator : Address}
    (hset : OcnRegistry.SetsParty st u owner countryCode partyId operator) :
    FreesKey st u ↔ PrintableKey (st.keyOf owner).1 (st.keyOf owner).2 ∧
      st.keyIndex.SoleHolder owner ∧ st.keyOf owner ≠ (countryCode, partyId) := by
  rw [soleHolder_iff]
  refine ⟨fun h => ?_, fun h => ?_⟩
  · obtain ⟨a, hr, hprint, hsole, hdel | ⟨_, _, _, hset', hne⟩⟩ := h
    · exact absurd hdel.1 hset.not_deletes
    · obtain ⟨rfl, rfl, rfl, _⟩ := hset.unique hset'
      exact ⟨hprint, ⟨hr, hsole⟩, hne⟩
  · obtain ⟨hprint, ⟨hr, hsole⟩, hne⟩ := h
    exact ⟨owner, hr, hprint, hsole, Or.inr ⟨countryCode, partyId, operator, hset, hne⟩⟩

/-- A deletion frees a key exactly if it deletes its only holder. -/
theorem freesKey_of_removes {st : OcnRegistry} {u : Tx} {party : Address}
    (hdel : OcnRegistry.RemovesParty st u party) :
    FreesKey st u ↔ PrintableKey (st.keyOf party).1 (st.keyOf party).2 ∧
      st.keyIndex.SoleHolder party := by
  rw [soleHolder_iff]
  refine ⟨fun h => ?_, fun h => ?_⟩
  · obtain ⟨a, hr, hprint, hsole, hdel' | ⟨_, _, _, hset, _⟩⟩ := h
    · obtain rfl := hdel.1.unique hdel'.1
      exact ⟨hprint, hr, hsole⟩
    · exact absurd hdel.1 hset.not_deletes
  · obtain ⟨hprint, hr, hsole⟩ := h
    exact ⟨party, hr, hprint, hsole, Or.inl hdel⟩

/-- **One step**: flags that agree keep agreeing exactly if no key is freed. -/
theorem flagsAgree_step_iff (hI : Unflagged B s) (h : FlagsAgree B s) :
    FlagsAgree B ((machine B X).step s t) ↔ ¬ FreesKey s.registry t.tx := by
  rw [flagsAgree_iff] at h ⊢
  have hshown (k : Bytes2 × Bytes3) (hk : PrintableKey k.1 k.2) :
      Shown B ((machine B X).step s t).subgraph k.1 k.2 ↔
        SetsKey s.registry t.tx k.1 k.2 ∨ Shown B s.subgraph k.1 k.2 := shown_step hI hk.plain
  cases partyStep (B := B) (X := X) (t := t) hI.array hI.ids with
  | set countryCode partyId name url operator owner verifiedRoles status hset hregistry _ =>
      have hkey (k : Bytes2 × Bytes3) : SetsKey s.registry t.tx k.1 k.2 ↔
          k = (countryCode, partyId) := by
        refine ⟨fun hk => ?_, fun e => e ▸ ⟨owner, operator, hset⟩⟩
        obtain ⟨_, _, hset'⟩ := hk
        obtain ⟨_, hc, hp, _⟩ := hset'.unique hset
        exact Prod.ext hc hp
      have hindex : ((machine B X).step s t).registry.keyIndex =
          s.registry.keyIndex.assign owner (countryCode, partyId) := by
        rw [hregistry]
        exact OcnRegistry.keyIndex_storeParty hset.operator_ne
      have hmarks := Roster.KeyIndex.marks_assign_iff (a := owner) (k := (countryCode, partyId)) h
      rw [freesKey_of_set hset]
      refine Iff.trans (forall₂_congr fun k hk => ?_) hmarks
      rw [hshown k hk, hkey, hindex]
  | removed party hdel hregistry _ =>
      have hkey (k : Bytes2 × Bytes3) : ¬ SetsKey s.registry t.tx k.1 k.2 := by
        intro hk
        obtain ⟨_, _, hset⟩ := hk
        exact hset.not_deletes hdel.1
      have hindex : ((machine B X).step s t).registry.keyIndex =
          s.registry.keyIndex.remove 0 (0, 0) party := by
        rw [hregistry]
        exact OcnRegistry.keyIndex_clearParty party
      have hmarks : (∀ k : Bytes2 × Bytes3, PrintableKey k.1 k.2 →
          (Shown B s.subgraph k.1 k.2 ↔ (s.registry.keyIndex.remove 0 (0, 0) party).Held k)) ↔ _ :=
        Roster.KeyIndex.marks_remove_iff h
      rw [freesKey_of_removes hdel]
      refine Iff.trans (forall₂_congr fun k hk => ?_) hmarks
      rw [hshown k hk, or_iff_right (hkey k), hindex]
  | same hset hdel hregistry hparties =>
      have hfrees : ¬ FreesKey s.registry t.tx := by
        intro hfrees
        obtain ⟨a, _, _, _, hdel' | ⟨_, _, _, hset', _⟩⟩ := hfrees
        · exact hdel a hdel'
        · exact hset _ _ _ _ hset'
      refine iff_of_true (fun k hk => ?_) hfrees
      rw [hregistry.keyIndex]
      unfold Shown
      rw [hparties]
      exact h k hk

/-! ## 4. Runs -/

/-- **What the flag says**: the entity of a plain key is there, and not deleted, exactly if some
    transaction of the run registered somebody under the key. -/
theorem shown_iff (B : LossyUtf8) (X : Crypto) (D : Deployment) (ts : List MinedTx)
    (hplain : PlainKey countryCode partyId) :
    Shown B (run B X D ts).subgraph countryCode partyId ↔
      ¬ (OcnRegistry.machine X).Along (fun st u => ¬ SetsKey st u countryCode partyId) D.start
        (ts.map (·.tx)) := by
  rw [← along_registry (B := B) ⟨D.start, Subgraph.empty⟩ ts, iff_not_comm]
  refine (Machine.run_iff_along (M := machine B X) (J := Unflagged B)
    (I := fun s => ¬ Shown B s.subgraph countryCode partyId) (fun _ _ hI => unflagged_step hI)
    (fun s t hI hno => ?_) (fun s t hI hshown => ?_) ts (unflagged_start D) ?_).symm
  · rw [shown_step hI hplain, or_iff_left hno]
  · rw [shown_step hI hplain]
    exact fun hno => hno (Or.inr (Classical.not_not.mp hshown))
  · rintro ⟨_, h, _⟩
    cases h

end Deleted

/-- **A deleted party stays shown**: registered under `DE/MSP` and deleted, it is gone from the
    registry, and its entity is still there with `deleted = false`. -/
theorem deleted_party_stays_shown :
    let ts := [Sample.mined (Sample.tx Sample.operator (.setNode Sample.domain)),
      Sample.mined (Sample.tx Sample.party (Sample.register Sample.party 0x4445 0x4D5350)),
      Sample.mined (Sample.tx Sample.party .deleteParty)]
    ¬ FlagsAgree Sample.lossyUtf8
      (run Sample.lossyUtf8 (Sample.crypto []) Sample.deployment ts) := by
  intro ts h
  have hshown : Shown Sample.lossyUtf8
      (run Sample.lossyUtf8 (Sample.crypto []) Sample.deployment ts).subgraph 0x4445 0x4D5350 := by
    refine (shown_iff Sample.lossyUtf8 (Sample.crypto []) Sample.deployment ts (by decide)).mpr
      fun hnever => hnever.2.1 ⟨Sample.party.address, Sample.operator.address, ?_⟩
    exact ⟨Sample.certificates Sample.party, utf8 "Company", [], [.cpo], .pending, rfl, by decide,
      by decide, by decide, by decide, rfl, Or.inl rfl, by decide +kernel, rfl⟩
  obtain ⟨a, hr, _⟩ := (h 0x4445 0x4D5350 (by decide)).mp hshown
  -- the only entry of the array is the hole the deletion left
  rw [run_registry] at hr
  have hmem := (OcnRegistry.arraySound_run (Sample.crypto []) Sample.deployment
    (ts.map (·.tx))).mem_parties hr
  have hparties : (Sample.deployment.run (Sample.crypto []) (ts.map (·.tx))).parties = [0] := by
    decide +kernel
  rw [hparties] at hmem
  rw [List.mem_singleton.mp hmem] at hr
  exact absurd hr (by decide +kernel)

/-- **When the flags are right**: in every state of a run, the entity of every printable key is
    there and not deleted exactly if some party is registered under the key, if and only if no
    transaction of the run deletes, or moves, the only party under its printable key. -/
theorem flags_agree_iff (B : LossyUtf8) (X : Crypto) (D : Deployment) (ts : List MinedTx) :
    (machine B X).Throughout (FlagsAgree B) ⟨D.start, Subgraph.empty⟩ ts ↔
      (OcnRegistry.machine X).Along (fun st u => ¬ FreesKey st u) D.start (ts.map (·.tx)) := by
  have hstart : FlagsAgree B ⟨D.start, Subgraph.empty⟩ := by
    intro countryCode partyId _
    refine iff_of_false (fun h => ?_) fun h => ?_
    · obtain ⟨_, hparty, _⟩ := h
      cases hparty
    · obtain ⟨a, hr, _⟩ := h
      exact OcnRegistry.not_registered_start D a hr
  rw [← along_registry (B := B) ⟨D.start, Subgraph.empty⟩ ts]
  exact Machine.throughout_iff_along (M := machine B X) (J := Unflagged B)
    (fun _ _ hI => unflagged_step hI) (fun _ _ hI h => flagsAgree_step_iff hI h) ts
    (unflagged_start D) hstart

end Indexer

end Ocn
