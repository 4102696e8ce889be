/-
  File:      OcnRegistry/Registry/Lookup.lean
  Subject:   FINDING A PARTY BY ITS KEY, when what is asked for may be another spelling of it.

  A key is free for its owner when nobody or the owner answers for it, so a registration takes no
  answer away from anybody but the zero address. What a client asks for need not be the key it was
  shown; then a registration may also be made under a key nobody is found by.

  * `found_step_iff` -- when a transaction keeps every party found.
-/
import OcnRegistry.Registry.Slots

namespace Ocn

open Transaction

namespace OcnRegistry

abbrev Asking : Type := Roster.KeyIndex.Asking (Bytes2 × Bytes3)

/-- Every registered party whose key can be shown is found by asking for it. -/
def PartiesFound (A : Asking) (st : OcnRegistry) : Prop :=
  ∀ a, st.Registered a → A.shown (st.keyOf a) → A.askable (st.keyOf a) ∧
    st.uniqueParties (A.asked (st.keyOf a)).1 (A.asked (st.keyOf a)).2 = a

/-- The transaction registers a party under a key that does not find it, or takes the key that finds
    the zero address. -/
def LosesParty (A : Asking) (st : OcnRegistry) (t : Tx) : Prop :=
  ∃ owner countryCode partyId operator, SetsParty st t owner countryCode partyId operator ∧
    ((A.shown (countryCode, partyId) ∧
        ¬ (A.askable (countryCode, partyId) ∧
          (A.asked (countryCode, partyId) = (countryCode, partyId) ∨
            st.uniqueParties (A.asked (countryCode, partyId)).1
              (A.asked (countryCode, partyId)).2 = owner))) ∨
      (owner ≠ 0 ∧ st.Registered 0 ∧ A.shown (st.keyOf 0) ∧
        A.asked (st.keyOf 0) = (countryCode, partyId)))

variable {A : Asking} {X : Crypto} {st : OcnRegistry} {t : Tx}

theorem partiesFound_iff : PartiesFound A st ↔ st.keyIndex.Found A := by
  refine ⟨fun h a ha => h a (live_keyIndex.mp ha), fun h a ha => h a (live_keyIndex.mpr ha)⟩

/-- **One step** keeps every party found exactly when it does not lose one. -/
theorem found_step_iff (hI : st.ArraySound) (h : PartiesFound A st) :
    PartiesFound A ((machine X).step st t) ↔ ¬ LosesParty A st t := by
  rw [partiesFound_iff] at h ⊢
  cases partyStep (X := X) (t := t) hI with
  | set countryCode partyId roles operator name url owner verifiedRoles status hcall hadmits
      hstep =>
      have hset : SetsParty st t owner countryCode partyId operator :=
        ⟨roles, name, url, verifiedRoles, status, hcall, hadmits⟩
      have hfree : st.keyIndex.owner (countryCode, partyId) = 0 ∨
          st.keyIndex.owner (countryCode, partyId) = owner := hadmits.free
      rw [hstep, keyIndex_storeParty hadmits.someOperator]
      refine (Roster.KeyIndex.found_assign_iff h hfree).trans (not_congr ?_)
      refine ⟨fun hlost => ⟨_, _, _, _, hset, ?_⟩, fun hlost => ?_⟩
      · refine hlost.imp_right fun hz => ?_
        obtain ⟨hne, hlive, hshown, hk⟩ := hz
        exact ⟨hne, live_keyIndex.mp hlive, hshown, hk⟩
      · obtain ⟨owner', countryCode', partyId', operator', hset', hlost⟩ := hlost
        obtain ⟨rfl, rfl, rfl, rfl⟩ := hset.unique hset'
        refine hlost.imp_right fun hz => ?_
        obtain ⟨hne, hr, hshown, hk⟩ := hz
        exact ⟨hne, live_keyIndex.mpr hr, hshown, hk⟩
  | removed party hdel hstep =>
      rw [hstep, keyIndex_clearParty]
      refine iff_of_true (h.remove (live_keyIndex.mpr hdel.2)) fun hlost => ?_
      obtain ⟨_, _, _, _, hset, _⟩ := hlost
      exact hset.not_deletes hdel.1
  | same hset _ hsame =>
      rw [hsame.keyIndex]
      refine iff_of_true h fun hlost => ?_
      obtain ⟨_, _, _, _, hset', _⟩ := hlost
      exact hset _ _ _ _ hset'

end OcnRegistry

end Ocn
