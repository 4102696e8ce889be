/-
  File:      OcnRegistry/Registry/Unlisted.lean
  Subject:   UNLISTED PARTIES: what the lookups answer where nobody is registered.

  The lookups chain three mappings, and a mapping answers zero where nothing was written: a key
  nobody took leads to the party zero, a party nobody registered to the operator zero, and the
  operator zero to whatever node the zero address has. "Nobody" is answered with nothing as long as
  the zero address stays empty in all three and no key leads to a party that left it.

  * `unlisted_resolves` -- after a `setNodeRaw` with a malformed signature every address that is no
    party has a domain; after a party has moved, its old key still answers with its operator;
  * `unlisted_iff` -- those two, and a registration of the zero address, are the only ways.
-/
import OcnRegistry.Registry.Keys
import OcnRegistry.Registry.Raw

namespace Ocn

open Transaction

namespace OcnRegistry

/-! ## 1. Addresses and keys that nobody is registered under -/

/-- An address that is no registered party, and a key that no registered party carries, answer with
    the zero operator and the empty domain. -/
def UnlistedResolveToNothing (st : OcnRegistry) : Prop :=
  (∀ a, ¬ st.Registered a → st.getOperatorByAddress a = (0, [])) ∧
  ∀ countryCode partyId, (∀ a, st.Registered a → st.keyOf a ≠ (countryCode, partyId)) →
    st.getOperatorByOcpi countryCode partyId = (0, [])

/-- The transaction fills one of the three defaults, or leaves a key behind. -/
def FillsDefault (X : Crypto) (st : OcnRegistry) (t : Tx) : Prop :=
  ListsZero X st t ∨ RegistersZero st t ∨ LeavesStaleKey st t

/-- **What keeps the defaults empty**: sound tables, no stale key, no node of the zero address, and
    nobody under the key zero, which `setParty` refuses. -/
structure DefaultsEmpty (st : OcnRegistry) : Prop where
  parties : st.PartiesSound
  noStale : st.NoStaleKeys
  noNode : st.nodeOf 0 = []
  noKey : st.uniqueParties 0 0 = 0

section Unlisted

variable {X : Crypto} {st : OcnRegistry} {t : Tx}

theorem defaultsEmpty_start (D : Deployment) : DefaultsEmpty D.start where
  parties := partiesSound_start D
  noStale := fun _ _ h => absurd rfl h
  noNode := rfl
  noKey := rfl

theorem operator_eq_zero {a : Address} (h : ¬ st.Registered a) : st.operatorOf a = 0 :=
  Classical.byContradiction h

/-- With empty defaults, nobody is answered with nothing. -/
theorem DefaultsEmpty.unlisted (hI : st.DefaultsEmpty) : st.UnlistedResolveToNothing := by
  have haddress : ∀ a, ¬ st.Registered a → st.getOperatorByAddress a = (0, []) := by
    intro a ha
    rw [getOperatorByAddress_eq, operator_eq_zero ha, hI.noNode]
  refine ⟨haddress, fun countryCode partyId hnone => ?_⟩
  refine haddress (st.uniqueParties countryCode partyId) fun hreg => ?_
  have hne : st.uniqueParties countryCode partyId ≠ 0 := fun e => hI.parties.nobody (e ▸ hreg)
  obtain ⟨_, hc, hp⟩ := hI.noStale countryCode partyId hne
  exact hnone _ hreg (Prod.ext hc hp)

/-- A registered party does not carry the key zero. -/
theorem DefaultsEmpty.key_ne_zero (hI : st.DefaultsEmpty) {a : Address} (ha : st.Registered a) :
    st.keyOf a ≠ (0, 0) := by
  intro e
  have hkey := hI.parties.keys.resolves a (live_keyIndex.mpr ha)
  have hzero : st.uniqueParties (st.keyOf a).1 (st.keyOf a).2 = a := hkey
  rw [e, hI.noKey] at hzero
  exact hI.parties.nobody (hzero ▸ ha)

/-! ## 2. One step -/

theorem SetsParty.country_ne {owner operator : Address} {countryCode : Bytes2} {partyId : Bytes3}
    (h : SetsParty st t owner countryCode partyId operator) : countryCode ≠ 0 := by
  obtain ⟨_, _, _, _, _, _, hadmits⟩ := h
  exact hadmits.country

/-- No transaction puts anybody under the key zero. -/
theorem noKey_step (h0 : st.uniqueParties 0 0 = 0) :
    ((machine X).step st t).uniqueParties 0 0 = 0 := by
  refine Machine.step_preserves (M := machine X) (I := fun st => st.uniqueParties 0 0 = 0) h0
    fun st' ev hok => ?_
  rcases parties_step hok with ⟨owner, countryCode, partyId, operator, _, _, _, _, hset, e⟩ |
      ⟨party, _, _, e⟩ | hsame
  · rw [e, storeParty_uniqueParties, setUniqueParty_ne]
    · exact h0
    · exact fun ek => hset.country_ne (congrArg Prod.fst ek).symm
  · rw [e, clearParty_uniqueParties]
    by_cases ek : ((0 : Bytes2), (0 : Bytes3)) = st.keyOf party
    · obtain ⟨hc, hp⟩ := Prod.ext_iff.mp ek
      rw [show (st.partyOf party).countryCode = 0 from hc.symm,
        show (st.partyOf party).partyId = 0 from hp.symm, setUniqueParty_self]
    · rw [setUniqueParty_ne st 0 ek]
      exact h0
  · rw [hsame.uniqueParties]
    exact h0

/-- A transaction that fills no default keeps them empty. -/
theorem DefaultsEmpty.step (hI : st.DefaultsEmpty) (h : ¬ FillsDefault X st t) :
    ((machine X).step st t).DefaultsEmpty where
  parties := Machine.step_preserves (M := machine X) (I := PartiesSound) hI.parties
    fun _ _ hok => partiesSound_step hI.parties (fun hz => h (Or.inr (Or.inl hz))) hok
  noStale := noStaleKeys_iff.mpr ((noStale_step_iff (noStaleKeys_iff.mp hI.noStale)).mpr
    fun hs => h (Or.inr (Or.inr hs)))
  noNode := (nodeOf_zero_step_iff hI.noNode).mpr fun hz => h (Or.inl hz)
  noKey := noKey_step hI.noKey

/-- After a registration of the zero address, the key zero answers with its operator. -/
theorem not_unlisted_of_registersZero (hI : st.DefaultsEmpty) (h : RegistersZero st t) :
    ¬ ((machine X).step st t).UnlistedResolveToNothing := by
  intro hU
  obtain ⟨countryCode, partyId, operator, hset⟩ := h
  obtain ⟨verifiedRoles, name, url, status, e⟩ := step_setsParty (X := X) hset
  have hkey := noKey_step (X := X) (t := t) hI.noKey
  rw [e] at hU hkey
  have hnone := hU.2 0 0 fun b hb ek => ?_
  · rw [getOperatorByOcpi_eq, hkey, getOperatorByAddress_eq, storeParty_operatorOf,
      Function.update_self] at hnone
    exact hset.operator_ne (congrArg Prod.fst hnone)
  · by_cases eb : b = 0
    · rw [eb] at ek
      have hcountry : countryCode = 0 := by
        have hfst := congrArg Prod.fst ek
        simpa [keyOf, newDetails] using hfst
      exact hset.country_ne hcountry
    · rw [registered_storeParty_ne eb] at hb
      rw [keyOf, storeParty_partyOf, Function.update_of_ne eb] at ek
      exact hI.key_ne_zero hb ek

/-- After a move that leaves its key behind, that key answers with the operator of the party that
    left it, though nobody carries it. -/
theorem not_unlisted_of_leavesStaleKey (hI : st.DefaultsEmpty) (h : LeavesStaleKey st t) :
    ¬ ((machine X).step st t).UnlistedResolveToNothing := by
  intro hU
  obtain ⟨owner, countryCode, partyId, operator, hset, _, hreg, hmoves, howner⟩ := h
  obtain ⟨verifiedRoles, name, url, status, e⟩ := step_setsParty (X := X) hset
  rw [e] at hU
  have hold : st.setUniqueParty countryCode partyId owner (st.partyOf owner).countryCode
      (st.partyOf owner).partyId = owner :=
    (setUniqueParty_ne st owner hmoves).trans howner
  have hnone := hU.2 (st.partyOf owner).countryCode (st.partyOf owner).partyId fun b hb ek => ?_
  · rw [getOperatorByOcpi_eq, storeParty_uniqueParties] at hnone
    dsimp only [newDetails] at hnone
    rw [hold, getOperatorByAddress_eq, storeParty_operatorOf, Function.update_self] at hnone
    exact hset.operator_ne (congrArg Prod.fst hnone)
  · by_cases eb : b = owner
    · rw [eb, keyOf, storeParty_partyOf, Function.update_self] at ek
      exact hmoves ek.symm
    · rw [registered_storeParty_ne eb] at hb
      rw [keyOf, storeParty_partyOf, Function.update_of_ne eb] at ek
      exact eb (hI.parties.keys.key_injective (live_keyIndex.mpr hb) (live_keyIndex.mpr hreg) ek)

/-- **One step**: from empty defaults, only a transaction that fills none leaves nobody answered
    with nothing. -/
theorem not_fillsDefault (hI : st.DefaultsEmpty)
    (hU : ((machine X).step st t).UnlistedResolveToNothing) : ¬ FillsDefault X st t := by
  intro h
  rcases h with hlists | hregisters | hleaves
  · -- the zero address is no party, before and after
    have hnobody : ¬ ((machine X).step st t).Registered 0 := by
      obtain ⟨domain, hask, hd, hu⟩ := listsZero_iff.mp hlists
      rw [step_setsNode hask hd hu]
      exact hI.parties.nobody
    have hnone := hU.1 0 hnobody
    rw [getOperatorByAddress_eq, operator_eq_zero hnobody] at hnone
    exact (nodeOf_zero_step_iff hI.noNode).mp (congrArg Prod.snd hnone) hlists
  · exact not_unlisted_of_registersZero hI hregisters hU
  · exact not_unlisted_of_leavesStaleKey hI hleaves hU

end Unlisted

/-! ## 3. Runs -/

/-- **Nobody is answered with something**: after a `setNodeRaw` with a malformed signature a
    stranger who is no party has a domain; and after a party has moved from `DE/MSP` to `FR/CPS`,
    `DE/MSP` answers with its operator, though nobody carries it. -/
theorem unlisted_resolves :
    let X := Sample.crypto []
    let listed := Sample.deployment.run X
      [Sample.tx Sample.stranger (.setNodeRaw Sample.operator.address Sample.domain 0 0 0)]
    let moved := Sample.deployment.run X
      [Sample.tx Sample.operator (.setNode Sample.domain),
        Sample.tx Sample.party (Sample.register Sample.party 0x4445 0x4D5350),
        Sample.tx Sample.party (Sample.register Sample.party 0x4652 0x435053)]
    listed.getOperatorByAddress Sample.stranger.address = (0, Sample.domain) ∧
      ¬ listed.UnlistedResolveToNothing ∧
      moved.getOperatorByOcpi 0x4445 0x4D5350 = (Sample.operator.address, Sample.domain) ∧
      ¬ moved.UnlistedResolveToNothing := by
  intro X listed moved
  have hlisted : listed.getOperatorByAddress Sample.stranger.address = (0, Sample.domain) := by
    decide +kernel
  have hmoved : moved.getOperatorByOcpi 0x4445 0x4D5350 =
      (Sample.operator.address, Sample.domain) := by decide +kernel
  refine ⟨hlisted, fun h => ?_, hmoved, fun h => ?_⟩
  · have hnone := h.1 Sample.stranger.address (by decide +kernel)
    rw [hlisted] at hnone
    exact absurd hnone (by decide +kernel)
  · -- only the party that moved is registered, and it carries the other key
    have hoperator : moved.operatorOf = Function.update (Function.update (fun _ => 0)
      Sample.party.address Sample.operator.address) Sample.party.address
      Sample.operator.address := rfl
    have hnone := h.2 0x4445 0x4D5350 fun a ha => ?_
    · rw [hmoved] at hnone
      exact absurd hnone (by decide +kernel)
    · by_cases e : a = Sample.party.address
      · rw [e]
        decide +kernel
      · refine absurd ?_ ha
        rw [hoperator, Function.update_of_ne e, Function.update_of_ne e]

/-- **When nobody is answered with nothing**: in every state of a run every address that is no
    party and every key that no party carries resolve to the zero operator and the empty domain,
    exactly when no transaction of the run lists a node for the zero address, registers the zero
    address, or moves a party away from a key that answers with it. -/
theorem unlisted_iff (X : Crypto) (D : Deployment) (ts : List Tx) :
    (machine X).Throughout UnlistedResolveToNothing D.start ts ↔
      (machine X).Along (fun st t => ¬ FillsDefault X st t) D.start ts :=
  Machine.throughout_iff_along_of (M := machine X) (K := DefaultsEmpty)
    (fun _ hI => hI.unlisted) (fun _ _ hI hU => not_fillsDefault hI hU)
    (fun _ _ hI h => hI.step h) ts (defaultsEmpty_start D)

end OcnRegistry

end Ocn
