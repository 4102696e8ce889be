/-
  File:      OcnRegistry/Registry/Frame.lean
  Subject:   PARTIES DO NOT INTERFERE: what one party's calls leave alone of another's listing.

  `setParty` and `deleteParty` write through two shared structures: the key map, at the key in the
  party's record, and the array, at the index in it. Another party's entries are untouched because
  registered parties never share a key or an index (Registry/Parties.lean).

  * `untouched_storeParty`, `untouched_clearParty` -- the frame of each write;
  * `zero_owner_interferes` -- the zero address, registered with certificates that name it, does
    not hold its key: the next party to ask for the key takes it;
  * `parties_isolated_iff` -- that is the only way: in every state of a run, what the lookups say
    of a party survives every call about another party, exactly when no transaction of the run
    registers the zero address.
-/
import OcnRegistry.Validator
import OcnRegistry.Registry.Parties

namespace Ocn

open Transaction

namespace OcnRegistry

/-! ## 1. What the lookups say of a party -/

/-- **The lookups say the same of `b`** before and after: by address, by the key it had before, and
    at its place in `getParties()`. -/
structure SameView (b : Address) (st st' : OcnRegistry) : Prop where
  details : st'.getPartyDetailsByAddress b = st.getPartyDetailsByAddress b
  operator : st'.getOperatorByAddress b = st.getOperatorByAddress b
  operatorByKey : st'.getOperatorByOcpi (st.keyOf b).1 (st.keyOf b).2 =
    st.getOperatorByOcpi (st.keyOf b).1 (st.keyOf b).2
  detailsByKey : ∀ answers, st'.getPartyDetailsByOcpi answers (st.keyOf b).1 (st.keyOf b).2 =
    st.getPartyDetailsByOcpi answers (st.keyOf b).1 (st.keyOf b).2
  index : (st'.partyOf b).partyIndex = (st.partyOf b).partyIndex
  slot : st'.getParties[(st.partyOf b).partyIndex]? = st.getParties[(st.partyOf b).partyIndex]?

/-- The transaction is about `a`: a `setParty` that succeeds with certificates of `a`, or a
    deletion of `a` by itself or by an admin under a key that answers with `a`. -/
def IsAbout (st : OcnRegistry) (t : Tx) (a : Address) : Prop :=
  (∃ countryCode partyId operator, SetsParty st t a countryCode partyId operator) ∨
    DeletesParty st t a

/-- No call about a party that is not zero changes what the lookups say of another one. -/
def PartiesIsolated (X : Crypto) (st : OcnRegistry) : Prop :=
  ∀ t a b, st.operatorOf b ≠ 0 → a ≠ 0 → a ≠ b → IsAbout st t a →
    SameView b st ((machine X).step st t)

/-- The records behind the lookups of `b` are untouched. -/
structure Untouched (b : Address) (st st' : OcnRegistry) : Prop where
  partyOf : st'.partyOf b = st.partyOf b
  operatorOf : st'.operatorOf b = st.operatorOf b
  nodeOf : st'.nodeOf = st.nodeOf
  paymentManager : st'.paymentManager = st.paymentManager
  key : st'.uniqueParties (st.keyOf b).1 (st.keyOf b).2 =
    st.uniqueParties (st.keyOf b).1 (st.keyOf b).2
  slot : st'.parties[(st.partyOf b).partyIndex]? = st.parties[(st.partyOf b).partyIndex]?

section Frame

variable {X : Crypto} {st st' : OcnRegistry} {t : Tx} {a b : Address}

theorem Untouched.refl (b : Address) (st : OcnRegistry) : Untouched b st st :=
  ⟨rfl, rfl, rfl, rfl, rfl, rfl⟩

/-- Where `b`'s key answers with `b`, untouched records mean the same answers. -/
theorem Untouched.sameView (h : Untouched b st st')
    (hkey : st.uniqueParties (st.keyOf b).1 (st.keyOf b).2 = b) : SameView b st st' where
  details := by
    unfold getPartyDetailsByAddress
    rw [h.partyOf, h.operatorOf]
  operator := by
    unfold getOperatorByAddress
    rw [h.operatorOf, h.nodeOf]
  operatorByKey := by
    simp only [getOperatorByOcpi, h.key, hkey, h.operatorOf, h.nodeOf]
  detailsByKey := by
    intro answers
    simp only [getPartyDetailsByOcpi, h.key, hkey, h.partyOf, h.operatorOf, h.paymentManager]
  index := by rw [h.partyOf]
  slot := h.slot

/-! ## 2. The frame of each write -/

/-- Storing a record for `a` under a key that is free for it. -/
theorem untouched_storeParty (hI : st.PartiesSound) (hb : st.Registered b) (hab : a ≠ b)
    {details : PartyDetails} {operator : Address}
    (hfree : st.uniqueParties details.countryCode details.partyId = 0 ∨
      st.uniqueParties details.countryCode details.partyId = a) :
    Untouched b st (st.storeParty a details operator) where
  partyOf := by simp [Ne.symm hab]
  operatorOf := by simp [Ne.symm hab]
  nodeOf := rfl
  paymentManager := rfl
  key := by
    have hne : st.keyOf b ≠ (details.countryCode, details.partyId) :=
      hI.keys.key_ne (k := (details.countryCode, details.partyId)) hfree (live_keyIndex.mpr hb)
        (Ne.symm hab)
    exact setUniqueParty_ne st a hne
  slot := by
    show (if st.uniquePartyAddresses a then st.parties else st.parties ++ [a])[_]? = _
    have hlt := hI.slots.slot_lt ((hI.flagged b).mpr hb)
    split
    · rfl
    · exact List.getElem?_append_left hlt

/-- Clearing the record of another registered party. -/
theorem untouched_clearParty (hI : st.PartiesSound) (hb : st.Registered b)
    (ha : st.Registered a) (hab : a ≠ b) : Untouched b st (st.clearParty a) where
  partyOf := by simp [Ne.symm hab]
  operatorOf := by simp [Ne.symm hab]
  nodeOf := rfl
  paymentManager := rfl
  key := by
    have hne : st.keyOf b ≠ st.keyOf a := fun e =>
      hab (hI.keys.key_injective (live_keyIndex.mpr hb) (live_keyIndex.mpr ha) e).symm
    exact setUniqueParty_ne st 0 hne
  slot := by
    have hne : (st.partyOf a).partyIndex ≠ (st.partyOf b).partyIndex :=
      hI.slots.slot_ne ((hI.flagged a).mpr ha) ((hI.flagged b).mpr hb) hab
    exact List.getElem?_set_ne hne

/-- **One step**: a call about `a` leaves the records of another registered party untouched. -/
theorem untouched_step (hI : st.PartiesSound) (hb : st.Registered b) (hab : a ≠ b)
    (habout : IsAbout st t a) : Untouched b st ((machine X).step st t) := by
  rcases habout with ⟨countryCode, partyId, operator, hset⟩ | hdel
  · obtain ⟨verifiedRoles, name, url, status, e⟩ := step_setsParty (X := X) hset
    rw [e]
    exact untouched_storeParty hI hb hab hset.free
  · rcases step_deletesParty (X := X) hdel with e | ⟨hr, e⟩
    · rw [e]
      exact Untouched.refl b st
    · rw [e]
      exact untouched_clearParty hI hb hr hab

theorem partiesIsolated_of_sound (hI : st.PartiesSound) : PartiesIsolated X st := by
  intro t a b hb _ hab habout
  have hkey : st.uniqueParties (st.keyOf b).1 (st.keyOf b).2 = b :=
    hI.keys.resolves b (live_keyIndex.mpr hb)
  exact (untouched_step hI hb hab habout).sameView hkey

/-! ## 3. The zero address as a party -/

/-- The zero address does not hold its key: right after it was registered, any other owner with
    accepted certificates takes the key, and the lookup by key answers with that owner. -/
theorem not_isolated_of_registersZero (hz : RegistersZero st t) :
    ¬ PartiesIsolated X ((machine X).step st t) := by
  obtain ⟨countryCode, partyId, operator, hset⟩ := hz
  obtain ⟨verifiedRoles, name, url, status, e⟩ := step_setsParty (X := X) hset
  rw [e]
  obtain ⟨roles, _, _, _, _, _, hadmits⟩ := hset
  intro hisolated
  let answers : External := ⟨fun _ _ => .ok (1, []), fun _ _ => .ok .pending, fun _ _ => .ok (0, 0)⟩
  let call : Call := .setParty countryCode partyId roles operator [] []
  let u : Tx := ⟨⟨1, by decide⟩, call, answers⟩
  generalize hst : st.storeParty 0 (st.newDetails countryCode partyId 0 verifiedRoles name url
    status) operator = zeroed at hisolated
  have hkey : zeroed.keyOf 0 = (countryCode, partyId) := by
    rw [← hst]
    simp [keyOf, newDetails]
  have hanswer : zeroed.uniqueParties countryCode partyId = 0 := by
    rw [← hst]
    exact setUniqueParty_self st countryCode partyId 0
  have hnode : zeroed.nodeOf operator ≠ [] := by
    rw [← hst]
    exact hadmits.node
  have hzero : zeroed.operatorOf 0 ≠ 0 := by
    rw [← hst]
    exact registered_storeParty_self hadmits.someOperator
  have htakes : SetsParty zeroed u 1 countryCode partyId operator :=
    ⟨roles, [], [], [], .pending, rfl, hadmits.country, hadmits.party, hadmits.someRole,
      hadmits.someOperator, rfl, Or.inl hanswer, hnode, rfl⟩
  have hview := (hisolated u 1 0 hzero (by decide) (by decide)
    (Or.inl ⟨countryCode, partyId, operator, htakes⟩)).detailsByKey answers
  obtain ⟨_, _, _, _, e'⟩ := step_setsParty (X := X) htakes
  rw [hkey, e'] at hview
  -- the two answers carry the addresses the key resolved to, one and zero
  have haddress : (1 : Address) = 0 := by
    have hparty := congrArg (fun r => r.map fun x => x.1.partyAddress) hview
    simp only [getPartyDetailsByOcpi, storeParty_uniqueParties, newDetails] at hparty
    rw [setUniqueParty_self, hanswer] at hparty
    exact Except.ok.inj hparty
  exact absurd haddress (by decide)

end Frame

/-- **A party registered for the zero address loses its key to the next one who asks**: the
    validator accepts a certificate whose owner is zero, the registry lists the zero address under
    `DE/MSP`, and a call about another party then changes what `DE/MSP` answers. -/
theorem zero_owner_interferes :
    let X := Sample.crypto []
    let answers : External := { Sample.external with
      validateRegistration := fun _ => Sample.validator.validateRegistration X Sample.world }
    let zero : RoleDetails := ⟨[0], [], .cpo⟩
    let register : Tx :=
      ⟨Sample.stranger, .setParty 0x4445 0x4D5350 [zero] Sample.operator.address [] [], answers⟩
    ¬ PartiesIsolated X (Sample.deployment.run X
      [Sample.tx Sample.operator (.setNode Sample.domain), register]) := by
  intro X answers zero register
  let st := Sample.deployment.run X [Sample.tx Sample.operator (.setNode Sample.domain)]
  have hvalid : answers.validateRegistration st.partyRegistrationValidator [zero] =
      .ok (0, [.cpo]) := by
    refine PartyRegistrationValidator.validateRegistration_zero (by decide) fun r hr => ?_
    rw [List.mem_singleton.mp hr]
    exact ⟨[], rfl, rfl⟩
  have hz : RegistersZero st register :=
    ⟨0x4445, 0x4D5350, Sample.operator.address, [zero], [], [], [.cpo], .pending, rfl, by decide,
      by decide, by decide, by decide, hvalid, Or.inl rfl, by decide +kernel, rfl⟩
  exact not_isolated_of_registersZero hz

/-- **When parties do not interfere**: in every state of a run, no call about a non-zero party
    changes what the lookups say of another registered party, exactly when no transaction of the
    run registers the zero address. -/
theorem parties_isolated_iff (X : Crypto) (D : Deployment) (ts : List Tx) :
    (machine X).Throughout (PartiesIsolated X) D.start ts ↔
      (machine X).Along (fun st t => ¬ RegistersZero st t) D.start ts := by
  constructor
  · exact Machine.along_of_throughout (M := machine X) fun _ _ h hz =>
      not_isolated_of_registersZero hz h
  · intro h pre post e
    rw [e] at h
    exact partiesIsolated_of_sound (partiesSound_run (Machine.along_append.mp h).1)

end OcnRegistry

end Ocn
