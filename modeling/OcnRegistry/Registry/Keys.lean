/-
  File:      OcnRegistry/Registry/Keys.lean
  Subject:   STALE KEYS: what `setParty` leaves behind when a party moves to another key.

  `deleteParty` clears the key it finds in the party's record. `setParty` overwrites that record
  and never clears the key it carried before, so a party that moves leaves an entry in
  `uniqueParties` that nothing can clear any more: the record no longer carries it.

  * `stale_key_after_move` -- the old key still answers with the party, nobody else can take it,
    and `adminDeleteParty` of the old key removes the listing under the new one;
  * `no_stale_keys_iff` -- that is the only way: a run has no stale key in any state exactly when no
    transaction of it moves a party away from a key that answers with it; and if in addition the
    zero address is never registered, free keys are open and admins delete under the key they name.
-/
import OcnRegistry.Registry.Parties

namespace Ocn

open Transaction

namespace OcnRegistry

/-! ## 1. Stale keys -/

/-- Every key that answers with an address answers with a registered party that carries it. -/
def NoStaleKeys (st : OcnRegistry) : Prop :=
  ∀ countryCode partyId, st.uniqueParties countryCode partyId ≠ 0 →
    st.operatorOf (st.uniqueParties countryCode partyId) ≠ 0 ∧
    (st.partyOf (st.uniqueParties countryCode partyId)).countryCode = countryCode ∧
    (st.partyOf (st.uniqueParties countryCode partyId)).partyId = partyId

/-- A key that no registered party carries can be taken by any owner with accepted certificates. -/
def FreeKeysOpen (X : Crypto) (st : OcnRegistry) : Prop :=
  ∀ (caller : Account) (answers : External) countryCode partyId roles operator name url owner
    verifiedRoles status, countryCode ≠ 0 → partyId ≠ 0 → roles ≠ [] → operator ≠ 0 →
    st.nodeOf operator ≠ [] →
    answers.validateRegistration st.partyRegistrationValidator roles = .ok (owner, verifiedRoles) →
    answers.getPaymentStatus st.paymentManager owner = .ok status →
    (∀ a, st.Registered a → st.keyOf a ≠ (countryCode, partyId)) →
    (machine X).Accepts st
      ⟨caller, .setParty countryCode partyId roles operator name url, answers⟩

/-- `adminDeleteParty` removes no listing but one under the key it is given. -/
def AdminDeletesUnderKey (st : OcnRegistry) : Prop :=
  ∀ sender countryCode partyId st' ev,
    st.adminDeleteParty sender countryCode partyId = .ok (st', ev) →
    ∀ a, st.Registered a → ¬ st'.Registered a → st.keyOf a = (countryCode, partyId)

/-- The transaction moves a registered party to another key, and the key it had answers with it. -/
def LeavesStaleKey (st : OcnRegistry) (t : Tx) : Prop :=
  ∃ owner countryCode partyId operator, SetsParty st t owner countryCode partyId operator ∧
    owner ≠ 0 ∧ st.Registered owner ∧ st.keyOf owner ≠ (countryCode, partyId) ∧
    st.uniqueParties (st.partyOf owner).countryCode (st.partyOf owner).partyId = owner

section Stale

variable {X : Crypto} {st : OcnRegistry} {t : Tx}

theorem noStaleKeys_iff : NoStaleKeys st ↔ st.keyIndex.NoStale 0 := by
  refine ⟨fun h k hk => ?_, fun h countryCode partyId hk => ?_⟩
  · obtain ⟨hr, hc, hp⟩ := h k.1 k.2 hk
    exact ⟨live_keyIndex.mpr hr, Prod.ext hc hp⟩
  · obtain ⟨hr, hkey⟩ := h (countryCode, partyId) hk
    exact ⟨live_keyIndex.mp hr, congrArg Prod.fst hkey, congrArg Prod.snd hkey⟩

/-- **One step**: where no key is stale, a step leaves one behind exactly by such a move. -/
theorem noStale_step_iff (hI : st.keyIndex.NoStale 0) :
    ((machine X).step st t).keyIndex.NoStale 0 ↔ ¬ LeavesStaleKey st t := by
  by_cases hset : ∃ owner countryCode partyId operator,
      SetsParty st t owner countryCode partyId operator
  · obtain ⟨owner, countryCode, partyId, operator, hset⟩ := hset
    obtain ⟨verifiedRoles, name, url, status, e⟩ := step_setsParty (X := X) hset
    rw [e, keyIndex_storeParty hset.operator_ne]
    refine (Roster.KeyIndex.noStale_assign_iff hI).trans (not_congr ?_)
    refine ⟨fun h => ?_, fun h => ?_⟩
    · obtain ⟨hz, hlive, hk, howner⟩ := h
      exact ⟨owner, countryCode, partyId, operator, hset, hz, live_keyIndex.mp hlive, hk, howner⟩
    · obtain ⟨owner', countryCode', partyId', operator', hset', hz, hr, hk, howner⟩ := h
      obtain ⟨rfl, rfl, rfl, rfl⟩ := hset.unique hset'
      exact ⟨hz, live_keyIndex.mpr hr, hk, howner⟩
  · have hno : ¬ LeavesStaleKey st t := fun h => by
      obtain ⟨owner, countryCode, partyId, operator, h, _⟩ := h
      exact hset ⟨owner, countryCode, partyId, operator, h⟩
    refine iff_of_true ?_ hno
    refine Machine.step_preserves (M := machine X) (I := fun st => st.keyIndex.NoStale 0) hI
      fun st' ev hok => ?_
    rcases parties_step hok with ⟨owner, countryCode, partyId, operator, _, _, _, _, h, _⟩ |
        ⟨party, _, _, e⟩ | hsame
    · exact absurd ⟨owner, countryCode, partyId, operator, h⟩ hset
    · rw [e, keyIndex_clearParty]
      exact hI.remove
    · rw [hsame.keyIndex]
      exact hI

theorem freeKeysOpen_of_noStale (h : NoStaleKeys st) : FreeKeysOpen X st := by
  intro caller answers countryCode partyId roles operator name url owner verifiedRoles status
    hc hp hr ho hn hv hpay hnone
  have hfree : st.uniqueParties countryCode partyId = 0 := by
    by_contra hk
    obtain ⟨hreg, hc', hp'⟩ := h countryCode partyId hk
    exact hnone _ hreg (Prod.ext hc' hp')
  exact (accepts_setParty rfl).mpr
    ⟨owner, verifiedRoles, status, hc, hp, hr, ho, hv, Or.inl hfree, hn, hpay⟩

theorem adminDeletesUnderKey_of_noStale (h : NoStaleKeys st) (hz : ¬ st.Registered 0) :
    AdminDeletesUnderKey st := by
  intro sender countryCode partyId st' ev hdel a ha hgone
  obtain ⟨_, hdel⟩ := adminDeleteParty_eq_ok.mp hdel
  obtain ⟨hreg, _, hst, _⟩ := deletePartyInternal_eq_ok.mp hdel
  -- the deleted party is the one the key answers with, and that is not the zero address
  have ea : a = st.uniqueParties countryCode partyId := by
    by_contra hne
    rw [hst, registered_clearParty_ne hne] at hgone
    exact hgone ha
  have hk : st.uniqueParties countryCode partyId ≠ 0 := by
    intro e
    rw [e] at hreg
    exact hz hreg
  obtain ⟨_, hc, hp⟩ := h countryCode partyId hk
  rw [ea]
  exact Prod.ext hc hp

end Stale

/-- **A moved party leaves a stale key**: registered under `DE/MSP` and then under `FR/CPS`, the
    party still answers for `DE/MSP`; nobody else can take that key; and an admin who deletes
    `DE/MSP` removes the listing under `FR/CPS`. -/
theorem stale_key_after_move :
    let X := Sample.crypto []
    let st := Sample.deployment.run X
      [Sample.tx Sample.operator (.setNode Sample.domain),
        Sample.tx Sample.party (Sample.register Sample.party 0x4445 0x4D5350),
        Sample.tx Sample.party (Sample.register Sample.party 0x4652 0x435053)]
    ¬ NoStaleKeys st ∧ ¬ FreeKeysOpen X st ∧ ¬ AdminDeletesUnderKey st := by
  intro X st
  let party := Sample.party.address
  have howner : st.uniqueParties 0x4445 0x4D5350 = party := by decide +kernel
  have hkey : st.keyOf party = (0x4652, 0x435053) := by decide +kernel
  have hoperator : st.operatorOf = Function.update (Function.update (fun _ => 0) party
    Sample.operator.address) party Sample.operator.address := rfl
  have hreg : st.Registered party := by decide +kernel
  refine ⟨fun h => ?_, fun h => ?_, fun h => ?_⟩
  · have hcarried := (h 0x4445 0x4D5350 (by decide +kernel)).2.1
    rw [howner] at hcarried
    exact absurd hcarried (by decide +kernel)
  · -- the stranger asks for the old key, which only the moved party's entry keeps
    have hnone : ∀ a, st.Registered a → st.keyOf a ≠ (0x4445, 0x4D5350) := by
      intro a ha
      by_cases e : a = party
      · rw [e, hkey]
        decide
      · refine absurd ?_ ha
        rw [hoperator, Function.update_of_ne e, Function.update_of_ne e]
    have hacc := h Sample.stranger Sample.external 0x4445 0x4D5350
      (Sample.certificates Sample.stranger) Sample.operator.address [] [] Sample.stranger.address
      [.cpo] .pending (by decide) (by decide) (by decide) (by decide) (by decide +kernel) rfl rfl
      hnone
    obtain ⟨owner, verifiedRoles, status, hadmits⟩ := (accepts_setParty rfl).mp hacc
    have hvalid := hadmits.valid
    have hother : owner = Sample.stranger.address :=
      (congrArg Prod.fst (Except.ok.inj hvalid)).symm
    have hfree := hadmits.free
    rw [howner, hother] at hfree
    exact absurd hfree (by decide)
  · have hdel : st.adminDeleteParty Sample.admin.address 0x4445 0x4D5350 =
        .ok (st.clearParty (st.uniqueParties 0x4445 0x4D5350), _) :=
      adminDeleteParty_eq_ok.mpr ⟨rfl, deletePartyInternal_eq_ok.mpr
        ⟨by rw [howner]; exact hreg, by decide +kernel, rfl, rfl⟩⟩
    have hunder := h _ _ _ _ _ hdel party hreg (by
      rw [howner]
      exact not_registered_clearParty party)
    rw [hkey] at hunder
    exact absurd hunder (by decide)

/-- **When no key is stale**: a run has no stale key in any state exactly when none of its
    transactions moves a party away from a key that answers with it; and when, besides, none
    registers the zero address, then in every state every key nobody carries is open and admins
    delete no listing but one under the key they name. -/
theorem no_stale_keys_iff (X : Crypto) (D : Deployment) (ts : List Tx) :
    ((machine X).Throughout NoStaleKeys D.start ts ↔
      (machine X).Along (fun st t => ¬ LeavesStaleKey st t) D.start ts) ∧
    ((machine X).Along (fun st t => ¬ LeavesStaleKey st t ∧ ¬ RegistersZero st t) D.start ts →
      (machine X).Throughout
        (fun st => NoStaleKeys st ∧ FreeKeysOpen X st ∧ AdminDeletesUnderKey st) D.start ts) := by
  have hiff : (machine X).Throughout NoStaleKeys D.start ts ↔
      (machine X).Along (fun st t => ¬ LeavesStaleKey st t) D.start ts :=
    Machine.throughout_iff_along (M := machine X) (J := fun _ => True) (fun _ _ _ => trivial)
      (fun st t _ hI => noStaleKeys_iff.trans (noStale_step_iff (noStaleKeys_iff.mp hI))) ts
      trivial fun _ _ h => absurd rfl h
  refine ⟨hiff, fun h pre post e => ?_⟩
  have hstale : NoStaleKeys ((machine X).run D.start pre) :=
    hiff.mpr (Machine.along_mono (M := machine X) (fun _ _ hc => hc.1) h) pre post e
  rw [e] at h
  have hzero : (machine X).Along (fun st t => ¬ RegistersZero st t) D.start pre :=
    Machine.along_mono (M := machine X) (fun _ _ hc => hc.2) (Machine.along_append.mp h).1
  have hnobody : ¬ ((machine X).run D.start pre).Registered 0 := (partiesSound_run hzero).nobody
  exact ⟨hstale, freeKeysOpen_of_noStale hstale, adminDeletesUnderKey_of_noStale hstale hnobody⟩

end OcnRegistry

end Ocn
