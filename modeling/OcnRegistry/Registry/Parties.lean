/-
  File:      OcnRegistry/Registry/Parties.lean
  Subject:   PARTY LISTINGS: keys, flags and slots agree in every reachable state.

  The mappings behind `setParty` and `deleteParty` are two structures of Library/Roster.lean: a key
  index (`operatorOf` says who is listed, `partyOf` which key a party carries, `uniqueParties`
  which party a key answers with) and a slot table (`uniquePartyAddresses`, `partyIndex`,
  `parties`). `setParty` enters a member in both, `deleteParty` makes it leave both.

  * `partiesSound_run` -- the invariant, as long as no `setParty` succeeds for the zero address,
    which both structures use for "nobody";
  * `party_key_resolves` -- every registered party's key answers with it, so keys are distinct and
    both operator lookups agree;
  * `parties_listing` -- flags, indices and the array agree, and `getParties()` without its holes
    is every registered party once.
-/
import OcnRegistry.Library.Roster
import OcnRegistry.Registry.Run

namespace Ocn

open Transaction

namespace OcnRegistry

/-! ## 1. The key index and the slot table -/

/-- The party is registered. -/
def Registered (st : OcnRegistry) (a : Address) : Prop := st.operatorOf a ≠ 0

instance (st : OcnRegistry) (a : Address) : Decidable (st.Registered a) :=
  inferInstanceAs (Decidable (st.operatorOf a ≠ 0))

/-- The key a party's record carries. -/
def keyOf (st : OcnRegistry) (a : Address) : Bytes2 × Bytes3 :=
  ((st.partyOf a).countryCode, (st.partyOf a).partyId)

def keyIndex (st : OcnRegistry) : Roster.KeyIndex Address (Bytes2 × Bytes3) :=
  ⟨fun a => decide (st.operatorOf a ≠ 0), st.keyOf, fun k => st.uniqueParties k.1 k.2⟩

def slotTable (st : OcnRegistry) : Roster.SlotTable Address :=
  ⟨st.uniquePartyAddresses, fun a => (st.partyOf a).partyIndex, st.parties⟩

/-- The transaction is a `setParty` that succeeds for `owner` under this key and operator. -/
def SetsParty (st : OcnRegistry) (t : Tx) (owner : Address) (countryCode : Bytes2)
    (partyId : Bytes3) (operator : Address) : Prop :=
  ∃ roles name url verifiedRoles status,
    t.call = .setParty countryCode partyId roles operator name url ∧
    SetPartyAdmits st t.answers countryCode partyId roles operator owner verifiedRoles status

/-- The transaction registers the zero address. -/
def RegistersZero (st : OcnRegistry) (t : Tx) : Prop :=
  ∃ countryCode partyId operator, SetsParty st t 0 countryCode partyId operator

/-- The validator the registry asks never answers with the zero address. -/
def ValidatorNamesOwner (st : OcnRegistry) (t : Tx) : Prop :=
  ∀ roles verifiedRoles,
    t.answers.validateRegistration st.partyRegistrationValidator roles ≠ .ok (0, verifiedRoles)

/-- Everything the party functions write is as before. -/
structure SameParties (st st' : OcnRegistry) : Prop where
  uniqueParties : st'.uniqueParties = st.uniqueParties
  uniquePartyAddresses : st'.uniquePartyAddresses = st.uniquePartyAddresses
  partyOf : st'.partyOf = st.partyOf
  operatorOf : st'.operatorOf = st.operatorOf
  parties : st'.parties = st.parties

section Steps

variable {X : Crypto} {st st' : OcnRegistry} {t : Tx} {ev : List Event}

theorem live_keyIndex {a : Address} : st.keyIndex.live a = true ↔ st.Registered a :=
  decide_eq_true_iff (p := st.operatorOf a ≠ 0)

theorem not_registersZero (h : ValidatorNamesOwner st t) : ¬ RegistersZero st t := by
  intro hz
  obtain ⟨_, _, _, roles, _, _, verifiedRoles, _, _, hadmits⟩ := hz
  exact h roles verifiedRoles hadmits.valid

/-- A call is a `setParty` for at most one owner, key and operator. -/
theorem SetsParty.unique {owner owner' operator operator' : Address}
    {countryCode countryCode' : Bytes2} {partyId partyId' : Bytes3}
    (h : SetsParty st t owner countryCode partyId operator)
    (h' : SetsParty st t owner' countryCode' partyId' operator') :
    owner = owner' ∧ countryCode = countryCode' ∧ partyId = partyId' ∧ operator = operator' := by
  obtain ⟨roles, name, url, verifiedRoles, status, hcall, hadmits⟩ := h
  obtain ⟨roles', name', url', verifiedRoles', status', hcall', hadmits'⟩ := h'
  rw [hcall] at hcall'
  cases hcall'
  have hvalid := hadmits.valid.symm.trans hadmits'.valid
  cases hvalid
  exact ⟨rfl, rfl, rfl, rfl⟩

/-- **What a successful transaction does to the party tables**: it stores a record for the owner of
    the certificates, clears the record of a registered party, or leaves the tables alone. -/
theorem parties_step (h : exec X st t = .ok (st', ev)) :
    (∃ owner countryCode partyId operator verifiedRoles name url status,
      SetsParty st t owner countryCode partyId operator ∧
      st' = st.storeParty owner
        (st.newDetails countryCode partyId owner verifiedRoles name url status) operator) ∨
    (∃ party, DeletesParty st t party ∧ st.Registered party ∧ st' = st.clearParty party) ∨
    SameParties st st' := by
  cases change_of_exec h with
  | nodeSet => exact Or.inr (Or.inr ⟨rfl, rfl, rfl, rfl, rfl⟩)
  | nodeDeleted => exact Or.inr (Or.inr ⟨rfl, rfl, rfl, rfl, rfl⟩)
  | partySet countryCode partyId roles operator name url owner verifiedRoles status hcall ha =>
      exact Or.inl ⟨owner, countryCode, partyId, operator, verifiedRoles, name, url, status,
        ⟨roles, name, url, verifiedRoles, status, hcall, ha⟩, rfl⟩
  | partyDeleted party hask hlisted => exact Or.inr (Or.inl ⟨party, hask, hlisted, rfl⟩)
  | membersSet => exact Or.inr (Or.inr ⟨rfl, rfl, rfl, rfl, rfl⟩)
  | validatorSet => exact Or.inr (Or.inr ⟨rfl, rfl, rfl, rfl, rfl⟩)

/-- A `setParty` call succeeds exactly when its conditions hold. -/
theorem accepts_setParty {countryCode : Bytes2} {partyId : Bytes3} {roles : List RoleDetails}
    {operator : Address} {name url : Bytes}
    (h : t.call = .setParty countryCode partyId roles operator name url) :
    (machine X).Accepts st t ↔ ∃ owner verifiedRoles status, SetPartyAdmits st t.answers
      countryCode partyId roles operator owner verifiedRoles status := by
  refine ⟨fun hacc => ?_, fun hadmits => ?_⟩
  · obtain ⟨⟨st', ev⟩, hok⟩ := hacc
    have hset : st.setParty t.answers countryCode partyId roles operator name url =
        .ok (st', ev) := by
      have hexec : exec X st t = .ok (st', ev) := hok
      unfold exec at hexec
      rwa [h] at hexec
    obtain ⟨owner, verifiedRoles, status, hadmits, _⟩ := setParty_eq_ok.mp hset
    exact ⟨owner, verifiedRoles, status, hadmits⟩
  · obtain ⟨owner, verifiedRoles, status, hadmits⟩ := hadmits
    exact accepts_of_change (.partySet countryCode partyId roles operator name url owner
      verifiedRoles status h hadmits)

/-- The state after a `setParty` that succeeds. -/
theorem step_setsParty {owner operator : Address} {countryCode : Bytes2} {partyId : Bytes3}
    (h : SetsParty st t owner countryCode partyId operator) :
    ∃ verifiedRoles name url status, (machine X).step st t = st.storeParty owner
      (st.newDetails countryCode partyId owner verifiedRoles name url status) operator := by
  obtain ⟨roles, name, url, verifiedRoles, status, hcall, hadmits⟩ := h
  exact ⟨verifiedRoles, name, url, status, step_of_change (.partySet countryCode partyId roles
    operator name url owner verifiedRoles status hcall hadmits)⟩

/-- Whoever asks for a deletion, it is the same one. -/
theorem exec_deletesParty {party : Address} (h : DeletesParty st t party) :
    exec X st t = st.deletePartyInternal party := by
  unfold exec
  cases h with
  | direct hcall =>
      rw [hcall]
      rfl
  | admin hcall hadmin =>
      rw [hcall]
      show st.adminDeleteParty t.sender.address _ _ = _
      unfold adminDeleteParty RoleMembers.onlyRole
      rw [if_pos hadmin]
      rfl

/-- The state after a deletion. -/
theorem step_deletesParty {party : Address} (h : DeletesParty st t party) :
    (machine X).step st t = st ∨
      (st.Registered party ∧ (machine X).step st t = st.clearParty party) := by
  rcases Machine.step_cases (machine X) st t with e | ⟨st', ev, hok, e⟩
  · exact Or.inl e
  · have hdel : st.deletePartyInternal party = .ok (st', ev) := (exec_deletesParty h).symm.trans hok
    obtain ⟨hr, _, hst, _⟩ := deletePartyInternal_eq_ok.mp hdel
    exact Or.inr ⟨hr, e.trans hst⟩

theorem SetsParty.operator_ne {owner operator : Address} {countryCode : Bytes2} {partyId : Bytes3}
    (h : SetsParty st t owner countryCode partyId operator) : operator ≠ 0 := by
  obtain ⟨_, _, _, _, _, _, hadmits⟩ := h
  exact hadmits.someOperator

theorem SetsParty.free {owner operator : Address} {countryCode : Bytes2} {partyId : Bytes3}
    (h : SetsParty st t owner countryCode partyId operator) :
    st.uniqueParties countryCode partyId = 0 ∨ st.uniqueParties countryCode partyId = owner := by
  obtain ⟨_, _, _, _, _, _, hadmits⟩ := h
  exact hadmits.free

/-! ## 2. What the writes do to both structures -/

theorem registered_storeParty_self {a operator : Address} {details : PartyDetails}
    (ho : operator ≠ 0) : (st.storeParty a details operator).Registered a := by
  unfold Registered
  rw [storeParty_operatorOf, Function.update_self]
  exact ho

theorem registered_storeParty_ne {a b operator : Address} {details : PartyDetails} (h : b ≠ a) :
    (st.storeParty a details operator).Registered b ↔ st.Registered b := by
  unfold Registered
  rw [storeParty_operatorOf, Function.update_of_ne h]

theorem not_registered_clearParty (a : Address) : ¬ (st.clearParty a).Registered a := by
  unfold Registered
  rw [clearParty_operatorOf, Function.update_self]
  exact fun h => h rfl

theorem registered_clearParty_ne {a b : Address} (h : b ≠ a) :
    (st.clearParty a).Registered b ↔ st.Registered b := by
  unfold Registered
  rw [clearParty_operatorOf, Function.update_of_ne h]

theorem setUniqueParty_eq (st : OcnRegistry) (k : Bytes2 × Bytes3) (owner : Address) :
    (fun k' : Bytes2 × Bytes3 => st.setUniqueParty k.1 k.2 owner k'.1 k'.2) =
      Function.update (fun k' : Bytes2 × Bytes3 => st.uniqueParties k'.1 k'.2) k owner := by
  funext k'
  by_cases e : k' = k
  · rw [e, Function.update_self, setUniqueParty_self]
  · rw [Function.update_of_ne e, setUniqueParty_ne st owner e]

theorem keyIndex_storeParty {owner operator : Address} {details : PartyDetails}
    (ho : operator ≠ 0) : (st.storeParty owner details operator).keyIndex =
      st.keyIndex.assign owner (details.countryCode, details.partyId) := by
  have hlive : (fun a => decide ((st.storeParty owner details operator).operatorOf a ≠ 0)) =
      Function.update (fun a => decide (st.operatorOf a ≠ 0)) owner true := by
    rw [← decide_eq_true ho]
    exact Function.comp_update (fun o : Address => decide (o ≠ 0)) st.operatorOf owner operator
  have hkey : (st.storeParty owner details operator).keyOf =
      Function.update st.keyOf owner (details.countryCode, details.partyId) :=
    Function.comp_update (fun d : PartyDetails => (d.countryCode, d.partyId)) st.partyOf owner
      details
  have howner := setUniqueParty_eq st (details.countryCode, details.partyId) owner
  unfold keyIndex Roster.KeyIndex.assign
  rw [hlive, hkey, storeParty_uniqueParties, howner]

theorem keyIndex_clearParty (party : Address) :
    (st.clearParty party).keyIndex = st.keyIndex.remove 0 (0, 0) party := by
  have hlive : (fun a => decide ((st.clearParty party).operatorOf a ≠ 0)) =
      Function.update (fun a => decide (st.operatorOf a ≠ 0)) party false :=
    Function.comp_update (fun o : Address => decide (o ≠ 0)) st.operatorOf party 0
  have hkey : (st.clearParty party).keyOf = Function.update st.keyOf party (0, 0) :=
    Function.comp_update (fun d : PartyDetails => (d.countryCode, d.partyId)) st.partyOf party
      PartyDetails.zero
  have howner := setUniqueParty_eq st (st.keyOf party) 0
  dsimp only [keyOf] at howner
  unfold keyIndex Roster.KeyIndex.remove
  rw [hlive, hkey, clearParty_uniqueParties, howner]
  rfl

theorem slotTable_storeParty {owner operator : Address} {details : PartyDetails}
    (hi : details.partyIndex =
      if st.uniquePartyAddresses owner then (st.partyOf owner).partyIndex else st.parties.length) :
    (st.storeParty owner details operator).slotTable = st.slotTable.enter owner := by
  have hslot : (fun a => ((st.storeParty owner details operator).partyOf a).partyIndex) =
      Function.update (fun a => (st.partyOf a).partyIndex) owner details.partyIndex :=
    Function.comp_update (fun d : PartyDetails => d.partyIndex) st.partyOf owner details
  unfold slotTable Roster.SlotTable.enter
  rw [hslot, hi]
  rfl

theorem slotTable_clearParty (party : Address) :
    (st.clearParty party).slotTable = st.slotTable.leave 0 party := by
  have hslot : (fun a => ((st.clearParty party).partyOf a).partyIndex) =
      Function.update (fun a => (st.partyOf a).partyIndex) party 0 :=
    Function.comp_update (fun d : PartyDetails => d.partyIndex) st.partyOf party PartyDetails.zero
  unfold slotTable Roster.SlotTable.leave
  rw [hslot]
  rfl

theorem SameParties.keyOf (h : SameParties st st') : st'.keyOf = st.keyOf := by
  funext a
  simp only [OcnRegistry.keyOf, h.partyOf]

theorem SameParties.keyIndex (h : SameParties st st') : st'.keyIndex = st.keyIndex := by
  simp only [OcnRegistry.keyIndex, h.keyOf, h.operatorOf, h.uniqueParties]

theorem SameParties.slotTable (h : SameParties st st') : st'.slotTable = st.slotTable := by
  unfold OcnRegistry.slotTable
  rw [h.uniquePartyAddresses, h.partyOf, h.parties]

/-! ## 3. The invariant -/

/-- **Keys, flags and slots agree.** -/
structure PartiesSound (st : OcnRegistry) : Prop where
  keys : st.keyIndex.Sound 0
  slots : st.slotTable.Sound 0
  flagged : ∀ a, st.uniquePartyAddresses a = true ↔ st.Registered a
  active : ∀ a, (st.partyOf a).active = true ↔ st.Registered a

theorem not_registered_start (D : Deployment) (a : Address) : ¬ D.start.Registered a :=
  fun h => h rfl

/-- The zero address is not registered. -/
theorem PartiesSound.nobody (hI : st.PartiesSound) : ¬ st.Registered 0 := by
  intro h
  have hlive := live_keyIndex.mpr h
  rw [hI.keys.nobody] at hlive
  cases hlive

theorem partiesSound_start (D : Deployment) : PartiesSound D.start where
  keys := by
    refine ⟨fun a h => ?_, rfl⟩
    exact absurd (live_keyIndex.mp h) (not_registered_start D a)
  slots := ⟨fun _ h => (by cases h), fun _ _ h => (by cases h)⟩
  flagged := fun a => iff_of_false Bool.false_ne_true (not_registered_start D a)
  active := fun a => iff_of_false Bool.false_ne_true (not_registered_start D a)

/-- Flags and registrations agree after a registration. -/
theorem flagged_storeParty {owner operator : Address} {details : PartyDetails} (ho : operator ≠ 0)
    (h : ∀ a, st.uniquePartyAddresses a = true ↔ st.Registered a) (a : Address) :
    (st.storeParty owner details operator).uniquePartyAddresses a = true ↔
      (st.storeParty owner details operator).Registered a := by
  show Function.update st.uniquePartyAddresses owner true a = true ↔ _
  by_cases e : a = owner
  · subst e
    exact iff_of_true (by simp) (registered_storeParty_self ho)
  · rw [Function.update_of_ne e, registered_storeParty_ne e]
    exact h a

theorem active_storeParty {owner operator : Address} {details : PartyDetails} (ho : operator ≠ 0)
    (hactive : details.active = true)
    (h : ∀ a, (st.partyOf a).active = true ↔ st.Registered a) (a : Address) :
    ((st.storeParty owner details operator).partyOf a).active = true ↔
      (st.storeParty owner details operator).Registered a := by
  rw [storeParty_partyOf]
  by_cases e : a = owner
  · subst e
    exact iff_of_true (by simp [hactive]) (registered_storeParty_self ho)
  · rw [Function.update_of_ne e, registered_storeParty_ne e]
    exact h a

/-- Flags and registrations agree after a deletion. -/
theorem flagged_clearParty (party : Address)
    (h : ∀ a, st.uniquePartyAddresses a = true ↔ st.Registered a) (a : Address) :
    (st.clearParty party).uniquePartyAddresses a = true ↔ (st.clearParty party).Registered a := by
  show Function.update st.uniquePartyAddresses party false a = true ↔ _
  by_cases e : a = party
  · subst e
    exact iff_of_false (by simp) (not_registered_clearParty a)
  · rw [Function.update_of_ne e, registered_clearParty_ne e]
    exact h a

theorem active_clearParty (party : Address)
    (h : ∀ a, (st.partyOf a).active = true ↔ st.Registered a) (a : Address) :
    ((st.clearParty party).partyOf a).active = true ↔ (st.clearParty party).Registered a := by
  rw [clearParty_partyOf]
  by_cases e : a = party
  · subst e
    exact iff_of_false (by simp [PartyDetails.zero]) (not_registered_clearParty a)
  · rw [Function.update_of_ne e, registered_clearParty_ne e]
    exact h a

theorem PartiesSound.storeParty (hI : st.PartiesSound) {owner operator : Address}
    {details : PartyDetails} (hz : owner ≠ 0) (ho : operator ≠ 0)
    (hfree : st.uniqueParties details.countryCode details.partyId = 0 ∨
      st.uniqueParties details.countryCode details.partyId = owner)
    (hi : details.partyIndex =
      if st.uniquePartyAddresses owner then (st.partyOf owner).partyIndex else st.parties.length)
    (hactive : details.active = true) : (st.storeParty owner details operator).PartiesSound where
  keys := by
    rw [keyIndex_storeParty ho]
    exact hI.keys.assign hz hfree
  slots := by
    rw [slotTable_storeParty hi]
    exact hI.slots.enter
  flagged := flagged_storeParty ho hI.flagged
  active := active_storeParty ho hactive hI.active

theorem PartiesSound.clearParty (hI : st.PartiesSound) {party : Address}
    (hr : st.Registered party) : (st.clearParty party).PartiesSound where
  keys := by
    rw [keyIndex_clearParty]
    exact hI.keys.remove (live_keyIndex.mpr hr)
  slots := by
    rw [slotTable_clearParty]
    exact hI.slots.leave ((hI.flagged party).mpr hr)
  flagged := flagged_clearParty party hI.flagged
  active := active_clearParty party hI.active

theorem PartiesSound.congr (hI : st.PartiesSound) (h : SameParties st st') :
    st'.PartiesSound where
  keys := h.keyIndex ▸ hI.keys
  slots := h.slotTable ▸ hI.slots
  flagged := by
    unfold Registered
    rw [h.uniquePartyAddresses, h.operatorOf]
    exact hI.flagged
  active := by
    unfold Registered
    rw [h.partyOf, h.operatorOf]
    exact hI.active

/-- **One step**: a transaction that does not register the zero address keeps the invariant. -/
theorem partiesSound_step (hI : st.PartiesSound) (hz : ¬ RegistersZero st t)
    (h : exec X st t = .ok (st', ev)) : st'.PartiesSound := by
  rcases parties_step h with ⟨owner, countryCode, partyId, operator, verifiedRoles, name, url,
      status, hset, e⟩ | ⟨party, _, hr, e⟩ | hsame
  · have howner : owner ≠ 0 := by
      intro e0
      rw [e0] at hset
      exact hz ⟨countryCode, partyId, operator, hset⟩
    rw [e]
    exact hI.storeParty howner hset.operator_ne hset.free rfl rfl
  · rw [e]
    exact hI.clearParty hr
  · exact hI.congr hsame

theorem partiesSound_run {D : Deployment} {ts : List Tx}
    (h : (machine X).Along (fun st t => ¬ RegistersZero st t) D.start ts) :
    (D.run X ts).PartiesSound :=
  Machine.run_invariant (M := machine X) (fun _ _ _ _ hI hz h => partiesSound_step hI hz h) h
    (partiesSound_start D)

theorem partiesSound_run_of_validator {D : Deployment} {ts : List Tx}
    (h : (machine X).Along ValidatorNamesOwner D.start ts) : (D.run X ts).PartiesSound :=
  partiesSound_run (Machine.along_mono (M := machine X) (fun _ _ h => not_registersZero h) h)

end Steps

/-! ## 4. Keys and listings -/

/-- The sample validator rejects a certificate without an owner. -/
theorem sample_namesOwner (st : OcnRegistry) (sender : Account) (call : Call) :
    ValidatorNamesOwner st (Sample.tx sender call) := by
  intro roles verifiedRoles h
  unfold Sample.tx Sample.external at h
  dsimp only at h
  split at h
  · cases h
  · rename_i hne
    exact hne (congrArg Prod.fst (Except.ok.inj h))

theorem registrations_namesOwner {X : Crypto} {st : OcnRegistry} :
    (machine X).Along ValidatorNamesOwner st Sample.registrations :=
  ⟨sample_namesOwner _ _ _, sample_namesOwner _ _ _, sample_namesOwner _ _ _,
    sample_namesOwner _ _ _, trivial⟩

/-- **Keys are unique and resolve**: in every reachable state, every registered party's key answers
    with it; no two registered parties have the same key; and looking a registered party's operator
    up by its key or by its address is the same. -/
theorem party_key_resolves (X : Crypto) (D : Deployment) (ts : List Tx)
    (hv : (machine X).Along ValidatorNamesOwner D.start ts) :
    (∀ a, (D.run X ts).operatorOf a ≠ 0 →
      (D.run X ts).uniqueParties ((D.run X ts).partyOf a).countryCode
        ((D.run X ts).partyOf a).partyId = a) ∧
    (∀ a b, a ≠ b → (D.run X ts).operatorOf a ≠ 0 → (D.run X ts).operatorOf b ≠ 0 →
      ¬ (((D.run X ts).partyOf a).countryCode = ((D.run X ts).partyOf b).countryCode ∧
        ((D.run X ts).partyOf a).partyId = ((D.run X ts).partyOf b).partyId)) ∧
    ∀ a, (D.run X ts).operatorOf a ≠ 0 →
      (D.run X ts).getOperatorByOcpi ((D.run X ts).partyOf a).countryCode
        ((D.run X ts).partyOf a).partyId = (D.run X ts).getOperatorByAddress a := by
  have hI := partiesSound_run_of_validator hv
  have hkey : ∀ a, (D.run X ts).operatorOf a ≠ 0 →
      (D.run X ts).uniqueParties ((D.run X ts).partyOf a).countryCode
        ((D.run X ts).partyOf a).partyId = a :=
    fun a ha => hI.keys.resolves a (live_keyIndex.mpr ha)
  refine ⟨hkey, fun a b hab ha hb hk => ?_, fun a ha => ?_⟩
  · have hkeys : (D.run X ts).keyOf a = (D.run X ts).keyOf b := Prod.ext hk.1 hk.2
    exact hab (hI.keys.key_injective (live_keyIndex.mpr ha) (live_keyIndex.mpr hb) hkeys)
  · rw [getOperatorByOcpi_eq, hkey a ha]

/-- A party that is registered, deleted and registered again under another key. -/
theorem party_key_resolves_again :
    let st := Sample.deployment.run (Sample.crypto []) Sample.registrations
    st.getOperatorByOcpi 0x4652 0x435053 = st.getOperatorByAddress Sample.party.address := by
  intro st
  have hkey : (st.partyOf Sample.party.address).countryCode = 0x4652 ∧
      (st.partyOf Sample.party.address).partyId = 0x435053 := by decide +kernel
  have h := (party_key_resolves (Sample.crypto []) Sample.deployment Sample.registrations
    registrations_namesOwner).2.2 Sample.party.address (by decide +kernel)
  rwa [hkey.1, hkey.2] at h

/-- **The array and the records agree**: in every reachable state, `uniquePartyAddresses`,
    `operatorOf` and `active` say the same; every registered party's index is that of its entry;
    every entry that is not zero is a registered party with that index; and so `getParties()`
    without its zero entries is every registered party once and nothing else. -/
theorem parties_listing (X : Crypto) (D : Deployment) (ts : List Tx)
    (hv : (machine X).Along ValidatorNamesOwner D.start ts) :
    (∀ a, ((D.run X ts).uniquePartyAddresses a = true ↔ (D.run X ts).operatorOf a ≠ 0) ∧
      ((D.run X ts).operatorOf a ≠ 0 ↔ ((D.run X ts).partyOf a).active = true)) ∧
    (∀ a, (D.run X ts).operatorOf a ≠ 0 →
      ((D.run X ts).partyOf a).partyIndex < (D.run X ts).parties.length ∧
      (D.run X ts).parties[((D.run X ts).partyOf a).partyIndex]? = some a) ∧
    (∀ (i : Nat) a, (D.run X ts).parties[i]? = some a → a ≠ 0 →
      (D.run X ts).operatorOf a ≠ 0 ∧ ((D.run X ts).partyOf a).partyIndex = i) ∧
    ((D.run X ts).getParties.filter fun a => decide (a ≠ 0)).Nodup ∧
    ∀ a, a ∈ ((D.run X ts).getParties.filter fun a => decide (a ≠ 0)) ↔
      (D.run X ts).operatorOf a ≠ 0 := by
  have hI := partiesSound_run_of_validator hv
  have hnobody : (D.run X ts).slotTable.live 0 = false :=
    Bool.eq_false_iff.mpr fun hl => hI.nobody ((hI.flagged 0).mp hl)
  refine ⟨fun a => ⟨hI.flagged a, (hI.active a).symm⟩, fun a ha => ?_, fun i a hi hz => ?_,
    hI.slots.listing_nodup, fun a => ?_⟩
  · have hl := (hI.flagged a).mpr ha
    exact ⟨hI.slots.slot_lt hl, hI.slots.atSlot a hl⟩
  · obtain ⟨hl, hslot⟩ := hI.slots.atIndex i a hi hz
    exact ⟨(hI.flagged a).mp hl, hslot⟩
  · exact (hI.slots.mem_listing hnobody).trans (hI.flagged a)

/-- The same run: the entry of the first registration is a hole, that of the second is listed. -/
theorem parties_listing_again :
    let st := Sample.deployment.run (Sample.crypto []) Sample.registrations
    st.getParties = [0, Sample.party.address] ∧
      (st.getParties.filter fun a => decide (a ≠ 0)).Nodup := by
  intro st
  exact ⟨by decide +kernel, (parties_listing (Sample.crypto []) Sample.deployment
    Sample.registrations registrations_namesOwner).2.2.2.1⟩

end OcnRegistry

end Ocn
