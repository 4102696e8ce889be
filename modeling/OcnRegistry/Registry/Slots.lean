/-
  File:      OcnRegistry/Registry/Slots.lean
  Subject:   THE PARTIES ARRAY, WHOEVER IS REGISTERED: what holds of it in every reachable state.

  The key map breaks when the zero address is registered (Registry/Frame.lean); flags, indices and
  the array do not. The zero address then has a slot like everybody else, only that its entry looks
  like the hole a deletion leaves.

  * `partyStep` -- what a transaction does to the party tables: it registers, it deletes, or it
    leaves them as they are and asked for neither with success;
  * `records_step_iff` -- when a step keeps what holds of every registered party's record;
  * `arraySound_run` -- flags, indices and array agree, and unlisted records are blank, in every
    reachable state;
  * `zeroListedOnce_step_iff` -- when the zero address, once registered, stops having one entry.
-/
import OcnRegistry.Registry.Parties

namespace Ocn

open Transaction

namespace OcnRegistry

/-! ## 1. The invariant -/

/-- **Flags, indices and array agree**, and the record of an address that is no party is blank. -/
structure ArraySound (st : OcnRegistry) : Prop where
  slots : st.slotTable.Sound 0
  flagged : ∀ a, st.uniquePartyAddresses a = true ↔ st.Registered a
  active : ∀ a, (st.partyOf a).active = true ↔ st.Registered a
  blank : ∀ a, ¬ st.Registered a → st.partyOf a = PartyDetails.zero

section Array

variable {X : Crypto} {st st' : OcnRegistry} {t : Tx} {ev : List Event} {a : Address}

theorem arraySound_start (D : Deployment) : D.start.ArraySound where
  slots := (partiesSound_start D).slots
  flagged := (partiesSound_start D).flagged
  active := (partiesSound_start D).active
  blank := fun _ _ => rfl

theorem ArraySound.storeParty (hI : st.ArraySound) {owner operator : Address}
    {details : PartyDetails} (ho : operator ≠ 0)
    (hi : details.partyIndex =
      if st.uniquePartyAddresses owner then (st.partyOf owner).partyIndex else st.parties.length)
    (hactive : details.active = true) : (st.storeParty owner details operator).ArraySound where
  slots := by
    rw [slotTable_storeParty hi]
    exact hI.slots.enter
  flagged := flagged_storeParty ho hI.flagged
  active := active_storeParty ho hactive hI.active
  blank := by
    intro b hb
    have e : b ≠ owner := fun e => hb (e ▸ registered_storeParty_self ho)
    rw [storeParty_partyOf, Function.update_of_ne e]
    exact hI.blank b fun hr => hb ((registered_storeParty_ne e).mpr hr)

theorem ArraySound.clearParty (hI : st.ArraySound) {party : Address} (hr : st.Registered party) :
    (st.clearParty party).ArraySound where
  slots := by
    rw [slotTable_clearParty]
    exact hI.slots.leave ((hI.flagged party).mpr hr)
  flagged := flagged_clearParty party hI.flagged
  active := active_clearParty party hI.active
  blank := by
    intro b hb
    rw [clearParty_partyOf]
    by_cases e : b = party
    · rw [e, Function.update_self]
    · rw [Function.update_of_ne e]
      exact hI.blank b fun hr => hb ((registered_clearParty_ne e).mpr hr)

theorem ArraySound.congr (hI : st.ArraySound) (h : SameParties st st') : st'.ArraySound := by
  have hr : st'.Registered = st.Registered := by
    funext b
    simp only [Registered, h.operatorOf]
  constructor
  · rw [h.slotTable]
    exact hI.slots
  · rw [h.uniquePartyAddresses, hr]
    exact hI.flagged
  · rw [h.partyOf, hr]
    exact hI.active
  · rw [h.partyOf, hr]
    exact hI.blank

theorem arraySound_exec (hI : st.ArraySound) (h : exec X st t = .ok (st', ev)) :
    st'.ArraySound := by
  rcases parties_step h with ⟨owner, countryCode, partyId, operator, verifiedRoles, name, url,
      status, hset, e⟩ | ⟨party, _, hr, e⟩ | hsame
  · rw [e]
    exact hI.storeParty hset.operator_ne rfl rfl
  · rw [e]
    exact hI.clearParty hr
  · exact hI.congr hsame

theorem arraySound_step (hI : st.ArraySound) : ((machine X).step st t).ArraySound :=
  Machine.step_preserves (M := machine X) hI fun _ _ hok => arraySound_exec hI hok

/-- **In every reachable state**, whoever is registered. -/
theorem arraySound_run (X : Crypto) (D : Deployment) (ts : List Tx) : (D.run X ts).ArraySound :=
  Machine.run_invariant_all (M := machine X) (fun _ _ _ _ hI h => arraySound_exec hI h) ts
    (arraySound_start D)

/-- The entry of a registered party, at its index. -/
theorem ArraySound.entry (hI : st.ArraySound) (ha : st.Registered a) :
    st.parties[(st.partyOf a).partyIndex]? = some a :=
  hI.slots.atSlot a ((hI.flagged a).mpr ha)

theorem ArraySound.mem_parties (hI : st.ArraySound) (ha : st.Registered a) : a ∈ st.parties :=
  List.mem_of_getElem? (hI.entry ha)

/-- An entry that is not zero is a registered party. -/
theorem ArraySound.registered_of_mem (hI : st.ArraySound) (ha : a ∈ st.parties) (hz : a ≠ 0) :
    st.Registered a := by
  obtain ⟨i, hi⟩ := List.mem_iff_getElem?.mp ha
  exact (hI.flagged a).mp (hI.slots.atIndex i a hi hz).1

/-- The entries that are not zero are listed once. -/
theorem ArraySound.count_le_one (hI : st.ArraySound) (hz : a ≠ 0) : st.parties.count a ≤ 1 := by
  have hnodup := hI.slots.listing_nodup
  have hcount : (st.slotTable.listing 0).count a = st.parties.count a :=
    List.count_filter (by simpa using hz)
  rw [← hcount]
  exact List.nodup_iff_count_le_one.mp hnodup a

/-! ## 2. What a transaction does to the party tables -/

/-- A call deletes at most one party. -/
theorem DeletesParty.unique {p q : Address} (h : DeletesParty st t p) (h' : DeletesParty st t q) :
    p = q := by
  cases h with
  | direct hc =>
      cases h' with
      | direct => rfl
      | admin hc' => rw [hc] at hc'; cases hc'
  | admin hc =>
      cases h' with
      | direct hc' => rw [hc] at hc'; cases hc'
      | admin hc' => rw [hc] at hc'; cases hc'; rfl

/-- A call that registers somebody deletes nobody. -/
theorem SetsParty.not_deletes {owner operator p : Address} {countryCode : Bytes2}
    {partyId : Bytes3} (h : SetsParty st t owner countryCode partyId operator) :
    ¬ DeletesParty st t p := by
  obtain ⟨_, _, _, _, _, hcall, _⟩ := h
  intro hdel
  cases hdel with
  | direct hc => rw [hcall] at hc; cases hc
  | admin hc => rw [hcall] at hc; cases hc

/-- The transaction deletes the listing of a registered party. -/
def RemovesParty (st : OcnRegistry) (t : Tx) (party : Address) : Prop :=
  DeletesParty st t party ∧ st.Registered party

/-- **The steps of the party tables.** -/
inductive PartyStep (X : Crypto) (st : OcnRegistry) (t : Tx) : Prop where
  | set (countryCode : Bytes2) (partyId : Bytes3) (roles : List RoleDetails) (operator : Address)
      (name url : Bytes) (owner : Address) (verifiedRoles : List Role) (status : PaymentStatus)
      (hcall : t.call = .setParty countryCode partyId roles operator name url)
      (hadmits : SetPartyAdmits st t.answers countryCode partyId roles operator owner verifiedRoles
        status)
      (hstep : (machine X).step st t = st.storeParty owner
        (st.newDetails countryCode partyId owner verifiedRoles name url status) operator) :
      PartyStep X st t
  | removed (party : Address) (hdel : RemovesParty st t party)
      (hstep : (machine X).step st t = st.clearParty party) : PartyStep X st t
  | same
      (hset : ∀ owner countryCode partyId operator,
        ¬ SetsParty st t owner countryCode partyId operator)
      (hdel : ∀ party, ¬ RemovesParty st t party)
      (hsame : SameParties st ((machine X).step st t)) : PartyStep X st t

theorem SameParties.refl (st : OcnRegistry) : SameParties st st := ⟨rfl, rfl, rfl, rfl, rfl⟩

/-- The deletion of a registered party succeeds: its index is that of its entry. -/
theorem step_removesParty (hI : st.ArraySound) {party : Address} (h : RemovesParty st t party) :
    (machine X).step st t = st.clearParty party := by
  have hindex : (st.partyOf party).partyIndex < st.parties.length :=
    hI.slots.slot_lt ((hI.flagged party).mpr h.2)
  exact step_of_change (.partyDeleted party h.1 h.2 hindex)

/-- **One step**: a transaction registers a party, deletes one, or does neither and leaves the
    tables as they are. -/
theorem partyStep (hI : st.ArraySound) : PartyStep X st t := by
  by_cases hset : ∃ owner countryCode partyId operator,
      SetsParty st t owner countryCode partyId operator
  · obtain ⟨owner, countryCode, partyId, operator, roles, name, url, verifiedRoles, status, hcall,
      hadmits⟩ := hset
    exact .set countryCode partyId roles operator name url owner verifiedRoles status hcall hadmits
      (step_of_change (.partySet countryCode partyId roles operator name url owner verifiedRoles
        status hcall hadmits))
  by_cases hdel : ∃ party, RemovesParty st t party
  · obtain ⟨party, hdel⟩ := hdel
    exact .removed party hdel (step_removesParty hI hdel)
  refine .same (fun owner countryCode partyId operator h => hset ⟨owner, _, _, _, h⟩)
    (fun party h => hdel ⟨party, h⟩) ?_
  rcases Machine.step_cases (machine X) st t with e | ⟨st', ev, hok, e⟩
  · rw [e]
    exact SameParties.refl st
  rw [e]
  rcases parties_step hok with ⟨owner, countryCode, partyId, operator, _, _, _, _, h, _⟩ |
      ⟨party, h, hr, _⟩ | hsame
  · exact absurd ⟨owner, countryCode, partyId, operator, h⟩ hset
  · exact absurd ⟨party, h, hr⟩ hdel
  · exact hsame

/-- The transaction stores this record for the owner of its certificates. -/
def StoresRecord (st : OcnRegistry) (t : Tx) (owner : Address) (details : PartyDetails) : Prop :=
  ∃ countryCode partyId roles operator name url verifiedRoles status,
    t.call = .setParty countryCode partyId roles operator name url ∧
    SetPartyAdmits st t.answers countryCode partyId roles operator owner verifiedRoles status ∧
    details = st.newDetails countryCode partyId owner verifiedRoles name url status

theorem StoresRecord.setsParty {details : PartyDetails} (h : StoresRecord st t a details) :
    ∃ operator, SetsParty st t a details.countryCode details.partyId operator := by
  obtain ⟨countryCode, partyId, roles, operator, name, url, verifiedRoles, status, hcall, hadmits,
    rfl⟩ := h
  exact ⟨operator, roles, name, url, verifiedRoles, status, hcall, hadmits⟩

/-- **What holds of every registered party's record** holds after a step exactly if it holds of the
    record the step stores. -/
theorem records_step_iff {P : Address → PartyDetails → Prop} (hI : st.ArraySound)
    (h : ∀ a, st.Registered a → P a (st.partyOf a)) :
    (∀ a, ((machine X).step st t).Registered a → P a (((machine X).step st t).partyOf a)) ↔
      ∀ owner details, StoresRecord st t owner details → P owner details := by
  cases partyStep (X := X) (t := t) hI with
  | set countryCode partyId roles operator name url owner verifiedRoles status hcall hadmits
      hstep =>
      rw [hstep]
      refine ⟨fun hstored owner' details hstores => ?_, fun hgood a ha => ?_⟩
      · obtain ⟨_, _, _, _, _, _, verifiedRoles', status', hcall', hadmits', rfl⟩ := hstores
        rw [hcall] at hcall'
        cases hcall'
        cases hadmits.valid.symm.trans hadmits'.valid
        cases hadmits.payment.symm.trans hadmits'.payment
        have hown := hstored owner (registered_storeParty_self hadmits.someOperator)
        rwa [storeParty_partyOf, Function.update_self] at hown
      · rw [storeParty_partyOf]
        by_cases e : a = owner
        · rw [e, Function.update_self]
          exact hgood owner _ ⟨countryCode, partyId, roles, operator, name, url, verifiedRoles,
            status, hcall, hadmits, rfl⟩
        · rw [Function.update_of_ne e]
          exact h a ((registered_storeParty_ne e).mp ha)
  | removed party hdel hstep =>
      rw [hstep]
      refine iff_of_true (fun a ha => ?_) fun owner details hstores => ?_
      · have e : a ≠ party := fun e => not_registered_clearParty party (e ▸ ha)
        rw [clearParty_partyOf, Function.update_of_ne e]
        exact h a ((registered_clearParty_ne e).mp ha)
      · obtain ⟨_, hset⟩ := hstores.setsParty
        exact absurd hdel.1 hset.not_deletes
  | same hset _ hsame =>
      refine iff_of_true (fun a ha => ?_) fun owner details hstores => ?_
      · unfold Registered at ha
        rw [hsame.operatorOf] at ha
        rw [hsame.partyOf]
        exact h a ha
      · obtain ⟨_, hset'⟩ := hstores.setsParty
        exact absurd hset' (hset _ _ _ _)

/-! ## 3. Holes -/

/-- The array after a deletion has one zero more, unless it was the zero address that left. -/
theorem count_zero_clearParty (hI : st.ArraySound) {party : Address} (hr : st.Registered party)
    (hz : party ≠ 0) : (st.clearParty party).parties.count 0 = st.parties.count 0 + 1 := by
  have hlt : (st.partyOf party).partyIndex < st.parties.length :=
    hI.slots.slot_lt ((hI.flagged party).mpr hr)
  have hat : st.parties[(st.partyOf party).partyIndex] = party :=
    (List.getElem?_eq_some_iff.mp (hI.entry hr)).2
  show (st.parties.set (st.partyOf party).partyIndex 0).count 0 = _
  rw [List.count_set hlt, hat, if_neg (fun h => hz (beq_iff_eq.mp h)), if_pos (beq_self_eq_true _),
    Nat.sub_zero]

/-- The array after a registration. -/
theorem count_zero_storeParty {owner operator : Address} {details : PartyDetails} :
    (st.storeParty owner details operator).parties.count 0 =
      st.parties.count 0 + (if owner = 0 ∧ st.uniquePartyAddresses 0 = false then 1 else 0) := by
  show (if st.uniquePartyAddresses owner then st.parties else st.parties ++ [owner]).count 0 = _
  by_cases hz : owner = 0
  · subst hz
    cases st.uniquePartyAddresses 0 <;> simp
  · have hsingle : [owner].count 0 = 0 :=
      List.count_eq_zero.mpr fun hmem => hz (List.mem_singleton.mp hmem).symm
    have hnone : ¬ (owner = 0 ∧ st.uniquePartyAddresses 0 = false) := fun h => hz h.1
    rw [if_neg hnone]
    cases st.uniquePartyAddresses owner with
    | true => rfl
    | false =>
        rw [if_neg Bool.false_ne_true, List.count_append, hsingle]

/-- A zero entry never goes away. -/
theorem zero_mem_step (h : (0 : Address) ∈ st.parties) :
    (0 : Address) ∈ ((machine X).step st t).parties := by
  refine Machine.step_preserves (M := machine X) (I := fun st => (0 : Address) ∈ st.parties) h
    fun st' ev hok => ?_
  rcases parties_step hok with ⟨owner, countryCode, partyId, operator, _, _, _, _, hset, e⟩ |
      ⟨party, _, hr, e⟩ | hsame
  · rw [e]
    have hcount : 0 < st.parties.count 0 := List.count_pos_iff.mpr h
    refine List.count_pos_iff.mp ?_
    rw [count_zero_storeParty]
    omega
  · rw [e]
    show (0 : Address) ∈ st.parties.set (st.partyOf party).partyIndex 0
    by_cases hlt : (st.partyOf party).partyIndex < st.parties.length
    · exact List.mem_set hlt 0
    · rw [List.set_eq_of_length_le (Nat.le_of_not_lt hlt)]
      exact h
  · rw [hsame.parties]
    exact h

/-- **One step**: a zero entry appears when a party is deleted or the zero address registered. -/
theorem zero_mem_step_iff (hI : st.ArraySound) (h : (0 : Address) ∉ st.parties) :
    (0 : Address) ∉ ((machine X).step st t).parties ↔
      ¬ ((∃ party, RemovesParty st t party) ∨ RegistersZero st t) := by
  have hcount : st.parties.count 0 = 0 := List.count_eq_zero.mpr h
  have hzero : ¬ st.Registered 0 := fun hr => h (hI.mem_parties hr)
  have hflag : st.uniquePartyAddresses 0 = false :=
    Bool.eq_false_iff.mpr fun hf => hzero ((hI.flagged 0).mp hf)
  rw [← List.count_eq_zero]
  cases partyStep (X := X) (t := t) hI with
  | set countryCode partyId roles operator name url owner verifiedRoles status hcall hadmits
      hstep =>
      have hset : SetsParty st t owner countryCode partyId operator :=
        ⟨roles, name, url, verifiedRoles, status, hcall, hadmits⟩
      rw [hstep, count_zero_storeParty, hcount, hflag]
      by_cases hz : owner = 0
      · subst hz
        exact iff_of_false (by simp) fun hn => hn (Or.inr ⟨_, _, _, hset⟩)
      · rw [if_neg fun h => hz h.1]
        refine iff_of_true rfl fun hn => ?_
        rcases hn with ⟨party, hdel⟩ | ⟨_, _, _, hset'⟩
        · exact hset.not_deletes hdel.1
        · exact hz (hset.unique hset').1
  | removed party hdel hstep =>
      have hz : party ≠ 0 := fun e => hzero (e ▸ hdel.2)
      rw [hstep, count_zero_clearParty hI hdel.2 hz]
      exact iff_of_false (by omega) fun hn => hn (Or.inl ⟨party, hdel⟩)
  | same hset hdel hsame =>
      rw [hsame.parties]
      refine iff_of_true hcount fun hn => ?_
      rcases hn with ⟨party, hdel'⟩ | ⟨_, _, _, hset'⟩
      · exact hdel party hdel'
      · exact hset _ _ _ _ hset'

/-- **When the array has no hole**: a run has no zero entry at its end exactly when none of its
    transactions deleted a party or registered the zero address. -/
theorem zero_mem_run_iff (X : Crypto) (D : Deployment) (ts : List Tx) :
    (0 : Address) ∉ (D.run X ts).parties ↔
      (machine X).Along
        (fun st t => ¬ ((∃ party, RemovesParty st t party) ∨ RegistersZero st t)) D.start ts :=
  Machine.run_iff_along (M := machine X) (J := ArraySound)
    (I := fun st => (0 : Address) ∉ st.parties)
    (fun _ _ hI => arraySound_step hI) (fun _ _ hI h => zero_mem_step_iff hI h)
    (fun _ _ _ hn h => h (zero_mem_step (Classical.not_not.mp hn))) ts (arraySound_start D)
    List.not_mem_nil

/-! ## 4. The entry of the zero address -/

/-- The zero address, if it is registered, has one entry, and no hole looks like it. -/
def ZeroListedOnce (st : OcnRegistry) : Prop := st.Registered 0 → st.parties.count 0 ≤ 1

/-- The transaction gives the zero address a second entry: it registers it beside a hole, or leaves
    a hole beside it. -/
def DoublesZero (st : OcnRegistry) (t : Tx) : Prop :=
  (RegistersZero st t ∧ ¬ st.Registered 0 ∧ (0 : Address) ∈ st.parties) ∨
    (st.Registered 0 ∧ ∃ party, party ≠ 0 ∧ RemovesParty st t party)

/-- **One step.** -/
theorem zeroListedOnce_step_iff (hI : st.ArraySound) (h : ZeroListedOnce st) :
    ZeroListedOnce ((machine X).step st t) ↔ ¬ DoublesZero st t := by
  unfold ZeroListedOnce at h ⊢
  cases partyStep (X := X) (t := t) hI with
  | set countryCode partyId roles operator name url owner verifiedRoles status hcall hadmits
      hstep =>
      have hset : SetsParty st t owner countryCode partyId operator :=
        ⟨roles, name, url, verifiedRoles, status, hcall, hadmits⟩
      rw [hstep, count_zero_storeParty]
      by_cases hz : owner = 0
      · subst hz
        have hreg : (st.storeParty 0 (st.newDetails countryCode partyId 0 verifiedRoles name url
            status) operator).Registered 0 := registered_storeParty_self hadmits.someOperator
        by_cases h0 : st.Registered 0
        · have hflag : st.uniquePartyAddresses 0 = true := (hI.flagged 0).mpr h0
          rw [hflag, if_neg fun h => Bool.false_ne_true h.2.symm]
          refine iff_of_true (fun _ => h h0) fun hd => ?_
          rcases hd with ⟨_, hn, _⟩ | ⟨_, party, _, hdel⟩
          · exact hn h0
          · exact hset.not_deletes hdel.1
        · have hflag : st.uniquePartyAddresses 0 = false :=
            Bool.eq_false_iff.mpr fun hf => h0 ((hI.flagged 0).mp hf)
          rw [hflag, if_pos ⟨rfl, rfl⟩]
          refine ⟨fun hle hd => ?_, fun hd _ => ?_⟩
          · rcases hd with ⟨_, _, hmem⟩ | ⟨hr, _⟩
            · have hpos : 0 < st.parties.count 0 := List.count_pos_iff.mpr hmem
              have hle := hle hreg
              omega
            · exact h0 hr
          · have hnone : st.parties.count 0 = 0 := List.count_eq_zero.mpr fun hmem =>
              hd (Or.inl ⟨⟨_, _, _, hset⟩, h0, hmem⟩)
            omega
      · rw [registered_storeParty_ne (Ne.symm hz), if_neg fun h => hz h.1]
        refine iff_of_true h fun hd => ?_
        rcases hd with ⟨⟨_, _, _, hset'⟩, _⟩ | ⟨_, party, _, hdel⟩
        · exact hz (hset.unique hset').1
        · exact hset.not_deletes hdel.1
  | removed party hdel hstep =>
      rw [hstep]
      by_cases hz : party = 0
      · subst hz
        refine iff_of_true (fun hr => absurd hr (not_registered_clearParty 0)) fun hd => ?_
        rcases hd with ⟨⟨_, _, _, hset⟩, _⟩ | ⟨_, party, hne, hdel'⟩
        · exact hset.not_deletes hdel.1
        · exact hne (hdel'.1.unique hdel.1)
      · rw [registered_clearParty_ne (Ne.symm hz), count_zero_clearParty hI hdel.2 hz]
        refine ⟨fun hle hd => ?_, fun hd hr => absurd (Or.inr ⟨hr, party, hz, hdel⟩) hd⟩
        rcases hd with ⟨⟨_, _, _, hset⟩, _⟩ | ⟨hr, _⟩
        · exact hset.not_deletes hdel.1
        · have hpos : 0 < st.parties.count 0 := List.count_pos_iff.mpr (hI.mem_parties hr)
          have hle := hle hr
          omega
  | same hset hdel hsame =>
      unfold Registered
      rw [hsame.operatorOf, hsame.parties]
      refine iff_of_true h fun hd => ?_
      rcases hd with ⟨⟨_, _, _, hset'⟩, _⟩ | ⟨_, party, _, hdel'⟩
      · exact hset _ _ _ _ hset'
      · exact hdel party hdel'

end Array

end OcnRegistry

end Ocn
