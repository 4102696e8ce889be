/-
  File:      OcnRegistry/Tenants.lean
  Subject:   TENANTS DO NOT NOTICE EACH OTHER: the registry shared by groups that keep apart.

  A tenant is an operator with the parties it serves: its accounts, domains and keys. A transaction
  stays with its tenant if the accounts, domains and keys it names are of one tenant, the owner the
  certificates prove included. What every tenant depends on -- the roles and the validator -- is
  nobody's.

  Everything else is shared: one array of operators, one of parties with the holes deletions
  leave, indices into it. None of it is a channel.

  * `SameFor` -- two storages a tenant cannot tell apart: indices and holes are not seen;
  * `unwinding` -- the others' steps are not seen, its own answer alike;
  * `tenants_apart` -- in two runs with the same steps of its own (and of the administration's), a
    tenant gets the same answers and finds the same in every lookup. An account that is not listed
    has the zero address for an operator, which is nobody's: its lookup shows the node of that one.
-/
import OcnRegistry.Library.Purge
import OcnRegistry.Registry.Slots

namespace Ocn

open Transaction

/-- **Who belongs to whom.** -/
structure Tenancy (γ : Type) where
  ofAccount : Address → γ
  ofDomain : Bytes → γ
  ofKey : Bytes2 × Bytes3 → γ

/-- A record without its index in the array. -/
def PartyDetails.shown (d : PartyDetails) : PartyDetails := { d with partyIndex := 0 }

namespace Tenancy

open OcnRegistry

variable {γ : Type}

/-! ## 1. Transactions of a tenant -/

section Transactions

variable (T : Tenancy γ) (X : Crypto) (g : γ)

/-- The tenant whose entries a transaction writes; none for a call of the administration. -/
def tenant (t : Tx) : Option γ :=
  match t.call with
  | .setNode _ => some (T.ofAccount t.sender.address)
  | .setNodeRaw operator domain v r s => some (T.ofAccount (setNodeSigner X operator domain v r s))
  | .deleteNode => some (T.ofAccount t.sender.address)
  | .deleteNodeRaw operator v r s => some (T.ofAccount (deleteNodeSigner X operator v r s))
  | .setParty countryCode partyId _ _ _ _ => some (T.ofKey (countryCode, partyId))
  | .deleteParty => some (T.ofAccount t.sender.address)
  | .adminDeleteOperator operator => some (T.ofAccount operator)
  | .adminDeleteParty countryCode partyId => some (T.ofKey (countryCode, partyId))
  | _ => none

/-- The transaction is the tenant's, or one that concerns everybody. -/
def concerns [DecidableEq γ] (t : Tx) : Bool := (T.tenant X t).all fun g' => decide (g' = g)

/-- **The transaction stays with its tenant.** -/
def Stays (t : Tx) : Prop :=
  match t.call with
  | .setNode domain => T.ofDomain domain = T.ofAccount t.sender.address
  | .setNodeRaw operator domain v r s =>
      T.ofDomain domain = T.ofAccount (setNodeSigner X operator domain v r s)
  | .setParty countryCode partyId roles operator _ _ =>
      T.ofAccount operator = T.ofKey (countryCode, partyId) ∧
        ∀ validator owner verifiedRoles,
          t.answers.validateRegistration validator roles = .ok (owner, verifiedRoles) →
            owner ≠ 0 ∧ T.ofAccount owner = T.ofKey (countryCode, partyId)
  | _ => True

def accounts : Set Address := fun a => T.ofAccount a = g

def domains : Set Bytes := fun d => T.ofDomain d = g

def keys : Set (Bytes2 × Bytes3) := fun k => T.ofKey k = g

/-- The account is the tenant's. -/
def owns [DecidableEq γ] (a : Address) : Bool := decide (T.ofAccount a = g)

/-- The entry of the array of parties is the tenant's, and no hole. -/
def lists [DecidableEq γ] (a : Address) : Bool := T.owns g a && decide (a ≠ 0)

end Transactions

variable {T : Tenancy γ} {X : Crypto} {g : γ} {st st' st'' : OcnRegistry} {t : Tx}
  {operator party owner : Address} {domain : Bytes} {details details' : PartyDetails}

/-! ## 2. Nothing of one tenant under the name of another -/

/-- **The storage is tidy**: tables agree, and a node's domain, a party's key and a party's
    operator are of the tenant the account is of. -/
structure Tidy (T : Tenancy γ) (st : OcnRegistry) : Prop where
  sound : st.PartiesSound
  domains : ∀ a, st.nodeOf a ≠ [] → T.ofDomain (st.nodeOf a) = T.ofAccount a
  keys : ∀ a, st.Registered a → T.ofKey (st.keyOf a) = T.ofAccount a
  owners : ∀ k : Bytes2 × Bytes3, st.uniqueParties k.1 k.2 ≠ 0 →
    T.ofAccount (st.uniqueParties k.1 k.2) = T.ofKey k
  operators : ∀ a, st.Registered a → T.ofAccount (st.operatorOf a) = T.ofAccount a

theorem tidy_start (D : Deployment) : T.Tidy D.start where
  sound := partiesSound_start D
  domains := fun _ h => absurd rfl h
  keys := fun a h => absurd h (not_registered_start D a)
  owners := fun _ h => absurd rfl h
  operators := fun a h => absurd h (not_registered_start D a)

theorem Tidy.storeNode (hI : T.Tidy st) (hd : T.ofDomain domain = T.ofAccount operator) :
    T.Tidy (st.storeNode operator domain) where
  sound := hI.sound.congr ⟨rfl, rfl, rfl, rfl, rfl⟩
  domains := by
    intro a ha
    rw [storeNode_nodeOf] at ha ⊢
    by_cases e : a = operator
    · rw [e, Function.update_self]
      exact hd
    · rw [Function.update_of_ne e] at ha ⊢
      exact hI.domains a ha
  keys := hI.keys
  owners := hI.owners
  operators := hI.operators

theorem Tidy.clearNode (hI : T.Tidy st) : T.Tidy (st.clearNode operator) where
  sound := hI.sound.congr ⟨rfl, rfl, rfl, rfl, rfl⟩
  domains := by
    intro a ha
    rw [clearNode_nodeOf] at ha ⊢
    by_cases e : a = operator
    · rw [e, Function.update_self] at ha
      exact absurd rfl ha
    · rw [Function.update_of_ne e] at ha ⊢
      exact hI.domains a ha
  keys := hI.keys
  owners := hI.owners
  operators := hI.operators

theorem keyOf_storeParty : (st.storeParty owner details operator).keyOf =
    Function.update st.keyOf owner (details.countryCode, details.partyId) :=
  Function.comp_update (fun d : PartyDetails => (d.countryCode, d.partyId)) st.partyOf owner details

theorem keyOf_clearParty : (st.clearParty party).keyOf = Function.update st.keyOf party (0, 0) :=
  Function.comp_update (fun d : PartyDetails => (d.countryCode, d.partyId)) st.partyOf party
    PartyDetails.zero

/-- What the owners table answers, with one key reassigned. -/
theorem owners_setUniqueParty {k : Bytes2 × Bytes3} {a : Address}
    (h : ∀ k : Bytes2 × Bytes3, st.uniqueParties k.1 k.2 ≠ 0 →
      T.ofAccount (st.uniqueParties k.1 k.2) = T.ofKey k)
    (ha : a ≠ 0 → T.ofAccount a = T.ofKey k) (k' : Bytes2 × Bytes3)
    (hk' : st.setUniqueParty k.1 k.2 a k'.1 k'.2 ≠ 0) :
    T.ofAccount (st.setUniqueParty k.1 k.2 a k'.1 k'.2) = T.ofKey k' := by
  by_cases e : k' = k
  · rw [e, setUniqueParty_self] at hk' ⊢
    exact ha hk'
  · rw [setUniqueParty_ne st a e] at hk' ⊢
    exact h k' hk'

theorem Tidy.storeParty (hI : T.Tidy st)
    (hs : (st.storeParty owner details operator).PartiesSound)
    (hk : T.ofAccount owner = T.ofKey (details.countryCode, details.partyId))
    (ho : T.ofAccount operator = T.ofKey (details.countryCode, details.partyId)) :
    T.Tidy (st.storeParty owner details operator) where
  sound := hs
  domains := hI.domains
  keys := by
    intro a ha
    rw [keyOf_storeParty]
    by_cases e : a = owner
    · rw [e, Function.update_self]
      exact hk.symm
    · rw [Function.update_of_ne e]
      exact hI.keys a ((registered_storeParty_ne e).mp ha)
  owners := owners_setUniqueParty (k := (details.countryCode, details.partyId)) hI.owners
    fun _ => hk
  operators := by
    intro a ha
    rw [storeParty_operatorOf]
    by_cases e : a = owner
    · rw [e, Function.update_self]
      exact ho.trans hk.symm
    · rw [Function.update_of_ne e]
      exact hI.operators a ((registered_storeParty_ne e).mp ha)

theorem Tidy.clearParty (hI : T.Tidy st) (hr : st.Registered party) :
    T.Tidy (st.clearParty party) where
  sound := hI.sound.clearParty hr
  domains := hI.domains
  keys := by
    intro a ha
    have e : a ≠ party := fun e => not_registered_clearParty party (e ▸ ha)
    rw [keyOf_clearParty, Function.update_of_ne e]
    exact hI.keys a ((registered_clearParty_ne e).mp ha)
  owners := owners_setUniqueParty (k := st.keyOf party) hI.owners fun h => absurd rfl h
  operators := by
    intro a ha
    have e : a ≠ party := fun e => not_registered_clearParty party (e ▸ ha)
    rw [clearParty_operatorOf, Function.update_of_ne e]
    exact hI.operators a ((registered_clearParty_ne e).mp ha)

/-! ## 3. What a tenant sees -/

variable [DecidableEq γ]


/-- **Two storages the tenant cannot tell apart.** -/
structure SameFor (T : Tenancy γ) (g : γ) (st st' : OcnRegistry) : Prop where
  nodeOf : Set.EqOn st.nodeOf st'.nodeOf (T.accounts g)
  uniqueDomains : Set.EqOn st.uniqueDomains st'.uniqueDomains (T.domains g)
  uniqueOperators : Set.EqOn st.uniqueOperators st'.uniqueOperators (T.accounts g)
  operators : st.operators.filter (T.owns g) = st'.operators.filter (T.owns g)
  uniqueParties : Set.EqOn (fun k : Bytes2 × Bytes3 => st.uniqueParties k.1 k.2)
    (fun k => st'.uniqueParties k.1 k.2) (T.keys g)
  uniquePartyAddresses : Set.EqOn st.uniquePartyAddresses st'.uniquePartyAddresses (T.accounts g)
  partyOf : Set.EqOn (PartyDetails.shown ∘ st.partyOf) (PartyDetails.shown ∘ st'.partyOf)
    (T.accounts g)
  operatorOf : Set.EqOn st.operatorOf st'.operatorOf (T.accounts g)
  parties : st.parties.filter (T.lists g) = st'.parties.filter (T.lists g)
  paymentManager : st.paymentManager = st'.paymentManager
  validator : st.partyRegistrationValidator = st'.partyRegistrationValidator
  members : st.members = st'.members

theorem SameFor.refl (st : OcnRegistry) : T.SameFor g st st :=
  ⟨Set.eqOn_refl _ _, Set.eqOn_refl _ _, Set.eqOn_refl _ _, rfl, Set.eqOn_refl _ _,
    Set.eqOn_refl _ _, Set.eqOn_refl _ _, Set.eqOn_refl _ _, rfl, rfl, rfl, rfl⟩

theorem SameFor.symm (h : T.SameFor g st st') : T.SameFor g st' st :=
  ⟨h.nodeOf.symm, h.uniqueDomains.symm, h.uniqueOperators.symm, h.operators.symm,
    h.uniqueParties.symm, h.uniquePartyAddresses.symm, h.partyOf.symm, h.operatorOf.symm,
    h.parties.symm, h.paymentManager.symm, h.validator.symm, h.members.symm⟩

theorem SameFor.trans (h : T.SameFor g st st') (h' : T.SameFor g st' st'') :
    T.SameFor g st st'' :=
  ⟨h.nodeOf.trans h'.nodeOf, h.uniqueDomains.trans h'.uniqueDomains,
    h.uniqueOperators.trans h'.uniqueOperators, h.operators.trans h'.operators,
    h.uniqueParties.trans h'.uniqueParties,
    h.uniquePartyAddresses.trans h'.uniquePartyAddresses, h.partyOf.trans h'.partyOf,
    h.operatorOf.trans h'.operatorOf, h.parties.trans h'.parties,
    h.paymentManager.trans h'.paymentManager, h.validator.trans h'.validator,
    h.members.trans h'.members⟩

/-! ## 4. The writes, seen by the tenant they belong to and by the others -/

theorem owns_other (h : T.ofAccount owner ≠ g) : T.owns g owner = false := decide_eq_false h

theorem lists_other (h : T.ofAccount owner ≠ g) : T.lists g owner = false := by
  rw [lists, owns_other h, Bool.false_and]

theorem lists_zero : T.lists g 0 = false := by simp [lists]

theorem SameFor.storeNode (h : T.SameFor g st st') (ho : T.ofAccount operator = g) :
    T.SameFor g (st.storeNode operator domain) (st'.storeNode operator domain) := by
  have hlisted : st.uniqueOperators operator = st'.uniqueOperators operator :=
    h.uniqueOperators ho
  refine { h with
    nodeOf := eqOn_update h.nodeOf
    uniqueDomains := eqOn_update h.uniqueDomains
    uniqueOperators := eqOn_update h.uniqueOperators
    operators := ?_ }
  show (if st.uniqueOperators operator then st.operators else st.operators ++ [operator]).filter _ =
    (if st'.uniqueOperators operator then st'.operators else st'.operators ++ [operator]).filter _
  rw [hlisted]
  split
  · exact h.operators
  · rw [List.filter_append, List.filter_append, h.operators]

theorem sameFor_storeNode_other (ho : T.ofAccount operator ≠ g) (hd : T.ofDomain domain ≠ g) :
    T.SameFor g st (st.storeNode operator domain) := by
  refine { SameFor.refl (T := T) (g := g) st with
    nodeOf := eqOn_update_of_notMem ho
    uniqueDomains := eqOn_update_of_notMem hd
    uniqueOperators := eqOn_update_of_notMem ho
    operators := ?_ }
  show _ =
    (if st.uniqueOperators operator then st.operators else st.operators ++ [operator]).filter _
  split
  · rfl
  · have hnone : [operator].filter (T.owns g) = [] := by simp [owns_other ho]
    rw [List.filter_append, hnone, List.append_nil]

theorem SameFor.clearNode (h : T.SameFor g st st') (ho : T.ofAccount operator = g) :
    T.SameFor g (st.clearNode operator) (st'.clearNode operator) := by
  have hnode : st.nodeOf operator = st'.nodeOf operator := h.nodeOf ho
  refine { h with
    nodeOf := eqOn_update h.nodeOf
    uniqueDomains := ?_ }
  show Set.EqOn (Function.update st.uniqueDomains (st.nodeOf operator) false)
    (Function.update st'.uniqueDomains (st'.nodeOf operator) false) _
  rw [hnode]
  exact eqOn_update h.uniqueDomains

theorem sameFor_clearNode_other (ho : T.ofAccount operator ≠ g)
    (hd : T.ofDomain (st.nodeOf operator) ≠ g) : T.SameFor g st (st.clearNode operator) :=
  { SameFor.refl (T := T) (g := g) st with
    nodeOf := eqOn_update_of_notMem ho
    uniqueDomains := eqOn_update_of_notMem hd }

/-- The owners of the keys after a registration. -/
theorem owners_storeParty :
    (fun k : Bytes2 × Bytes3 => (st.storeParty owner details operator).uniqueParties k.1 k.2) =
      Function.update (fun k => st.uniqueParties k.1 k.2) (details.countryCode, details.partyId)
        owner :=
  setUniqueParty_eq st (details.countryCode, details.partyId) owner

theorem SameFor.storeParty (h : T.SameFor g st st') (ho : T.ofAccount owner = g)
    (hk : (details.countryCode, details.partyId) = (details'.countryCode, details'.partyId))
    (hd : details.shown = details'.shown) :
    T.SameFor g (st.storeParty owner details operator)
      (st'.storeParty owner details' operator) := by
  have hlisted : st.uniquePartyAddresses owner = st'.uniquePartyAddresses owner :=
    h.uniquePartyAddresses ho
  refine { h with
    uniqueParties := ?_
    uniquePartyAddresses := eqOn_update h.uniquePartyAddresses
    partyOf := ?_
    operatorOf := eqOn_update h.operatorOf
    parties := ?_ }
  · rw [owners_storeParty, owners_storeParty, hk]
    exact eqOn_update h.uniqueParties
  · rw [storeParty_partyOf, storeParty_partyOf, Function.comp_update, Function.comp_update, hd]
    exact eqOn_update h.partyOf
  · show (if st.uniquePartyAddresses owner then st.parties else st.parties ++ [owner]).filter _ =
      (if st'.uniquePartyAddresses owner then st'.parties else st'.parties ++ [owner]).filter _
    rw [hlisted]
    split
    · exact h.parties
    · rw [List.filter_append, List.filter_append, h.parties]

theorem sameFor_storeParty_other (ho : T.ofAccount owner ≠ g)
    (hk : T.ofKey (details.countryCode, details.partyId) ≠ g) :
    T.SameFor g st (st.storeParty owner details operator) := by
  refine { SameFor.refl (T := T) (g := g) st with
    uniqueParties := ?_
    uniquePartyAddresses := eqOn_update_of_notMem ho
    partyOf := ?_
    operatorOf := eqOn_update_of_notMem ho
    parties := ?_ }
  · rw [owners_storeParty]
    exact eqOn_update_of_notMem hk
  · rw [storeParty_partyOf, Function.comp_update]
    exact eqOn_update_of_notMem ho
  · show _ = (if st.uniquePartyAddresses owner then st.parties else st.parties ++ [owner]).filter _
    split
    · rfl
    · have hnone : [owner].filter (T.lists g) = [] := by simp [lists_other ho]
      rw [List.filter_append, hnone, List.append_nil]

/-- The array after a deletion: the party's one entry is a hole. -/
theorem parties_clearParty (hI : st.PartiesSound) (hr : st.Registered party) :
    (st.clearParty party).parties = st.parties.map fun b => if b = party then 0 else b :=
  hI.slots.leave_slots ((hI.flagged party).mpr hr)

/-- The owners of the keys after a deletion. -/
theorem owners_clearParty :
    (fun k : Bytes2 × Bytes3 => (st.clearParty party).uniqueParties k.1 k.2) =
      Function.update (fun k => st.uniqueParties k.1 k.2) (st.keyOf party) 0 :=
  setUniqueParty_eq st (st.keyOf party) 0

theorem SameFor.clearParty (h : T.SameFor g st st') (ho : T.ofAccount party = g)
    (hI : st.PartiesSound) (hI' : st'.PartiesSound) (hr : st.Registered party) :
    T.SameFor g (st.clearParty party) (st'.clearParty party) := by
  have hr' : st'.Registered party := by
    unfold Registered
    rw [← h.operatorOf ho]
    exact hr
  have hrec : (st.partyOf party).shown = (st'.partyOf party).shown := h.partyOf ho
  have hkey : st.keyOf party = st'.keyOf party := by
    show ((st.partyOf party).shown.countryCode, (st.partyOf party).shown.partyId) = _
    rw [hrec]
    rfl
  refine { h with
    uniqueParties := ?_
    uniquePartyAddresses := eqOn_update h.uniquePartyAddresses
    partyOf := ?_
    operatorOf := eqOn_update h.operatorOf
    parties := ?_ }
  · rw [owners_clearParty, owners_clearParty, hkey]
    exact eqOn_update h.uniqueParties
  · rw [clearParty_partyOf, clearParty_partyOf, Function.comp_update, Function.comp_update]
    exact eqOn_update h.partyOf
  · rw [parties_clearParty hI hr, parties_clearParty hI' hr', filter_map_blank _ lists_zero,
      filter_map_blank _ lists_zero, h.parties]

theorem sameFor_clearParty_other (ho : T.ofAccount party ≠ g) (hk : T.ofKey (st.keyOf party) ≠ g)
    (hI : st.PartiesSound) (hr : st.Registered party) :
    T.SameFor g st (st.clearParty party) := by
  refine { SameFor.refl (T := T) (g := g) st with
    uniqueParties := ?_
    uniquePartyAddresses := eqOn_update_of_notMem ho
    partyOf := ?_
    operatorOf := eqOn_update_of_notMem ho
    parties := ?_ }
  · rw [owners_clearParty]
    exact eqOn_update_of_notMem hk
  · rw [clearParty_partyOf, Function.comp_update]
    exact eqOn_update_of_notMem ho
  · rw [parties_clearParty hI hr, filter_map_blank_of_not _ lists_zero (lists_other ho)]

/-! ## 5. Whose step it is -/

section Whose

omit [DecidableEq γ]

theorem tenant_setsNode (h : SetsNode X t operator domain) (hs : T.Stays X t) :
    T.tenant X t = some (T.ofAccount operator) ∧ T.ofDomain domain = T.ofAccount operator := by
  unfold tenant
  unfold Stays at hs
  cases h with
  | direct hcall =>
      rw [hcall] at hs ⊢
      exact ⟨rfl, hs⟩
  | raw hcall =>
      rw [hcall] at hs ⊢
      exact ⟨rfl, hs⟩

theorem tenant_deletesNode (h : DeletesNode X st t operator) :
    T.tenant X t = some (T.ofAccount operator) := by
  unfold tenant
  cases h with
  | direct hcall => rw [hcall]
  | raw hcall => simp only [hcall, deleteNodeSigner]
  | admin hcall => rw [hcall]

/-- An admin deletes by key; the key's owner is of the key's tenant. -/
theorem tenant_deletesParty (hI : T.Tidy st) (h : DeletesParty st t party)
    (hr : st.Registered party) : T.tenant X t = some (T.ofAccount party) := by
  unfold tenant
  cases h with
  | direct hcall => rw [hcall]
  | @admin countryCode partyId hcall =>
      have hz : st.uniqueParties countryCode partyId ≠ 0 := fun e => hI.sound.nobody (e ▸ hr)
      rw [hcall, hI.owners (countryCode, partyId) hz]

/-- The call registers a party of this tenant, under an operator of it. -/
structure Registers (T : Tenancy γ) (X : Crypto) (t : Tx) (g : γ) (owner operator : Address)
    (k : Bytes2 × Bytes3) : Prop where
  tenant : T.tenant X t = some g
  key : T.ofKey k = g
  ownerTenant : T.ofAccount owner = g
  operatorTenant : T.ofAccount operator = g
  somebody : owner ≠ 0

theorem registers_of_call {countryCode : Bytes2} {partyId : Bytes3} {roles : List RoleDetails}
    {name url : Bytes} {verifiedRoles : List Role} {status : PaymentStatus}
    (hcall : t.call = .setParty countryCode partyId roles operator name url)
    (h : SetPartyAdmits st t.answers countryCode partyId roles operator owner verifiedRoles status)
    (hs : T.Stays X t) :
    T.Registers X t (T.ofKey (countryCode, partyId)) owner operator (countryCode, partyId) := by
  unfold Stays at hs
  rw [hcall] at hs
  obtain ⟨hop, howner⟩ := hs
  obtain ⟨hz, ho⟩ := howner _ _ _ h.valid
  exact ⟨by rw [tenant, hcall], rfl, ho, hop, hz⟩

theorem tenant_setsMembers {members : RoleMembers} {ev : List Event}
    (h : SetsMembers st t members ev) : T.tenant X t = none := by
  unfold tenant
  cases h with
  | transfer hcall => rw [hcall]
  | grant hcall => rw [hcall]
  | revoke hcall => rw [hcall]
  | renounce hcall => rw [hcall]

end Whose

/-! ## 6. The unwinding conditions -/

omit [DecidableEq γ] in
theorem tidy_exec {ev : List Event} (hI : T.Tidy st) (hs : T.Stays X t)
    (h : exec X st t = .ok (st', ev)) : T.Tidy st' := by
  cases change_of_exec h with
  | nodeSet operator domain hask => exact hI.storeNode (tenant_setsNode hask hs).2
  | nodeDeleted => exact hI.clearNode
  | partySet countryCode partyId roles operator name url owner verifiedRoles status hcall ha =>
      have hreg := registers_of_call hcall ha hs
      refine hI.storeParty ?_ hreg.ownerTenant hreg.operatorTenant
      exact hI.sound.storeParty hreg.somebody ha.someOperator ha.free rfl rfl
  | partyDeleted party _ hlisted => exact hI.clearParty hlisted
  | membersSet => exact { hI with sound := hI.sound.congr ⟨rfl, rfl, rfl, rfl, rfl⟩ }
  | validatorSet => exact { hI with sound := hI.sound.congr ⟨rfl, rfl, rfl, rfl, rfl⟩ }

/-- **The others' steps are not seen.** -/
theorem sameFor_step_other (hI : T.Tidy st) (hs : T.Stays X t)
    (hother : T.concerns X g t = false) : T.SameFor g st ((machine X).step st t) := by
  obtain ⟨g', htenant, hne⟩ := other_of_all hother
  rcases Machine.step_cases (machine X) st t with e | ⟨st', ev, hok, e⟩
  · rw [e]
    exact SameFor.refl st
  rw [e]
  cases change_of_exec hok with
  | nodeSet operator domain hask =>
      obtain ⟨ht, hd⟩ := tenant_setsNode hask hs
      obtain rfl := Option.some.inj (htenant.symm.trans ht)
      exact sameFor_storeNode_other hne (hd ▸ hne)
  | nodeDeleted operator hask hnode =>
      obtain rfl := Option.some.inj (htenant.symm.trans (tenant_deletesNode hask))
      exact sameFor_clearNode_other hne (hI.domains operator hnode ▸ hne)
  | partySet countryCode partyId roles operator name url owner verifiedRoles status hcall ha =>
      have hreg := registers_of_call hcall ha hs
      obtain rfl := Option.some.inj (htenant.symm.trans hreg.tenant)
      exact sameFor_storeParty_other (hreg.ownerTenant ▸ hne) hne
  | partyDeleted party hask hlisted =>
      obtain rfl := Option.some.inj (htenant.symm.trans (tenant_deletesParty hI hask hlisted))
      exact sameFor_clearParty_other hne (hI.keys party hlisted ▸ hne) hI.sound hlisted
  | membersSet members ev hask =>
      rw [tenant_setsMembers hask] at htenant
      cases htenant
  | validatorSet validator hcall =>
      rw [tenant, hcall] at htenant
      cases htenant

theorem alike_setNode (h : T.SameFor g st st') (ho : T.ofAccount operator = g)
    (hd : T.ofDomain domain = g) : Alike (T.SameFor g) (st.setNodeInternal operator domain)
      (st'.setNodeInternal operator domain) := by
  have hfree : st.uniqueDomains domain = st'.uniqueDomains domain := h.uniqueDomains hd
  unfold setNodeInternal
  rw [hfree]
  exact Alike.guard fun _ => Alike.guard fun _ => .accepted _ (h.storeNode ho)

theorem alike_deleteNode (h : T.SameFor g st st') (ho : T.ofAccount operator = g) :
    Alike (T.SameFor g) (st.deleteNodeInternal operator) (st'.deleteNodeInternal operator) := by
  have hnode : st.nodeOf operator = st'.nodeOf operator := h.nodeOf ho
  unfold deleteNodeInternal
  rw [hnode]
  exact Alike.guard fun _ => .accepted _ (h.clearNode ho)

theorem alike_setParty {answers : External} {countryCode : Bytes2} {partyId : Bytes3}
    {roles : List RoleDetails} {name url : Bytes} (h : T.SameFor g st st')
    (hk : T.ofKey (countryCode, partyId) = g) (hop : T.ofAccount operator = g)
    (howner : ∀ validator owner verifiedRoles,
      answers.validateRegistration validator roles = .ok (owner, verifiedRoles) →
        T.ofAccount owner = g) :
    Alike (T.SameFor g) (st.setParty answers countryCode partyId roles operator name url)
      (st'.setParty answers countryCode partyId roles operator name url) := by
  have hreg : st.uniqueParties countryCode partyId = st'.uniqueParties countryCode partyId :=
    h.uniqueParties hk
  have hnode : st.nodeOf operator = st'.nodeOf operator := h.nodeOf hop
  unfold setParty
  rw [h.validator, hreg, hnode, h.paymentManager]
  refine Alike.guard fun _ => Alike.guard fun _ => Alike.guard fun _ => Alike.guard fun _ => ?_
  refine Alike.bind fun registration hvalid => ?_
  obtain ⟨owner, verifiedRoles⟩ := registration
  refine Alike.guard fun _ => Alike.guard fun _ => Alike.bind fun status _ => ?_
  exact .accepted _ (h.storeParty (howner _ _ _ hvalid) rfl rfl)

/-- The event of a deletion tells the record, but not its index. -/
theorem partyDelete_of_shown (h : details.shown = details'.shown) :
    Event.partyDelete details.countryCode details.partyId party details.roles details.name
        details.url details.paymentStatus details.cvStatus details.active =
      .partyDelete details'.countryCode details'.partyId party details'.roles details'.name
        details'.url details'.paymentStatus details'.cvStatus details'.active := by
  cases details
  cases details'
  cases h
  rfl

/-- A registered party's deletion does not panic; an address that is none is refused. -/
theorem alike_deleteParty (h : T.SameFor g st st') (hI : T.Tidy st) (hI' : T.Tidy st')
    (ho : T.ofAccount party = g) :
    Alike (T.SameFor g) (st.deletePartyInternal party) (st'.deletePartyInternal party) := by
  have hoperator : st.operatorOf party = st'.operatorOf party := h.operatorOf ho
  have hrec : (st.partyOf party).shown = (st'.partyOf party).shown := h.partyOf ho
  by_cases hr : st.Registered party
  · have hr' : st'.Registered party := by
      unfold Registered
      rw [← hoperator]
      exact hr
    have hlt := hI.sound.slots.slot_lt ((hI.sound.flagged party).mpr hr)
    have hlt' := hI'.sound.slots.slot_lt ((hI'.sound.flagged party).mpr hr')
    rw [deletePartyInternal_eq_ok.mpr ⟨hr, hlt, rfl, rfl⟩,
      deletePartyInternal_eq_ok.mpr ⟨hr', hlt', rfl, rfl⟩]
    rw [partyDelete_of_shown hrec]
    exact .accepted _ (h.clearParty ho hI.sound hI'.sound hr)
  · have hz : st.operatorOf party = 0 := Classical.not_not.mp hr
    unfold deletePartyInternal
    rw [← hoperator, if_pos hz, if_pos hz]
    exact .refused _

theorem alike_deletePartyByKey {k : Bytes2 × Bytes3} (h : T.SameFor g st st') (hI : T.Tidy st)
    (hI' : T.Tidy st') (hk : T.ofKey k = g) :
    Alike (T.SameFor g) (st.deletePartyInternal (st.uniqueParties k.1 k.2))
      (st'.deletePartyInternal (st'.uniqueParties k.1 k.2)) := by
  have howner : st.uniqueParties k.1 k.2 = st'.uniqueParties k.1 k.2 := h.uniqueParties hk
  rw [← howner]
  by_cases hz : st.uniqueParties k.1 k.2 = 0
  · -- nobody has the key: the zero address is no party, in neither storage
    have hnot : st.operatorOf 0 = 0 := Classical.not_not.mp hI.sound.nobody
    have hnot' : st'.operatorOf 0 = 0 := Classical.not_not.mp hI'.sound.nobody
    unfold deletePartyInternal
    rw [hz, if_pos hnot, if_pos hnot']
    exact .refused _
  · exact alike_deleteParty h hI hI' ((hI.owners k hz).trans hk)

/-- **The tenant's own steps answer alike**, and so do those of the administration. -/
theorem alike_exec (h : T.SameFor g st st') (hI : T.Tidy st) (hI' : T.Tidy st')
    (hs : T.Stays X t) (hmine : T.concerns X g t = true) :
    Alike (T.SameFor g) (exec X st t) (exec X st' t) := by
  have htenant : ∀ g', T.tenant X t = some g' → g' = g := fun _ => eq_of_all hmine
  have hmembers : ∀ (r : Except Revert RoleMembers) (ev : List Event), Alike (T.SameFor g)
      (do let members ← r; .ok ({ st with members := members }, ev))
      (do let members ← r; .ok ({ st' with members := members }, ev)) :=
    fun r ev => Alike.bind fun members _ => .accepted ev { h with members := rfl }
  unfold tenant at htenant
  unfold Stays at hs
  unfold exec
  cases hcall : t.call with
  | setNode domain =>
      rw [hcall] at htenant hs
      have ho := htenant _ rfl
      exact alike_setNode h ho (hs.trans ho)
  | setNodeRaw operator domain v r s =>
      rw [hcall] at htenant hs
      have ho := htenant _ rfl
      exact alike_setNode h ho (hs.trans ho)
  | deleteNode =>
      rw [hcall] at htenant
      exact alike_deleteNode h (htenant _ rfl)
  | deleteNodeRaw operator v r s =>
      rw [hcall] at htenant
      exact alike_deleteNode h (htenant _ rfl)
  | setParty countryCode partyId roles operator name url =>
      rw [hcall] at htenant hs
      have hk := htenant _ rfl
      exact alike_setParty h hk (hs.1.trans hk) fun validator owner verifiedRoles hvalid =>
        (hs.2 validator owner verifiedRoles hvalid).2.trans hk
  | deleteParty =>
      rw [hcall] at htenant
      exact alike_deleteParty h hI hI' (htenant _ rfl)
  | adminDeleteOperator operator =>
      rw [hcall] at htenant
      dsimp only [adminDeleteOperator]
      rw [← h.members]
      exact Alike.bind fun _ _ => alike_deleteNode h (htenant _ rfl)
  | adminDeleteParty countryCode partyId =>
      rw [hcall] at htenant
      dsimp only [adminDeleteParty]
      rw [← h.members]
      exact Alike.bind fun _ _ =>
        alike_deletePartyByKey (k := (countryCode, partyId)) h hI hI' (htenant _ rfl)
  | setPartyRegistrationValidator validator =>
      dsimp only [setPartyRegistrationValidator]
      rw [← h.members]
      exact Alike.bind fun _ _ => Alike.guard fun _ =>
        .accepted _ { h with validator := rfl, members := rfl }
  | transferOwnership newOwner =>
      dsimp only [transferOwnership]
      rw [← h.members]
      exact hmembers _ _
  | grantRole role account =>
      dsimp only
      rw [← h.members]
      exact hmembers _ _
  | revokeRole role account =>
      dsimp only
      rw [← h.members]
      exact hmembers _ _
  | renounceRole role callerConfirmation =>
      dsimp only
      rw [← h.members]
      exact hmembers _ _

/-- **The registry, to one of its tenants.** -/
theorem unwinding (T : Tenancy γ) (X : Crypto) (g : γ) :
    Machine.Unwinding (machine X) T.Tidy (T.Stays X) (T.concerns X g) (T.SameFor g) where
  equiv := ⟨SameFor.refl, SameFor.symm, SameFor.trans⟩
  keeps := fun _ _ hI hs =>
    Machine.step_preserves (M := machine X) hI fun _ _ hok => tidy_exec hI hs hok
  silent := fun _ _ hI hs hother => sameFor_step_other hI hs hother
  alike := fun _ _ _ hI hI' h hs hmine => alike_exec h hI hI' hs hmine

/-! ## 7. What a tenant finds -/

section Lookups

variable {a : Address} {countryCode : Bytes2} {partyId : Bytes3}

theorem SameFor.getPartyDetailsByAddress (h : T.SameFor g st st') (ha : T.ofAccount a = g) :
    st.getPartyDetailsByAddress a = st'.getPartyDetailsByAddress a := by
  have hrec : (st.partyOf a).shown = (st'.partyOf a).shown := h.partyOf ha
  have hoperator : st.operatorOf a = st'.operatorOf a := h.operatorOf ha
  have hview : st.getPartyDetailsByAddress a =
      ⟨a, (st.partyOf a).shown.countryCode, (st.partyOf a).shown.partyId,
        (st.partyOf a).shown.roles, (st.partyOf a).shown.paymentStatus, st.operatorOf a,
        (st.partyOf a).shown.name, (st.partyOf a).shown.url, (st.partyOf a).shown.active⟩ := rfl
  rw [hview, hrec, hoperator]
  rfl

/-- A registered party's operator is of the same tenant, and every other one's is the zero
    address. -/
theorem SameFor.getOperatorByAddress (h : T.SameFor g st st') (hI : T.Tidy st)
    (ha : T.ofAccount a = g) (hr : st.Registered a ∨ st.nodeOf 0 = st'.nodeOf 0) :
    st.getOperatorByAddress a = st'.getOperatorByAddress a := by
  have hoperator : st.operatorOf a = st'.operatorOf a := h.operatorOf ha
  have hnode : st.nodeOf (st.operatorOf a) = st'.nodeOf (st.operatorOf a) := by
    by_cases hlisted : st.Registered a
    · exact h.nodeOf ((hI.operators a hlisted).trans ha)
    · rw [Classical.not_not.mp hlisted]
      exact hr.resolve_left hlisted
  rw [getOperatorByAddress_eq, getOperatorByAddress_eq, ← hoperator, hnode]

theorem SameFor.getOperatorByOcpi (h : T.SameFor g st st') (hI : T.Tidy st) (hI' : T.Tidy st')
    (hk : T.ofKey (countryCode, partyId) = g)
    (hr : st.Registered (st.uniqueParties countryCode partyId) ∨ st.nodeOf 0 = st'.nodeOf 0) :
    st.getOperatorByOcpi countryCode partyId = st'.getOperatorByOcpi countryCode partyId := by
  have howner : st.uniqueParties countryCode partyId = st'.uniqueParties countryCode partyId :=
    h.uniqueParties hk
  rw [getOperatorByOcpi_eq, getOperatorByOcpi_eq, ← howner]
  by_cases hz : st.uniqueParties countryCode partyId = 0
  · -- the key is nobody's, and nobody is not registered
    rw [hz] at hr ⊢
    rw [getOperatorByAddress_eq, getOperatorByAddress_eq, Classical.not_not.mp hI.sound.nobody,
      Classical.not_not.mp hI'.sound.nobody, hr.resolve_left hI.sound.nobody]
  · exact h.getOperatorByAddress hI ((hI.owners (countryCode, partyId) hz).trans hk) hr

/-- What the lookup by key reads of the storage, the payment manager's answers apart. -/
theorem getPartyDetailsByOcpi_congr {answers : External}
    (howner : st.uniqueParties countryCode partyId = st'.uniqueParties countryCode partyId)
    (hmanager : st.paymentManager = st'.paymentManager)
    (hview : st.getPartyDetailsByAddress (st.uniqueParties countryCode partyId) =
      st'.getPartyDetailsByAddress (st.uniqueParties countryCode partyId)) :
    st.getPartyDetailsByOcpi answers countryCode partyId =
      st'.getPartyDetailsByOcpi answers countryCode partyId := by
  unfold OcnRegistry.getPartyDetailsByOcpi
  rw [← howner, ← hmanager]
  generalize st.uniqueParties countryCode partyId = party at hview
  have hshown : ∀ status, { st.getPartyDetailsByAddress party with paymentStatus := status } =
      { st'.getPartyDetailsByAddress party with paymentStatus := status } := by rw [hview]; simp
  unfold OcnRegistry.getPartyDetailsByAddress at hshown
  simp only [hshown]

/-- A key nobody has finds the zero address, whose record is blank. -/
theorem SameFor.getPartyDetailsByOcpi {answers : External} (h : T.SameFor g st st')
    (hI : T.Tidy st) (hb : st.ArraySound) (hb' : st'.ArraySound) (hI' : T.Tidy st')
    (hk : T.ofKey (countryCode, partyId) = g) :
    st.getPartyDetailsByOcpi answers countryCode partyId =
      st'.getPartyDetailsByOcpi answers countryCode partyId := by
  have howner : st.uniqueParties countryCode partyId = st'.uniqueParties countryCode partyId :=
    h.uniqueParties hk
  refine getPartyDetailsByOcpi_congr howner h.paymentManager ?_
  by_cases hz : st.uniqueParties countryCode partyId = 0
  · rw [hz]
    have hnobody := hI.sound.nobody
    have hnobody' := hI'.sound.nobody
    unfold OcnRegistry.getPartyDetailsByAddress
    rw [hb.blank 0 hnobody, hb'.blank 0 hnobody', Classical.not_not.mp hnobody,
      Classical.not_not.mp hnobody']
  · exact h.getPartyDetailsByAddress ((hI.owners (countryCode, partyId) hz).trans hk)

end Lookups

/-! ## 8. Tenants keep apart -/

omit [DecidableEq γ] in
theorem tidy_run {D : Deployment} {ts : List Tx} (h : ∀ t ∈ ts, T.Stays X t) :
    T.Tidy (D.run X ts) := by
  refine Machine.run_invariant (M := machine X) (C := fun _ t => T.Stays X t)
    (fun _ _ _ _ hI hs hok => tidy_exec hI hs hok) ?_ (tidy_start D)
  exact Machine.along_of_forall fun t ht _ => h t ht

/-- **Tenants do not notice each other**: in two runs whose transactions each stay with one tenant,
    and which agree on a tenant's own transactions and those of the administration, in this order,
    these transactions get the same answers -- the same events or the same error -- and the tenant
    finds the same nodes, records, operators and listings: the operators of its registered parties
    always, those of its other accounts and keys if the runs leave the zero address alike. -/
theorem tenants_apart (X : Crypto) (D : Deployment) (T : Tenancy γ) (g : γ) (ts us : List Tx)
    (hts : ∀ t ∈ ts, T.Stays X t) (hus : ∀ t ∈ us, T.Stays X t)
    (h : ts.filter (T.concerns X g) = us.filter (T.concerns X g)) :
    (machine X).answers (T.concerns X g) D.start ts =
      (machine X).answers (T.concerns X g) D.start us ∧
    (∀ a, T.ofAccount a = g →
      (D.run X ts).getNode a = (D.run X us).getNode a ∧
      (D.run X ts).getPartyDetailsByAddress a = (D.run X us).getPartyDetailsByAddress a ∧
      ((D.run X ts).Registered a ∨ (D.run X ts).nodeOf 0 = (D.run X us).nodeOf 0 →
        (D.run X ts).getOperatorByAddress a = (D.run X us).getOperatorByAddress a)) ∧
    (∀ countryCode partyId, T.ofKey (countryCode, partyId) = g →
      (∀ answers, (D.run X ts).getPartyDetailsByOcpi answers countryCode partyId =
        (D.run X us).getPartyDetailsByOcpi answers countryCode partyId) ∧
      ((D.run X ts).Registered ((D.run X ts).uniqueParties countryCode partyId) ∨
          (D.run X ts).nodeOf 0 = (D.run X us).nodeOf 0 →
        (D.run X ts).getOperatorByOcpi countryCode partyId =
          (D.run X us).getOperatorByOcpi countryCode partyId)) ∧
    (D.run X ts).getNodeOperators.filter (T.owns g) =
      (D.run X us).getNodeOperators.filter (T.owns g) ∧
    (D.run X ts).getParties.filter (T.lists g) = (D.run X us).getParties.filter (T.lists g) := by
  obtain ⟨hanswers, hsame⟩ := (unwinding T X g).interleaved hts hus (tidy_start D) h
  have hI : T.Tidy (D.run X ts) := tidy_run hts
  have hI' : T.Tidy (D.run X us) := tidy_run hus
  have hb := arraySound_run X D ts
  have hb' := arraySound_run X D us
  refine ⟨hanswers, fun a ha => ⟨hsame.nodeOf ha, ?_, fun hr => ?_⟩,
    fun countryCode partyId hk => ⟨fun answers => ?_, fun hr => ?_⟩, hsame.operators,
    hsame.parties⟩
  · exact hsame.getPartyDetailsByAddress ha
  · exact hsame.getOperatorByAddress hI ha hr
  · exact hsame.getPartyDetailsByOcpi hI hb hb' hI' hk
  · exact hsame.getOperatorByOcpi hI hI' hk hr

end Tenancy

namespace Sample

/-- The operator with the party it serves, and everybody else. -/
def tenancy : Tenancy Bool where
  ofAccount := fun a => decide (a = operator.address ∨ a = party.address)
  ofDomain := fun d => decide (d = domain)
  ofKey := fun k => decide (k = (0x4445, 0x4D5350) ∨ k = (0x4652, 0x435053))

/-- The stranger runs a node of its own and registers itself under it. -/
def strangers : List Tx :=
  [tx stranger (.setNode domain2),
    tx stranger (.setParty 0x4154 0x414141 (certificates stranger) stranger.address [] [])]

/-- The sample run, with the stranger's steps before it: its entry is the array's first. -/
def crowded : List Tx := strangers ++ registrations ++ [tx stranger .deleteParty]

/-- The registration names certificates of this owner. -/
theorem stays_setParty {sender owner host : Account} {countryCode : Bytes2} {partyId : Bytes3}
    {name url : Bytes} {X : Crypto} (hhost : tenancy.ofAccount host.address =
      tenancy.ofKey (countryCode, partyId)) (howner : owner.address ≠ 0)
    (hbyte : (owner.address.setWidth 8).setWidth 160 = owner.address)
    (hk : tenancy.ofAccount owner.address = tenancy.ofKey (countryCode, partyId)) :
    tenancy.Stays X (tx sender (.setParty countryCode partyId (certificates owner) host.address
      name url)) := by
  refine ⟨hhost, fun validator owner' verifiedRoles h => ?_⟩
  unfold tx external certificates at h
  dsimp only [List.head?, Option.bind, Option.getD] at h
  rw [hbyte, if_neg howner] at h
  cases h
  exact ⟨howner, hk⟩

theorem stays_registrations {X : Crypto} : ∀ t ∈ registrations, tenancy.Stays X t := by
  unfold registrations
  simp only [List.forall_mem_cons]
  refine ⟨?_, ?_, trivial, ?_, fun _ h => absurd h List.not_mem_nil⟩
  · show tenancy.ofDomain domain = tenancy.ofAccount operator.address
    decide
  · exact stays_setParty (by decide) (by decide) (by decide) (by decide)
  · exact stays_setParty (by decide) (by decide) (by decide) (by decide)

theorem stays_crowded {X : Crypto} : ∀ t ∈ crowded, tenancy.Stays X t := by
  unfold crowded strangers
  simp only [List.forall_mem_append, List.forall_mem_cons]
  refine ⟨⟨⟨?_, ?_, fun _ h => absurd h List.not_mem_nil⟩, stays_registrations⟩, trivial,
    fun _ h => absurd h List.not_mem_nil⟩
  · show tenancy.ofDomain domain2 = tenancy.ofAccount stranger.address
    decide
  · exact stays_setParty (by decide) (by decide) (by decide) (by decide)

end Sample

namespace Tenancy

open OcnRegistry

/-- The party is registered, deleted and registered again, in a crowd as alone. -/
theorem tenants_apart_sample :
    (machine (Sample.crypto [])).answers (Sample.tenancy.concerns (Sample.crypto []) true)
        Sample.deployment.start Sample.crowded =
      (machine (Sample.crypto [])).answers (Sample.tenancy.concerns (Sample.crypto []) true)
        Sample.deployment.start Sample.registrations :=
  (tenants_apart (Sample.crypto []) Sample.deployment Sample.tenancy true Sample.crowded
    Sample.registrations Sample.stays_crowded Sample.stays_registrations rfl).1

end Tenancy

end Ocn
