/-
  File:      OcnRegistry/Registry/Run.lean
  Subject:   THE REGISTRY AS A MACHINE: calls, transactions, and what one transaction can change.

  A transaction is a call by an account, together with the answers the other contracts give while
  it runs (`Tx.answers`); those may differ from one transaction to the next, so a run is a list of
  transactions by any accounts, with any arguments and any answers. A call that reverts leaves the
  storage as it was (`Machine.step`).

  `exec_eq_ok` says once what a successful transaction does: a node set, a node deleted, a party
  set, a party deleted, or a change of administration -- each with who asked for it, the guards
  that were passed and the storage after it. Every later proof goes through these cases.
-/
import OcnRegistry.Library.Machine
import OcnRegistry.Registry.Contract

namespace Ocn

open Transaction

/-- The public state-changing functions of the registry, `AccessControl`'s included. -/
inductive Call where
  | transferOwnership (newOwner : Address)
  | adminDeleteOperator (operator : Address)
  | adminDeleteParty (countryCode : Bytes2) (partyId : Bytes3)
  | setPartyRegistrationValidator (validator : Address)
  | setNode (domain : Bytes)
  | setNodeRaw (operator : Address) (domain : Bytes) (v : BitVec 8) (r s : Bytes32)
  | deleteNode
  | deleteNodeRaw (operator : Address) (v : BitVec 8) (r s : Bytes32)
  | setParty (countryCode : Bytes2) (partyId : Bytes3) (roles : List RoleDetails)
      (operator : Address) (name url : Bytes)
  | deleteParty
  | grantRole (role : Bytes32) (account : Address)
  | revokeRole (role : Bytes32) (account : Address)
  | renounceRole (role : Bytes32) (callerConfirmation : Address)
  deriving DecidableEq

structure Tx where
  sender : Account
  call : Call
  answers : External

namespace OcnRegistry

/-! ## 1. Transactions -/

/-- The public functions, dispatched. -/
def exec (X : Crypto) (st : OcnRegistry) (t : Tx) : Except Revert (Outcome OcnRegistry Event) :=
  let sender := t.sender.address
  match t.call with
  | .transferOwnership newOwner => st.transferOwnership sender newOwner
  | .adminDeleteOperator operator => st.adminDeleteOperator sender operator
  | .adminDeleteParty countryCode partyId => st.adminDeleteParty sender countryCode partyId
  | .setPartyRegistrationValidator validator => st.setPartyRegistrationValidator sender validator
  | .setNode domain => st.setNode sender domain
  | .setNodeRaw operator domain v r s => st.setNodeRaw X operator domain v r s
  | .deleteNode => st.deleteNode sender
  | .deleteNodeRaw operator v r s => st.deleteNodeRaw X operator v r s
  | .setParty countryCode partyId roles operator name url =>
      st.setParty t.answers countryCode partyId roles operator name url
  | .deleteParty => st.deleteParty sender
  | .grantRole role account => do
      let members ← st.members.grantRole sender role account
      .ok ({ st with members := members }, [])
  | .revokeRole role account => do
      let members ← st.members.revokeRole sender role account
      .ok ({ st with members := members }, [])
  | .renounceRole role callerConfirmation => do
      let members ← st.members.renounceRole sender role callerConfirmation
      .ok ({ st with members := members }, [])

/-- The registry's machine. -/
def machine (X : Crypto) : Machine OcnRegistry Tx Revert Event := ⟨exec X⟩

/-- The signer a `setNodeRaw` call acts for. -/
def setNodeSigner (X : Crypto) (operator : Address) (domain : Bytes) (v : BitVec 8)
    (r s : Bytes32) : Address := X.ecrecover (setNodeDigest X operator domain) v r s

/-- The signer a `deleteNodeRaw` call acts for. -/
def deleteNodeSigner (X : Crypto) (operator : Address) (v : BitVec 8) (r s : Bytes32) : Address :=
  X.ecrecover (deleteNodeDigest X operator) v r s

/-! ## 2. Who asked for a change -/

/-- The call sets the node of this address: its own call, or a raw call recovered to it. -/
inductive SetsNode (X : Crypto) (t : Tx) : Address → Bytes → Prop where
  | direct {domain : Bytes} (h : t.call = .setNode domain) : SetsNode X t t.sender.address domain
  | raw {operator : Address} {domain : Bytes} {v : BitVec 8} {r s : Bytes32}
      (h : t.call = .setNodeRaw operator domain v r s) :
      SetsNode X t (setNodeSigner X operator domain v r s) domain

/-- The call deletes the node of this address: its own call, a raw call recovered to it, or an
    admin's. -/
inductive DeletesNode (X : Crypto) (st : OcnRegistry) (t : Tx) : Address → Prop where
  | direct (h : t.call = .deleteNode) : DeletesNode X st t t.sender.address
  | raw {operator : Address} {v : BitVec 8} {r s : Bytes32}
      (h : t.call = .deleteNodeRaw operator v r s) :
      DeletesNode X st t (deleteNodeSigner X operator v r s)
  | admin {operator : Address} (h : t.call = .adminDeleteOperator operator)
      (hadmin : st.members DEFAULT_ADMIN_ROLE t.sender.address = true) :
      DeletesNode X st t operator

/-- The call deletes the listing of this address: its own call, or an admin's by key. -/
inductive DeletesParty (st : OcnRegistry) (t : Tx) : Address → Prop where
  | direct (h : t.call = .deleteParty) : DeletesParty st t t.sender.address
  | admin {countryCode : Bytes2} {partyId : Bytes3}
      (h : t.call = .adminDeleteParty countryCode partyId)
      (hadmin : st.members DEFAULT_ADMIN_ROLE t.sender.address = true) :
      DeletesParty st t (st.uniqueParties countryCode partyId)

/-- The call changes who holds which role. -/
inductive SetsMembers (st : OcnRegistry) (t : Tx) : RoleMembers → List Event → Prop where
  | transfer {newOwner : Address} {members : RoleMembers}
      (h : t.call = .transferOwnership newOwner)
      (hm : st.members.transferOwnership t.sender.address newOwner = .ok members) :
      SetsMembers st t members [.ownershipTransferred t.sender.address newOwner]
  | grant {role : Bytes32} {account : Address} {members : RoleMembers}
      (h : t.call = .grantRole role account)
      (hm : st.members.grantRole t.sender.address role account = .ok members) :
      SetsMembers st t members []
  | revoke {role : Bytes32} {account : Address} {members : RoleMembers}
      (h : t.call = .revokeRole role account)
      (hm : st.members.revokeRole t.sender.address role account = .ok members) :
      SetsMembers st t members []
  | renounce {role : Bytes32} {callerConfirmation : Address} {members : RoleMembers}
      (h : t.call = .renounceRole role callerConfirmation)
      (hm : st.members.renounceRole t.sender.address role callerConfirmation = .ok members) :
      SetsMembers st t members []

/-! ## 3. What a successful transaction does -/

/-- **The changes**: the storage after a successful transaction, and the events it emitted. -/
inductive Change (X : Crypto) (st : OcnRegistry) (t : Tx) : OcnRegistry → List Event → Prop where
  | nodeSet (operator : Address) (domain : Bytes) (hask : SetsNode X t operator domain)
      (hname : domain ≠ []) (hfree : st.uniqueDomains domain = false) :
      Change X st t (st.storeNode operator domain) [.operatorUpdate operator domain]
  | nodeDeleted (operator : Address) (hask : DeletesNode X st t operator)
      (hnode : st.nodeOf operator ≠ []) :
      Change X st t (st.clearNode operator) [.operatorUpdate operator []]
  | partySet (countryCode : Bytes2) (partyId : Bytes3) (roles : List RoleDetails)
      (operator : Address) (name url : Bytes) (owner : Address) (verifiedRoles : List Role)
      (status : PaymentStatus)
      (hcall : t.call = .setParty countryCode partyId roles operator name url)
      (hadmits : SetPartyAdmits st t.answers countryCode partyId roles operator owner verifiedRoles
        status) :
      Change X st t
        (st.storeParty owner
          (st.newDetails countryCode partyId owner verifiedRoles name url status) operator)
        [.partyUpdate countryCode partyId owner verifiedRoles name url status .notVerified true
          operator]
  | partyDeleted (party : Address) (hask : DeletesParty st t party)
      (hlisted : st.operatorOf party ≠ 0)
      (hindex : (st.partyOf party).partyIndex < st.parties.length) :
      Change X st t (st.clearParty party)
        [.partyDelete (st.partyOf party).countryCode (st.partyOf party).partyId party
          (st.partyOf party).roles (st.partyOf party).name (st.partyOf party).url
          (st.partyOf party).paymentStatus (st.partyOf party).cvStatus (st.partyOf party).active]
  | membersSet (members : RoleMembers) (ev : List Event) (hask : SetsMembers st t members ev) :
      Change X st t { st with members := members } ev
  | validatorSet (validator : Address)
      (hcall : t.call = .setPartyRegistrationValidator validator)
      (hadmin : st.members DEFAULT_ADMIN_ROLE t.sender.address = true) (hne : validator ≠ 0) :
      Change X st t { st with partyRegistrationValidator := validator }
        [.partyRegistrationValidatorUpdated validator]

variable {X : Crypto} {st st' : OcnRegistry} {t : Tx} {ev : List Event}

theorem adminDeleteOperator_eq_ok {sender operator : Address} :
    st.adminDeleteOperator sender operator = .ok (st', ev) ↔
      st.members DEFAULT_ADMIN_ROLE sender = true ∧
        st.deleteNodeInternal operator = .ok (st', ev) := by
  unfold adminDeleteOperator
  exact RoleMembers.onlyRole_bind_eq_ok

theorem adminDeleteParty_eq_ok {sender : Address} {countryCode : Bytes2} {partyId : Bytes3} :
    st.adminDeleteParty sender countryCode partyId = .ok (st', ev) ↔
      st.members DEFAULT_ADMIN_ROLE sender = true ∧
        st.deletePartyInternal (st.uniqueParties countryCode partyId) = .ok (st', ev) := by
  unfold adminDeleteParty
  exact RoleMembers.onlyRole_bind_eq_ok

theorem setPartyRegistrationValidator_eq_ok {sender validator : Address} :
    st.setPartyRegistrationValidator sender validator = .ok (st', ev) ↔
      st.members DEFAULT_ADMIN_ROLE sender = true ∧ validator ≠ 0 ∧
        st' = { st with partyRegistrationValidator := validator } ∧
        ev = [.partyRegistrationValidatorUpdated validator] := by
  unfold setPartyRegistrationValidator
  rw [RoleMembers.onlyRole_bind_eq_ok, guard_eq_ok]
  refine ⟨fun hr => ?_, fun hr => ?_⟩
  · obtain ⟨hadmin, hne, h⟩ := hr
    cases h
    exact ⟨hadmin, hne, rfl, rfl⟩
  · obtain ⟨hadmin, hne, rfl, rfl⟩ := hr
    exact ⟨hadmin, hne, rfl⟩

/-- A role function that succeeds replaces the role set and nothing else. -/
theorem change_of_exec (h : exec X st t = .ok (st', ev)) : Change X st t st' ev := by
  unfold exec at h
  dsimp only at h
  cases hcall : t.call with
  | transferOwnership newOwner =>
      rw [hcall] at h
      obtain ⟨members, hm, rfl, rfl⟩ := bind_outcome_eq_ok.mp h
      exact .membersSet members _ (.transfer hcall hm)
  | adminDeleteOperator operator =>
      rw [hcall] at h
      obtain ⟨hadmin, h⟩ := adminDeleteOperator_eq_ok.mp h
      obtain ⟨hn, rfl, rfl⟩ := deleteNodeInternal_eq_ok.mp h
      exact .nodeDeleted operator (.admin hcall hadmin) hn
  | adminDeleteParty countryCode partyId =>
      rw [hcall] at h
      obtain ⟨hadmin, h⟩ := adminDeleteParty_eq_ok.mp h
      obtain ⟨hl, hi, rfl, rfl⟩ := deletePartyInternal_eq_ok.mp h
      exact .partyDeleted _ (.admin hcall hadmin) hl hi
  | setPartyRegistrationValidator validator =>
      rw [hcall] at h
      obtain ⟨hadmin, hne, rfl, rfl⟩ := setPartyRegistrationValidator_eq_ok.mp h
      exact .validatorSet validator hcall hadmin hne
  | setNode domain =>
      rw [hcall] at h
      obtain ⟨hd, hu, rfl, rfl⟩ := setNodeInternal_eq_ok.mp h
      exact .nodeSet _ domain (.direct hcall) hd hu
  | setNodeRaw operator domain v r s =>
      rw [hcall] at h
      obtain ⟨hd, hu, rfl, rfl⟩ := setNodeInternal_eq_ok.mp h
      exact .nodeSet _ domain (.raw hcall) hd hu
  | deleteNode =>
      rw [hcall] at h
      obtain ⟨hn, rfl, rfl⟩ := deleteNodeInternal_eq_ok.mp h
      exact .nodeDeleted _ (.direct hcall) hn
  | deleteNodeRaw operator v r s =>
      rw [hcall] at h
      obtain ⟨hn, rfl, rfl⟩ := deleteNodeInternal_eq_ok.mp h
      exact .nodeDeleted _ (.raw hcall) hn
  | setParty countryCode partyId roles operator name url =>
      rw [hcall] at h
      obtain ⟨owner, verifiedRoles, status, ha, rfl, rfl⟩ := setParty_eq_ok.mp h
      exact .partySet countryCode partyId roles operator name url owner verifiedRoles status hcall
        ha
  | deleteParty =>
      rw [hcall] at h
      obtain ⟨hl, hi, rfl, rfl⟩ := deletePartyInternal_eq_ok.mp h
      exact .partyDeleted _ (.direct hcall) hl hi
  | grantRole role account =>
      rw [hcall] at h
      obtain ⟨members, hm, rfl, rfl⟩ := bind_outcome_eq_ok.mp h
      exact .membersSet members _ (.grant hcall hm)
  | revokeRole role account =>
      rw [hcall] at h
      obtain ⟨members, hm, rfl, rfl⟩ := bind_outcome_eq_ok.mp h
      exact .membersSet members _ (.revoke hcall hm)
  | renounceRole role callerConfirmation =>
      rw [hcall] at h
      obtain ⟨members, hm, rfl, rfl⟩ := bind_outcome_eq_ok.mp h
      exact .membersSet members _ (.renounce hcall hm)

theorem exec_of_change (h : Change X st t st' ev) : exec X st t = .ok (st', ev) := by
  unfold exec
  dsimp only
  cases h with
  | nodeSet operator domain hask hname hfree =>
      cases hask with
      | direct hcall =>
          rw [hcall]
          exact setNodeInternal_eq_ok.mpr ⟨hname, hfree, rfl, rfl⟩
      | raw hcall =>
          rw [hcall]
          exact setNodeInternal_eq_ok.mpr ⟨hname, hfree, rfl, rfl⟩
  | nodeDeleted operator hask hnode =>
      have hdel := deleteNodeInternal_eq_ok.mpr ⟨hnode, rfl, rfl⟩
      cases hask with
      | direct hcall => rw [hcall]; exact hdel
      | raw hcall => rw [hcall]; exact hdel
      | admin hcall hadmin =>
          rw [hcall]
          exact adminDeleteOperator_eq_ok.mpr ⟨hadmin, hdel⟩
  | partySet countryCode partyId roles operator name url owner verifiedRoles status hcall ha =>
      rw [hcall]
      exact setParty_eq_ok.mpr ⟨owner, verifiedRoles, status, ha, rfl, rfl⟩
  | partyDeleted party hask hlisted hindex =>
      have hdel := deletePartyInternal_eq_ok.mpr ⟨hlisted, hindex, rfl, rfl⟩
      cases hask with
      | direct hcall => rw [hcall]; exact hdel
      | admin hcall hadmin =>
          rw [hcall]
          exact adminDeleteParty_eq_ok.mpr ⟨hadmin, hdel⟩
  | membersSet members ev hask =>
      cases hask with
      | transfer hcall hm =>
          rw [hcall]
          exact bind_outcome_eq_ok.mpr ⟨members, hm, rfl, rfl⟩
      | grant hcall hm => rw [hcall]; exact bind_outcome_eq_ok.mpr ⟨members, hm, rfl, rfl⟩
      | revoke hcall hm => rw [hcall]; exact bind_outcome_eq_ok.mpr ⟨members, hm, rfl, rfl⟩
      | renounce hcall hm => rw [hcall]; exact bind_outcome_eq_ok.mpr ⟨members, hm, rfl, rfl⟩
  | validatorSet validator hcall hadmin hne =>
      rw [hcall]
      exact setPartyRegistrationValidator_eq_ok.mpr ⟨hadmin, hne, rfl, rfl⟩

/-- **A transaction succeeds exactly with one of the changes.** -/
theorem exec_eq_ok : exec X st t = .ok (st', ev) ↔ Change X st t st' ev :=
  ⟨change_of_exec, exec_of_change⟩

theorem step_of_change (h : Change X st t st' ev) : (machine X).step st t = st' :=
  Machine.step_ok (M := machine X) (exec_of_change h)

theorem accepts_of_change (h : Change X st t st' ev) : (machine X).Accepts st t :=
  ⟨(st', ev), exec_of_change h⟩

end OcnRegistry

/-! ## 4. Runs of a deployed registry -/

/-- What the constructor was given. -/
structure Deployment where
  deployer : Account
  paymentManager : Address
  partyRegistrationValidator : Address

/-- The storage the constructor leaves. -/
def Deployment.start (D : Deployment) : OcnRegistry :=
  OcnRegistry.construct D.deployer D.paymentManager D.partyRegistrationValidator

/-- **The reachable states**: the storage after these transactions. -/
def Deployment.run (D : Deployment) (X : Crypto) (ts : List Tx) : OcnRegistry :=
  (OcnRegistry.machine X).run D.start ts

/-! ## 5. A deployment to run examples on -/

namespace Sample

def admin : Account := ⟨1, by decide⟩
def operator : Account := ⟨2, by decide⟩
def party : Account := ⟨3, by decide⟩
def stranger : Account := ⟨4, by decide⟩

def deployment : Deployment := ⟨admin, 0x50, 0x60⟩

def domain : Bytes := utf8 "https://node.ocn.org"
def domain2 : Bytes := utf8 "https://node2.ocn.org"

/-- Every text is its own hash; a signature with `v = 27` recovers to whoever signed the digest,
    every other one is malformed and recovers to the zero address. -/
def crypto (signed : List (Bytes × Address)) : Crypto where
  Digest := Bytes
  decEq := inferInstance
  keccak256 := id
  digestBytes := id
  digestBytes_injective := Function.injective_id
  ecrecover := fun digest v _ _ =>
    if v = 27 then ((signed.find? fun m => decide (m.1 = digest)).map (·.2)).getD 0 else 0

/-- Nothing recovers to an address that did not sign it. -/
theorem mem_signed {signed : List (Bytes × Address)} {digest : Bytes} {v : BitVec 8}
    {r s : Bytes32} {a : Address} (ha : a ≠ 0)
    (h : (crypto signed).ecrecover digest v r s = a) : (digest, a) ∈ signed := by
  unfold crypto at h
  dsimp only at h
  split at h
  · cases hf : signed.find? fun m => decide (m.1 = digest) with
    | none => rw [hf] at h; exact absurd h.symm ha
    | some m =>
        rw [hf] at h
        have hm : m.1 = digest := by simpa using List.find?_some hf
        have he : m = (digest, a) := Prod.ext hm h
        exact he ▸ List.mem_of_find?_eq_some hf
  · exact absurd h.symm ha

/-- The digests the operator signed: its listing under `domain`, and the deletion of its node. -/
def signed : List (Bytes × Address) :=
  [(OcnRegistry.setNodeDigest (crypto []) operator.address domain, operator.address),
    (OcnRegistry.deleteNodeDigest (crypto []) operator.address, operator.address)]

/-- A validator that reads the owner from the first byte of the first certificate, and rejects a
    certificate without one. -/
def external : External where
  validateRegistration := fun _ roles =>
    let owner : Address := ((roles.head?.bind (·.certificateData.head?)).getD 0).setWidth 160
    if owner = 0 then .error (.external []) else .ok (owner, roles.map (·.role))
  getPaymentStatus := fun _ _ => .ok .pending
  getPaymentBlock := fun _ _ => .ok (0, 0)

/-- The certificates that name this owner. -/
def certificates (owner : Account) : List RoleDetails :=
  [⟨[owner.address.setWidth 8], [], .cpo⟩]

/-- A registration of this owner under the sample operator. -/
def register (owner : Account) (countryCode : Bytes2) (partyId : Bytes3) : Call :=
  .setParty countryCode partyId (certificates owner) operator.address (utf8 "Company") []

def tx (sender : Account) (call : Call) : Tx := ⟨sender, call, external⟩

/-- A party is registered, deleted, and registered under another key. -/
def registrations : List Tx :=
  [tx operator (.setNode domain), tx party (register party 0x4445 0x4D5350), tx party .deleteParty,
    tx party (register party 0x4652 0x435053)]

end Sample

end Ocn
