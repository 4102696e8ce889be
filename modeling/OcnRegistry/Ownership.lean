/-
  File:      OcnRegistry/Ownership.lean
  Subject:   NO CONTRACT WITHOUT AN ADMIN: `transferOwnership` over the runs of all three contracts.

  The three contracts share one body: grant the role to the new owner, revoke it from the caller. A
  contract that keeps its roles with `AccessControl` is a machine of which one knows which calls
  change roles, and how (`Owned`); what follows is proved once, for all of them.

  If the new owner is the caller, the grant changes nothing and the revoke removes the last admin.

  * `oneAdmin_step_iff` -- a transfer keeps exactly one admin unless it is to the caller itself;
  * `noAdmin_run` -- a contract without an admin never has one again;
  * `orphaned_by_self_transfer` -- the transfer that leaves none, in each contract;
  * `never_orphaned_iff` -- the runs that always have exactly one.
-/
import OcnRegistry.Certification
import OcnRegistry.Payments.Run

namespace Ocn

open Transaction

/-! ## 1. Contracts with owners -/

/-- What a transaction does to the roles: nothing, or what one of the role functions does. -/
def RoleMembers.perform (M : RoleMembers) : Option (Address × RoleCall) → Except Revert RoleMembers
  | none => .ok M
  | some (sender, r) => M.exec sender r

/-- **A contract under `AccessControl`**: `role` tells which transactions change roles, who asks for
    it, and by which function. -/
structure Owned (σ τ ε ω : Type) where
  machine : Machine σ τ ε ω
  members : σ → RoleMembers
  role : τ → Option (Address × RoleCall)
  performs : ∀ {s s' : σ} {t : τ} {ev : List ω},
    machine.exec s t = .ok (s', ev) → (members s).perform (role t) = .ok (members s')
  accepts : ∀ {s : σ} {t : τ} {sender : Address} {r : RoleCall} {M : RoleMembers},
    role t = some (sender, r) → (members s).exec sender r = .ok M → machine.Accepts s t

/-- Exactly one account holds `DEFAULT_ADMIN_ROLE`. -/
def RoleMembers.OneAdmin (M : RoleMembers) : Prop := ∃! a, M DEFAULT_ADMIN_ROLE a = true

/-- No account holds `DEFAULT_ADMIN_ROLE`. -/
def RoleMembers.NoAdmin (M : RoleMembers) : Prop := ∀ a, M DEFAULT_ADMIN_ROLE a = false

namespace RoleMembers

variable {M M' : RoleMembers} {sender newOwner : Address}

/-- The only admin that transfers to itself leaves none. -/
theorem OneAdmin.noAdmin_of_self (h : M.OneAdmin)
    (ht : M.transferOwnership sender sender = .ok M') : M'.NoAdmin := by
  obtain ⟨a, _, honly⟩ := h
  have hsender : sender = a := honly sender (transferOwnership_eq_ok.mp ht).1
  intro b
  by_cases hb : b = sender
  · rw [hb]
    exact transferOwnership_sender ht
  · rw [transferOwnership_admin_ne ht hb hb]
    exact Bool.eq_false_iff.mpr fun hadmin => hb ((honly b hadmin).trans hsender.symm)

theorem OneAdmin.transfer_iff (h : M.OneAdmin)
    (ht : M.transferOwnership sender newOwner = .ok M') : M'.OneAdmin ↔ newOwner ≠ sender := by
  refine ⟨fun hone e => ?_, fun hne => ?_⟩
  · subst e
    obtain ⟨a, hadmin, _⟩ := hone
    rw [h.noAdmin_of_self ht a] at hadmin
    cases hadmin
  · obtain ⟨a, _, honly⟩ := h
    have hsender : sender = a := honly sender (transferOwnership_eq_ok.mp ht).1
    refine ⟨newOwner, (transferOwnership_newOwner ht).mpr hne, fun b hb => ?_⟩
    refine Classical.byContradiction fun hbn => ?_
    dsimp only at hb
    have hbs : b ≠ sender := fun e => by
      rw [e, transferOwnership_sender ht] at hb
      cases hb
    rw [transferOwnership_admin_ne ht hbs hbn] at hb
    exact hbs ((honly b hb).trans hsender.symm)

theorem OneAdmin.setRole_role_ne {role : Bytes32} {account : Address} {member : Bool}
    (h : M.OneAdmin) (hr : DEFAULT_ADMIN_ROLE ≠ role) :
    (M.setRole role account member).OneAdmin := by
  obtain ⟨a, hadmin, honly⟩ := h
  refine ⟨a, (RoleMembers.setRole_role_ne hr).trans hadmin, fun b hb => honly b ?_⟩
  exact (RoleMembers.setRole_role_ne hr).symm.trans hb

/-- Without an admin no role function brings one back: all but `renounceRole` are refused, and
    `renounceRole` only removes. -/
theorem NoAdmin.exec {r : RoleCall} (h : M.NoAdmin) (hr : M.exec sender r = .ok M') :
    M'.NoAdmin := by
  have hrefused : ∀ u, M.onlyRole DEFAULT_ADMIN_ROLE sender ≠ .ok u := fun u hu => by
    have hadmin := onlyRole_eq_ok.mp hu
    rw [h sender] at hadmin
    cases hadmin
  cases r with
  | transferOwnership newOwner =>
      have hadmin := (transferOwnership_eq_ok.mp hr).1
      rw [h sender] at hadmin
      cases hadmin
  | grantRole role account =>
      obtain ⟨u, hu, _⟩ := bind_eq_ok.mp hr
      exact absurd hu (hrefused u)
  | revokeRole role account =>
      obtain ⟨u, hu, _⟩ := bind_eq_ok.mp hr
      exact absurd hu (hrefused u)
  | renounceRole role callerConfirmation =>
      obtain ⟨_, hr⟩ := guard_eq_ok.mp hr
      cases hr
      intro a
      unfold setRole
      split
      · rfl
      · exact h a

end RoleMembers

namespace Owned

variable {σ τ ε ω : Type} (O : Owned σ τ ε ω)

/-- If the transaction changes roles, it does so by `transferOwnership`. -/
def TransfersOnly (t : τ) : Prop :=
  ∀ sender r, O.role t = some (sender, r) → ∃ newOwner, r = .transferOwnership newOwner

/-- After a successful `transferOwnership` the new owner is an admin. -/
def ToNewOwner (s : σ) (t : τ) : Prop :=
  ∀ sender newOwner, O.role t = some (sender, .transferOwnership newOwner) →
    O.machine.Accepts s t → O.members (O.machine.step s t) DEFAULT_ADMIN_ROLE newOwner = true

/-- **A transfer to oneself**: an admin calls `transferOwnership` with its own address. -/
def TransfersToSelf (s : σ) (t : τ) : Prop :=
  ∃ sender, O.role t = some (sender, .transferOwnership sender) ∧
    O.members s DEFAULT_ADMIN_ROLE sender = true

/-- **Never orphaned**: exactly one account is an admin in every state of the run, and after a
    successful transfer it is the new owner. -/
def NeverOrphaned (s : σ) (ts : List τ) : Prop :=
  O.machine.Throughout (fun s => (O.members s).OneAdmin) s ts ∧ O.machine.Along O.ToNewOwner s ts

/-- **The transaction orphans the contract**: a run of it alone is not one that is never orphaned,
    and whatever follows, there is no admin. -/
def Orphans (s : σ) (t : τ) : Prop :=
  ¬ O.NeverOrphaned s [t] ∧ ∀ ts, (O.members (O.machine.run s (t :: ts))).NoAdmin

variable {O} {s : σ} {t : τ} {sender newOwner : Address}

/-! ## 2. One transfer -/

theorem quiet {s' : σ} {ev : List ω} (hrole : O.role t = none)
    (hok : O.machine.exec s t = .ok (s', ev)) : O.members s' = O.members s := by
  have h := O.performs hok
  rw [hrole] at h
  exact (Except.ok.inj h).symm

theorem changes {s' : σ} {ev : List ω} {r : RoleCall} (hrole : O.role t = some (sender, r))
    (hok : O.machine.exec s t = .ok (s', ev)) :
    (O.members s).exec sender r = .ok (O.members s') := by
  have h := O.performs hok
  rwa [hrole] at h

/-- A transfer to oneself succeeds. -/
theorem exec_toSelf (h : O.TransfersToSelf s t) :
    ∃ sender s' ev, O.role t = some (sender, .transferOwnership sender) ∧
      O.machine.exec s t = .ok (s', ev) := by
  obtain ⟨sender, hrole, hadmin⟩ := h
  obtain ⟨⟨s', ev⟩, hok⟩ :=
    O.accepts hrole (RoleMembers.transferOwnership_eq_ok.mpr ⟨hadmin, rfl⟩)
  exact ⟨sender, s', ev, hrole, hok⟩

theorem toSelf_of_exec {s' : σ} {ev : List ω}
    (hrole : O.role t = some (sender, .transferOwnership sender))
    (hok : O.machine.exec s t = .ok (s', ev)) : O.TransfersToSelf s t :=
  ⟨sender, hrole, (RoleMembers.transferOwnership_eq_ok.mp (changes hrole hok)).1⟩

theorem toNewOwner_iff (s : σ) (t : τ) : O.ToNewOwner s t ↔ ¬ O.TransfersToSelf s t := by
  refine ⟨fun h hself => ?_, fun h sender newOwner hrole hacc => ?_⟩
  · obtain ⟨sender, s', ev, hrole, hok⟩ := exec_toSelf hself
    have hnew := h sender sender hrole ⟨_, hok⟩
    rw [Machine.step_ok hok] at hnew
    exact (RoleMembers.transferOwnership_newOwner (changes hrole hok)).mp hnew rfl
  · obtain ⟨⟨s', ev⟩, hok⟩ := hacc
    rw [Machine.step_ok hok]
    refine (RoleMembers.transferOwnership_newOwner (changes hrole hok)).mpr fun e => h ?_
    subst e
    exact toSelf_of_exec hrole hok

/-- **A transfer keeps exactly one admin unless it is to the caller itself.** -/
theorem oneAdmin_step_iff (ht : O.TransfersOnly t) (hs : (O.members s).OneAdmin) :
    (O.members (O.machine.step s t)).OneAdmin ↔ ¬ O.TransfersToSelf s t := by
  cases hok : O.machine.exec s t with
  | error e =>
      rw [Machine.step_error hok]
      refine ⟨fun _ hself => ?_, fun _ => hs⟩
      obtain ⟨_, _, _, _, hok'⟩ := exec_toSelf hself
      rw [hok] at hok'
      cases hok'
  | ok r =>
      obtain ⟨s', ev⟩ := r
      rw [Machine.step_ok hok]
      cases hrole : O.role t with
      | none =>
          rw [quiet hrole hok]
          refine ⟨fun _ hself => ?_, fun _ => hs⟩
          obtain ⟨sender, hrole', _⟩ := hself
          rw [hrole] at hrole'
          cases hrole'
      | some call =>
          obtain ⟨sender, r⟩ := call
          obtain ⟨newOwner, rfl⟩ := ht sender r hrole
          rw [hs.transfer_iff (changes hrole hok)]
          refine not_congr ⟨fun e => ?_, fun hself => ?_⟩
          · subst e
            exact toSelf_of_exec hrole hok
          · obtain ⟨sender', hrole', _⟩ := hself
            rw [hrole] at hrole'
            cases hrole'
            rfl

/-- **A contract without an admin never has one again**, whatever is called. -/
theorem noAdmin_run (ts : List τ) (h : (O.members s).NoAdmin) :
    (O.members (O.machine.run s ts)).NoAdmin := by
  refine Machine.run_invariant_all (I := fun s => (O.members s).NoAdmin)
    (fun s t s' ev hI hok => ?_) ts h
  cases hrole : O.role t with
  | none =>
      rw [quiet hrole hok]
      exact hI
  | some call => exact hI.exec (changes hrole hok)

theorem noAdmin_of_self (hs : (O.members s).OneAdmin) (h : O.TransfersToSelf s t) :
    (O.members (O.machine.step s t)).NoAdmin := by
  obtain ⟨sender, s', ev, hrole, hok⟩ := exec_toSelf h
  rw [Machine.step_ok hok]
  exact hs.noAdmin_of_self (changes hrole hok)

theorem orphans_of_self (hs : (O.members s).OneAdmin) (h : O.TransfersToSelf s t) :
    O.Orphans s t :=
  ⟨fun hnever => (toNewOwner_iff s t).mp hnever.2.1 h,
    fun ts => noAdmin_run ts (noAdmin_of_self hs h)⟩

theorem transfersOnly_of_role (h : O.role t = some (sender, .transferOwnership newOwner)) :
    O.TransfersOnly t := by
  intro sender' r hrole
  rw [h] at hrole
  cases hrole
  exact ⟨newOwner, rfl⟩

theorem not_toSelf_of_role (h : O.role t = some (sender, .transferOwnership newOwner))
    (hne : newOwner ≠ sender) : ¬ O.TransfersToSelf s t := by
  intro hself
  obtain ⟨sender', hrole, _⟩ := hself
  rw [h] at hrole
  cases hrole
  exact hne rfl

/-! ## 3. Runs -/

/-- **Exactly the runs without a transfer to the caller itself are never orphaned**, where roles
    change by transfers only. -/
theorem neverOrphaned_iff (ts : List τ) (hts : ∀ t ∈ ts, O.TransfersOnly t)
    (hs : (O.members s).OneAdmin) :
    O.NeverOrphaned s ts ↔ O.machine.Along (fun s t => ¬ O.TransfersToSelf s t) s ts := by
  have hone : O.machine.Throughout (fun s => (O.members s).OneAdmin) s ts ↔
      O.machine.Along (fun s t => ¬ O.TransfersToSelf s t) s ts :=
    Machine.throughout_iff_along_within (K := fun s => (O.members s).OneAdmin) (fun _ h => h)
      (fun _ _ ht hK h => (oneAdmin_step_iff ht hK).mp h)
      (fun _ _ ht hK h => (oneAdmin_step_iff ht hK).mpr h) ts hts hs
  have hnew : O.machine.Along O.ToNewOwner s ts ↔
      O.machine.Along (fun s t => ¬ O.TransfersToSelf s t) s ts :=
    Machine.along_congr (I := fun _ => True) (fun _ _ _ => trivial)
      (fun s t _ => toNewOwner_iff s t) ts trivial
  exact ⟨fun h => hone.mp h.1, fun h => ⟨hone.mpr h, hnew.mpr h⟩⟩

end Owned

/-- The roles a constructor leaves. -/
theorem RoleMembers.oneAdmin_deployer (deployer : Address) :
    (RoleMembers.setRole (fun _ _ => false) DEFAULT_ADMIN_ROLE deployer true).OneAdmin := by
  refine ⟨deployer, setRole_self, fun b hb => Classical.byContradiction fun hne => ?_⟩
  have hnone : RoleMembers.setRole (fun _ _ => false) DEFAULT_ADMIN_ROLE deployer true
      DEFAULT_ADMIN_ROLE b = false := setRole_account_ne hne
  rw [hb] at hnone
  cases hnone

/-! ## 4. The three contracts -/

namespace OcnRegistry

/-- The role function among the calls, and who makes it. -/
def roleOf (t : Tx) : Option (Address × RoleCall) :=
  match t.call with
  | .transferOwnership newOwner => some (t.sender.address, .transferOwnership newOwner)
  | .grantRole role account => some (t.sender.address, .grantRole role account)
  | .revokeRole role account => some (t.sender.address, .revokeRole role account)
  | .renounceRole role callerConfirmation =>
      some (t.sender.address, .renounceRole role callerConfirmation)
  | _ => none

theorem performs_of_change {X : Crypto} {st st' : OcnRegistry} {t : Tx} {ev : List Event}
    (h : Change X st t st' ev) : st.members.perform (roleOf t) = .ok st'.members := by
  unfold roleOf
  cases h with
  | nodeSet operator domain hask => cases hask with | direct h | raw h => rw [h]; rfl
  | nodeDeleted operator hask => cases hask with | direct h | raw h | admin h => rw [h]; rfl
  | partySet _ _ _ _ _ _ _ _ _ h => rw [h]; rfl
  | partyDeleted party hask => cases hask with | direct h | admin h => rw [h]; rfl
  | validatorSet validator h => rw [h]; rfl
  | membersSet members ev hask =>
      cases hask with
      | transfer h hm | grant h hm | revoke h hm | renounce h hm =>
          rw [h]
          exact hm

theorem accepts_of_role {X : Crypto} {st : OcnRegistry} {t : Tx} {sender : Address} {r : RoleCall}
    {M : RoleMembers} (hrole : roleOf t = some (sender, r))
    (hm : st.members.exec sender r = .ok M) : (machine X).Accepts st t := by
  unfold roleOf at hrole
  split at hrole
  · rename_i hcall
    cases hrole
    exact accepts_of_change (.membersSet _ _ (.transfer hcall hm))
  · rename_i hcall
    cases hrole
    exact accepts_of_change (.membersSet _ _ (.grant hcall hm))
  · rename_i hcall
    cases hrole
    exact accepts_of_change (.membersSet _ _ (.revoke hcall hm))
  · rename_i hcall
    cases hrole
    exact accepts_of_change (.membersSet _ _ (.renounce hcall hm))
  · cases hrole

/-- The registry under `AccessControl`. -/
def owned (X : Crypto) : Owned OcnRegistry Tx Revert Event where
  machine := machine X
  members st := st.members
  role := roleOf
  performs := fun hok => performs_of_change (change_of_exec hok)
  accepts := accepts_of_role

theorem oneAdmin_start (D : Deployment) : D.start.members.OneAdmin :=
  RoleMembers.oneAdmin_deployer D.deployer.address

end OcnRegistry

namespace PartyRegistrationValidator

/-- The validator's machine: a call and who makes it. -/
def machine : Machine PartyRegistrationValidator (Account × ValidatorCall) Revert ValidatorEvent :=
  ⟨fun V t => V.exec t.1.address t.2⟩

def roleOf (t : Account × ValidatorCall) : Option (Address × RoleCall) :=
  (roleCall t.2).map fun r => (t.1.address, r)

theorem performs_of_change {V V' : PartyRegistrationValidator} {t : Account × ValidatorCall}
    (h : V.Change t.1.address t.2 V') : V.members.perform (roleOf t) = .ok V'.members := by
  unfold roleOf
  cases h with
  | membersSet r members hcall hmembers =>
      rw [hcall]
      exact hmembers
  | certificateVerifierSet _ h | verifierSet _ h | verifierRemoved _ h | providerOracleSet _ _ h =>
      rw [h]
      rfl

theorem accepts_of_role {V : PartyRegistrationValidator} {t : Account × ValidatorCall}
    {sender : Address} {r : RoleCall} {M : RoleMembers} (hrole : roleOf t = some (sender, r))
    (hm : V.members.exec sender r = .ok M) : machine.Accepts V t := by
  obtain ⟨account, call⟩ := t
  cases call with
  | transferOwnership | grantRole | revokeRole | renounceRole =>
      cases hrole
      exact ⟨(_, _), bind_outcome_eq_ok.mpr ⟨M, hm, rfl, rfl⟩⟩
  | setCertificateVerifier | setVerifier | removeVerifier | setProviderOracle => cases hrole

/-- The validator under `AccessControl`. -/
def owned : Owned PartyRegistrationValidator (Account × ValidatorCall) Revert ValidatorEvent where
  machine := machine
  members V := V.members
  role := roleOf
  performs := fun hok => performs_of_change (validatorChange_of_exec hok)
  accepts := accepts_of_role

theorem oneAdmin_construct (deployer : Account) (certificateVerifier : Address) :
    (construct deployer certificateVerifier).members.OneAdmin :=
  RoleMembers.oneAdmin_deployer deployer.address

end PartyRegistrationValidator

namespace PaymentState

variable {self : Address} {s s' : PaymentState} {t : PaymentTx self} {ev : List PaymentEntry}

def roleOf : PaymentTx self → Option (Address × RoleCall)
  | .call sender call _ => (OcnPaymentManager.roleCall call).map fun r => (sender.address, r)
  | .mine _ => none

theorem performs_of_exec (hok : (machine self).exec s t = .ok (s', ev)) :
    s.manager.members.perform (roleOf t) = .ok s'.manager.members := by
  cases t with
  | mine blocks =>
      obtain ⟨_, rfl, _⟩ := exec_mine.mp hok
      rfl
  | call sender call answers =>
      obtain ⟨manager, effects, hc, rfl, _⟩ := exec_call.mp hok
      cases hc with
      | membersSet _ r members hcall hmembers =>
          rw [roleOf, hcall]
          exact hmembers
      | paid | withdrawn | operatorSet | fundingSet | stablecoinSet | upgraded => rfl

theorem accepts_of_role {sender : Address} {r : RoleCall} {M : RoleMembers}
    (hrole : roleOf t = some (sender, r)) (hm : s.manager.members.exec sender r = .ok M) :
    (machine self).Accepts s t := by
  cases t with
  | mine blocks => cases hrole
  | call caller call answers =>
      obtain ⟨r', hr, hpair⟩ := Option.map_eq_some_iff.mp hrole
      cases hpair
      exact ⟨_, exec_call.mpr ⟨_, _, .membersSet call _ _ hr hm, rfl, rfl⟩⟩

/-- The payment manager under `AccessControl`. -/
def owned (self : Address) : Owned PaymentState (PaymentTx self) Revert PaymentEntry where
  machine := machine self
  members s := s.manager.members
  role := roleOf
  performs := performs_of_exec
  accepts := accepts_of_role

/-- `initialize` gives its caller a second role, which is not the admin's. -/
theorem oneAdmin_start (D : PaymentDeployment) : D.start.manager.members.OneAdmin :=
  (RoleMembers.oneAdmin_deployer D.deployer.address).setRole_role_ne (by decide)

end PaymentState

/-! ## 5. Never orphaned -/

namespace Sample

/-- The deployer of each contract transfers it to `newOwner`. -/
def registryTransfer (newOwner : Address) : Tx := tx admin (.transferOwnership newOwner)

def validatorTransfer (newOwner : Address) : Account × ValidatorCall :=
  (admin, .transferOwnership newOwner)

def paymentTransfer (newOwner : Address) : PaymentTx paymentDeployment.self :=
  payTx treasurer (.transferOwnership newOwner)

end Sample

/-- **A transfer to oneself orphans the contract**, each of the three: the deployer calls
    `transferOwnership` with its own address, no account is an admin, and none ever is again. -/
theorem orphaned_by_self_transfer :
    ((OcnRegistry.owned (Sample.crypto [])).TransfersOnly (Sample.registryTransfer 1) ∧
      (OcnRegistry.owned (Sample.crypto [])).Orphans Sample.deployment.start
        (Sample.registryTransfer 1)) ∧
    (PartyRegistrationValidator.owned.TransfersOnly (Sample.validatorTransfer 1) ∧
      PartyRegistrationValidator.owned.Orphans
        (PartyRegistrationValidator.construct Sample.admin 0x70) (Sample.validatorTransfer 1)) ∧
    ((PaymentState.owned _).TransfersOnly (Sample.paymentTransfer 0x11) ∧
      (PaymentState.owned _).Orphans Sample.paymentDeployment.start
        (Sample.paymentTransfer 0x11)) :=
  ⟨⟨Owned.transfersOnly_of_role rfl,
      Owned.orphans_of_self (OcnRegistry.oneAdmin_start _) ⟨1, rfl, rfl⟩⟩,
    ⟨Owned.transfersOnly_of_role rfl,
      Owned.orphans_of_self (PartyRegistrationValidator.oneAdmin_construct _ 0x70)
        ⟨1, rfl, rfl⟩⟩,
    ⟨Owned.transfersOnly_of_role rfl,
      Owned.orphans_of_self (PaymentState.oneAdmin_start _) ⟨0x11, rfl, rfl⟩⟩⟩

/-- **Never orphaned**: in each of the three contracts, a run in which roles change by
    `transferOwnership` only has exactly one admin in every state, the new owner after every
    successful transfer, if and only if in no step an admin transfers to itself. -/
theorem never_orphaned_iff (X : Crypto) (D : Deployment) (ts : List Tx)
    (hts : ∀ t ∈ ts, (OcnRegistry.owned X).TransfersOnly t)
    (deployer : Account) (certificateVerifier : Address) (vs : List (Account × ValidatorCall))
    (hvs : ∀ t ∈ vs, PartyRegistrationValidator.owned.TransfersOnly t)
    (P : PaymentDeployment) (ps : List (PaymentTx P.self))
    (hps : ∀ t ∈ ps, (PaymentState.owned P.self).TransfersOnly t) :
    ((OcnRegistry.owned X).NeverOrphaned D.start ts ↔
      (OcnRegistry.machine X).Along (fun st t => ¬ (OcnRegistry.owned X).TransfersToSelf st t)
        D.start ts) ∧
    (PartyRegistrationValidator.owned.NeverOrphaned
        (PartyRegistrationValidator.construct deployer certificateVerifier) vs ↔
      PartyRegistrationValidator.machine.Along
        (fun V t => ¬ PartyRegistrationValidator.owned.TransfersToSelf V t)
        (PartyRegistrationValidator.construct deployer certificateVerifier) vs) ∧
    ((PaymentState.owned P.self).NeverOrphaned P.start ps ↔
      (PaymentState.machine P.self).Along
        (fun s t => ¬ (PaymentState.owned P.self).TransfersToSelf s t) P.start ps) := by
  have hregistry := OcnRegistry.oneAdmin_start D
  have hvalidator := PartyRegistrationValidator.oneAdmin_construct deployer certificateVerifier
  have hpayments := PaymentState.oneAdmin_start P
  refine ⟨?_, ?_, ?_⟩
  · exact Owned.neverOrphaned_iff (O := OcnRegistry.owned X) ts hts hregistry
  · exact Owned.neverOrphaned_iff (O := PartyRegistrationValidator.owned) vs hvs hvalidator
  · exact Owned.neverOrphaned_iff (O := PaymentState.owned P.self) ps hps hpayments

/-- The deployer of each contract hands it to account 3, and no contract is orphaned. -/
theorem never_orphaned_handover :
    (OcnRegistry.owned (Sample.crypto [])).NeverOrphaned Sample.deployment.start
        [Sample.registryTransfer 3] ∧
      PartyRegistrationValidator.owned.NeverOrphaned
        (PartyRegistrationValidator.construct Sample.admin 0x70) [Sample.validatorTransfer 3] ∧
      (PaymentState.owned _).NeverOrphaned Sample.paymentDeployment.start
        [Sample.paymentTransfer 3] := by
  obtain ⟨hregistry, hvalidator, hpayments⟩ :=
    never_orphaned_iff (Sample.crypto []) Sample.deployment [Sample.registryTransfer 3]
      (fun _ ht => List.mem_singleton.mp ht ▸ Owned.transfersOnly_of_role rfl)
      Sample.admin 0x70 [Sample.validatorTransfer 3]
      (fun _ ht => List.mem_singleton.mp ht ▸ Owned.transfersOnly_of_role rfl)
      Sample.paymentDeployment [Sample.paymentTransfer 3]
      (fun _ ht => List.mem_singleton.mp ht ▸ Owned.transfersOnly_of_role rfl)
  refine ⟨hregistry.mpr ⟨?_, trivial⟩, hvalidator.mpr ⟨?_, trivial⟩, hpayments.mpr ⟨?_, trivial⟩⟩
  · exact Owned.not_toSelf_of_role rfl (by decide)
  · exact Owned.not_toSelf_of_role rfl (by decide)
  · exact Owned.not_toSelf_of_role rfl (by decide)

end Ocn
