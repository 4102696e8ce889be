/-
  File:      OcnRegistry/Deploy.lean
  Subject:   THE DEPLOYMENT: from the deployer's hands into those of the timelock. Translated from
             deploy/08b_deployPartyRegistrationValidator.ts and 09_deployOcnRegistry.ts.

  The last script configures the validator and hands validator and registry to the timelock. Every
  transaction is awaited, so the script stops at the first one that is refused, and leaves what was
  done before; and it may be interrupted between any two. `setVerifier` refuses the zero address and
  an address it allows already, and a text that is not resolved to an address is never sent.

  * `finished_iff` -- the script comes to its end exactly if the verifiers resolve to addresses,
    none of them zero, each named once;
  * `deployment_handed_over` -- otherwise both contracts stay with the deployer, and so they do up
    to the first of the two transfers, wherever the script is interrupted; between the two the
    validator is the timelock's and the registry the deployer's; and at the end both are
    administered by the timelock alone and configured as the environment says, for as long as the
    timelock does nothing, whatever others do.
-/
import OcnRegistry.Authority
import OcnRegistry.Gate.Script

namespace Ocn

open Transaction

namespace PartyRegistrationValidator

/-- The write of `setVerifier`. -/
def allow (V : PartyRegistrationValidator) (verifier : Address) : PartyRegistrationValidator :=
  { V with
    allowedCertificateVerifiers := Function.update V.allowedCertificateVerifiers verifier true }

/-- The write of `setProviderOracle`. -/
def ask (V : PartyRegistrationValidator) (role : Role) (oracleAddress : Address) :
    PartyRegistrationValidator :=
  { V with roleOracle := Function.update V.roleOracle role oracleAddress }

end PartyRegistrationValidator

namespace Deploy

/-! ## 1. What the scripts read -/

inductive DeployError where
  | notAnAddress
  | reverted (reason : Revert)
  deriving DecidableEq

def ofRevert {α : Type} : Except Revert α → Except DeployError α
  | .ok a => .ok a
  | .error e => .error (.reverted e)

/-- **The environment of the scripts**: the process, the network, and what scripts before these
    left there. `getAddress` is that of the `ethers` library, which takes a text for an address,
    also without `0x`, or refuses it; `verifyCPO` and `verifyEMP` are the signers of the two test
    certificates. -/
structure Environment where
  ALLOWED_VERIFIERS : Option String
  network : String
  getAddress : Gate.Text → Option Address
  verifyCPO : Except Revert Address
  verifyEMP : Except Revert Address
  cpoOracle : Option Address
  emspOracle : Option Address

/-- **Where the contracts are.** No contract is at the deployer's address. -/
structure Contracts where
  deployer : Account
  timelock : Address
  governor : Address
  paymentManager : Address
  certificateVerifier : Address
  partyRegistrationValidator : Address
  apart : timelock ≠ deployer.address

def developmentChains : List String := ["hardhat", "localhost", "ganache", "minikube"]

namespace Environment

variable (E : Environment)

def isDevChain : Bool := developmentChains.contains E.network

def allowedFromEnv : List Gate.Text :=
  ((((E.ALLOWED_VERIFIERS.getD "").toList.splitOn ',').map Gate.trim).filter fun a => 0 < a.length)

/-- The argument of type `address` a call makes of a text: what does not look like an address is a
    name, and hardhat resolves none. -/
def resolveAddress (target : Gate.Text) : Option Address :=
  if Gate.isHexAddress target then E.getAddress target else none

/-- The verifiers to allow; `none` is a text that is not resolved. -/
def verifiersToAllow : Except DeployError (List (Option Address)) :=
  if 0 < E.allowedFromEnv.length then .ok (E.allowedFromEnv.map E.resolveAddress)
  else if E.isDevChain then do
    let cpoVerifier ← ofRevert E.verifyCPO
    let empVerifier ← ofRevert E.verifyEMP
    .ok ([cpoVerifier, empVerifier].eraseDups.map some)
  else .ok []

end Environment

/-! ## 2. The script -/

/-- The two contracts the script administers. -/
structure Setup where
  validator : PartyRegistrationValidator
  registry : OcnRegistry

inductive SetupTx where
  | setVerifier (verifier : Option Address)
  | setProviderOracle (role : Role) (oracleAddress : Address)
  | transferValidator (newOwner : Address)
  | transferRegistry (newOwner : Address)

namespace Setup

def onValidator (s : Setup) (result : PartyRegistrationValidator.Result) :
    Except DeployError (Outcome Setup Empty) := do
  let (validator, _) ← ofRevert result
  .ok ({ s with validator := validator }, [])

def onRegistry (s : Setup) (result : Except Revert (Outcome OcnRegistry Event)) :
    Except DeployError (Outcome Setup Empty) := do
  let (registry, _) ← ofRevert result
  .ok ({ s with registry := registry }, [])

/-- A transaction of the deployer's. -/
def exec (deployer : Account) (s : Setup) : SetupTx → Except DeployError (Outcome Setup Empty)
  | .setVerifier none => .error .notAnAddress
  | .setVerifier (some verifier) =>
      s.onValidator (s.validator.setVerifier deployer.address verifier)
  | .setProviderOracle role oracleAddress =>
      s.onValidator (s.validator.setProviderOracle deployer.address role oracleAddress)
  | .transferValidator newOwner =>
      s.onValidator (s.validator.transferOwnership deployer.address newOwner)
  | .transferRegistry newOwner =>
      s.onRegistry (s.registry.transferOwnership deployer.address newOwner)

def machine (deployer : Account) : Machine Setup SetupTx DeployError Empty := ⟨exec deployer⟩

end Setup

/-- What the constructors leave. -/
def Contracts.start (C : Contracts) : Setup where
  validator := PartyRegistrationValidator.construct C.deployer C.certificateVerifier
  registry := OcnRegistry.construct C.deployer C.paymentManager C.partyRegistrationValidator

/-- Oracles are set outside development chains, where they are deployed. -/
def Environment.oracles (E : Environment) : List (Role × Address) :=
  if E.isDevChain then []
  else (E.cpoOracle.map fun oracle => (Role.cpo, oracle)).toList ++
    (E.emspOracle.map fun oracle => (Role.emsp, oracle)).toList

/-- The transactions before the transfers. -/
def configurationTxs (E : Environment) (verifiers : List (Option Address)) : List SetupTx :=
  verifiers.map .setVerifier ++
    E.oracles.map fun oracle => .setProviderOracle oracle.1 oracle.2

def setupTxs (E : Environment) (C : Contracts) (verifiers : List (Option Address)) : List SetupTx :=
  configurationTxs E verifiers ++ [.transferValidator C.timelock, .transferRegistry C.timelock]

/-- **The script**: what it leaves, and whether it came to its end. -/
def deployOcnRegistry (E : Environment) (C : Contracts) : Setup × Bool :=
  match E.verifiersToAllow with
  | .error _ => (C.start, false)
  | .ok verifiers => (Setup.machine C.deployer).script C.start (setupTxs E C verifiers)

/-- **The script, interrupted**: what is there after its first `n` transactions. -/
def interruptedAfter (E : Environment) (C : Contracts) (n : Nat) : Setup :=
  match E.verifiersToAllow with
  | .error _ => C.start
  | .ok verifiers => ((Setup.machine C.deployer).script C.start ((setupTxs E C verifiers).take n)).1

/-! ## 3. One transaction -/

theorem ofRevert_eq_ok {α : Type} {x : Except Revert α} {a : α} :
    ofRevert x = .ok a ↔ x = .ok a := by
  cases x <;> simp [ofRevert]

/-- **The only admin.** -/
def SoleAdmin (a : Address) (M : RoleMembers) : Prop :=
  ∀ b, M DEFAULT_ADMIN_ROLE b = true ↔ b = a

/-- Both contracts are administered by this account alone. -/
structure Setup.InHandsOf (s : Setup) (a : Address) : Prop where
  validator : SoleAdmin a s.validator.members
  registry : SoleAdmin a s.registry.members

theorem soleAdmin_deployer (a : Address) :
    SoleAdmin a (RoleMembers.setRole (fun _ _ => false) DEFAULT_ADMIN_ROLE a true) := by
  intro b
  by_cases h : b = a
  · simp [h, RoleMembers.setRole_self]
  · simp [h, RoleMembers.setRole_account_ne h]

/-- The only admin transfers to another account, which is the only admin then. -/
theorem SoleAdmin.transfer {a b : Address} {M : RoleMembers} (h : SoleAdmin a M) (hne : b ≠ a) :
    ∃ M', M.transferOwnership a b = .ok M' ∧ SoleAdmin b M' := by
  refine ⟨_, RoleMembers.transferOwnership_eq_ok.mpr ⟨(h a).mpr rfl, rfl⟩, fun c => ?_⟩
  by_cases hca : c = a
  · simp [hca, RoleMembers.setRole_self, hne.symm]
  · rw [RoleMembers.setRole_account_ne hca]
    by_cases hcb : c = b
    · simp [hcb, RoleMembers.setRole_self]
    · rw [RoleMembers.setRole_account_ne hcb, h c]
      simp [hca, hcb]

section Steps

variable {deployer : Account} {s s' : Setup} {ev : List Empty}

theorem onValidator_eq_ok {result : PartyRegistrationValidator.Result} :
    s.onValidator result = .ok (s', ev) ↔
      ∃ V events, result = .ok (V, events) ∧ s' = { s with validator := V } ∧ ev = [] := by
  unfold Setup.onValidator
  rw [bind_eq_ok]
  refine ⟨fun h => ?_, fun h => ?_⟩
  · obtain ⟨⟨V, events⟩, hresult, h⟩ := h
    cases h
    exact ⟨V, events, ofRevert_eq_ok.mp hresult, rfl, rfl⟩
  · obtain ⟨V, events, hresult, rfl, rfl⟩ := h
    exact ⟨(V, events), ofRevert_eq_ok.mpr hresult, rfl⟩

/-- **`setVerifier` by the admin** takes an address that is not zero and not allowed yet. -/
theorem exec_setVerifier (h : s.InHandsOf deployer.address) {verifier : Option Address} :
    (Setup.machine deployer).exec s (.setVerifier verifier) = .ok (s', ev) ↔
      ∃ a, verifier = some a ∧ a ≠ 0 ∧ s.validator.isAllowedVerifier a = false ∧ ev = [] ∧
        s' = { s with validator := s.validator.allow a } := by
  have hadmin := (h.validator deployer.address).mpr rfl
  cases verifier with
  | none => exact ⟨fun hok => (by cases hok), fun ⟨_, hsome, _⟩ => (by cases hsome)⟩
  | some a =>
      refine onValidator_eq_ok.trans ⟨fun hok => ?_, fun hok => ?_⟩
      · obtain ⟨V, events, hresult, rfl, rfl⟩ := hok
        obtain ⟨_, hresult⟩ := RoleMembers.onlyRole_bind_eq_ok.mp hresult
        obtain ⟨hne, hresult⟩ := guard_eq_ok.mp hresult
        obtain ⟨hnew, hresult⟩ := guard_eq_ok.mp hresult
        cases hresult
        exact ⟨a, rfl, hne, Bool.eq_false_iff.mpr hnew, rfl, rfl⟩
      · obtain ⟨_, hsome, hne, hnew, rfl, rfl⟩ := hok
        cases hsome
        refine ⟨_, [.verifierUpdated a true], RoleMembers.onlyRole_bind_eq_ok.mpr ⟨hadmin, ?_⟩, rfl,
          rfl⟩
        exact guard_eq_ok.mpr ⟨hne, guard_eq_ok.mpr ⟨Bool.eq_false_iff.mp hnew, rfl⟩⟩

/-- **`setProviderOracle` by the admin** is never refused. -/
theorem exec_setProviderOracle (h : s.InHandsOf deployer.address) (role : Role)
    (oracleAddress : Address) :
    (Setup.machine deployer).exec s (.setProviderOracle role oracleAddress) =
      .ok ({ s with validator := s.validator.ask role oracleAddress }, []) :=
  onValidator_eq_ok.mpr ⟨_, _, RoleMembers.onlyRole_bind_eq_ok.mpr
    ⟨(h.validator deployer.address).mpr rfl, rfl⟩, rfl, rfl⟩

/-- Both transfers by the only admin succeed, and the new owner is the only admin then. -/
theorem exec_transferValidator (h : SoleAdmin deployer.address s.validator.members) {b : Address}
    (hne : b ≠ deployer.address) :
    ∃ M, (Setup.machine deployer).exec s (.transferValidator b) =
      .ok ({ s with validator := { s.validator with members := M } }, []) ∧ SoleAdmin b M := by
  obtain ⟨M, hM, hb⟩ := h.transfer hne
  exact ⟨M, onValidator_eq_ok.mpr ⟨_, _, bind_eq_ok.mpr ⟨M, hM, rfl⟩, rfl, rfl⟩, hb⟩

theorem exec_transferRegistry (h : SoleAdmin deployer.address s.registry.members) {b : Address}
    (hne : b ≠ deployer.address) :
    ∃ M, (Setup.machine deployer).exec s (.transferRegistry b) =
      .ok ({ s with registry := { s.registry with members := M } }, []) ∧ SoleAdmin b M := by
  obtain ⟨M, hM, hb⟩ := h.transfer hne
  refine ⟨M, bind_eq_ok.mpr ⟨(_, _), ofRevert_eq_ok.mpr (bind_eq_ok.mpr ⟨M, hM, rfl⟩), rfl⟩, hb⟩

end Steps

/-! ## 4. The three parts of the script -/

section Parts

variable {deployer : Account} {s : Setup}

/-- **Verifiers that can be allowed**: addresses, none of them zero, each named once. -/
structure Usable (verifiers : List (Option Address)) : Prop where
  addresses : none ∉ verifiers
  nonzero : some 0 ∉ verifiers
  once : verifiers.Nodup

/-- What the first part leaves, if it comes to its end. -/
def allowAll (V : PartyRegistrationValidator) (verifiers : List (Option Address)) :
    PartyRegistrationValidator :=
  verifiers.foldl (fun V verifier => verifier.elim V V.allow) V

theorem allowAll_frame (V : PartyRegistrationValidator) (verifiers : List (Option Address)) :
    (allowAll V verifiers).members = V.members ∧
      (allowAll V verifiers).roleOracle = V.roleOracle ∧
      (allowAll V verifiers).certificateVerifier = V.certificateVerifier := by
  induction verifiers generalizing V with
  | nil => exact ⟨rfl, rfl, rfl⟩
  | cons verifier verifiers ih =>
      cases verifier with
      | none => exact ih V
      | some a => exact ih (V.allow a)

theorem isAllowed_allow {V : PartyRegistrationValidator} {a b : Address} :
    (V.allow a).isAllowedVerifier b = true ↔ b = a ∨ V.isAllowedVerifier b = true := by
  show Function.update V.allowedCertificateVerifiers a true b = true ↔ _
  by_cases h : b = a
  · simp [h]
  · simp [h, PartyRegistrationValidator.isAllowedVerifier]

theorem isAllowed_allowAll {V : PartyRegistrationValidator} {verifiers : List (Option Address)}
    {b : Address} : (allowAll V verifiers).isAllowedVerifier b = true ↔
      some b ∈ verifiers ∨ V.isAllowedVerifier b = true := by
  induction verifiers generalizing V with
  | nil => simp [allowAll]
  | cons verifier verifiers ih =>
      cases verifier with
      | none =>
          refine (ih (V := V)).trans ?_
          simp
      | some a =>
          refine (ih (V := V.allow a)).trans ?_
          rw [isAllowed_allow, List.mem_cons, Option.some.injEq, ← or_assoc, or_comm (a := _ ∈ _)]

/-- **The first part** comes to its end exactly if the verifiers can be allowed and none is yet. -/
theorem script_setVerifiers (h : s.InHandsOf deployer.address) (verifiers : List (Option Address)) :
    (((Setup.machine deployer).script s (verifiers.map .setVerifier)).2 = true ↔
      Usable verifiers ∧ ∀ a, some a ∈ verifiers → s.validator.isAllowedVerifier a = false) ∧
    (((Setup.machine deployer).script s (verifiers.map .setVerifier)).2 = true →
      ((Setup.machine deployer).script s (verifiers.map .setVerifier)).1 =
        { s with validator := allowAll s.validator verifiers }) := by
  induction verifiers generalizing s with
  | nil => exact ⟨iff_of_true rfl ⟨⟨List.not_mem_nil, List.not_mem_nil, List.nodup_nil⟩,
      fun _ ha => absurd ha List.not_mem_nil⟩, fun _ => rfl⟩
  | cons verifier verifiers ih =>
      rw [List.map_cons]
      by_cases hacc : (Setup.machine deployer).Accepts s (.setVerifier verifier)
      · obtain ⟨⟨s', ev⟩, hok⟩ := hacc
        obtain ⟨a, rfl, hne, hnew, rfl, rfl⟩ := (exec_setVerifier h).mp hok
        obtain ⟨hiff, hstate⟩ :=
          ih (s := { s with validator := s.validator.allow a }) ⟨h.validator, h.registry⟩
        rw [Machine.script_ok hok]
        refine ⟨hiff.trans ⟨fun hrest => ?_, fun hall => ?_⟩, hstate⟩
        · obtain ⟨husable, hfresh⟩ := hrest
          refine ⟨⟨?_, ?_, List.nodup_cons.mpr ⟨fun ha => ?_, husable.once⟩⟩, fun b hb => ?_⟩
          · simp [husable.addresses]
          · intro hm
            exact (List.mem_cons.mp hm).elim (fun e => hne (Option.some.inj e).symm) husable.nonzero
          · have hold := hfresh a ha
            rw [isAllowed_allow.mpr (.inl rfl)] at hold
            cases hold
          · rcases List.mem_cons.mp hb with e | hb
            · rw [Option.some.inj e]
              exact hnew
            · refine Bool.eq_false_iff.mpr fun hbold => ?_
              have hold := hfresh b hb
              rw [isAllowed_allow.mpr (.inr hbold)] at hold
              cases hold
        · obtain ⟨husable, hfresh⟩ := hall
          obtain ⟨hfirst, honce⟩ := List.nodup_cons.mp husable.once
          refine ⟨⟨fun hm => husable.addresses (List.mem_cons_of_mem _ hm),
            fun hm => husable.nonzero (List.mem_cons_of_mem _ hm), honce⟩, fun b hb => ?_⟩
          refine Bool.eq_false_iff.mpr fun hbold => ?_
          rcases isAllowed_allow.mp hbold with rfl | hbold
          · exact hfirst hb
          · rw [hfresh b (List.mem_cons_of_mem _ hb)] at hbold
            cases hbold
      · rw [Machine.script_refused hacc]
        refine ⟨iff_of_false (by simp) fun hall => hacc ?_, fun hend => (by cases hend)⟩
        obtain ⟨husable, hfresh⟩ := hall
        cases verifier with
        | none => exact absurd List.mem_cons_self husable.addresses
        | some a =>
            refine ⟨_, (exec_setVerifier h).mpr ⟨a, rfl, fun e => husable.nonzero ?_,
              hfresh a List.mem_cons_self, rfl, rfl⟩⟩
            rw [e]
            exact List.mem_cons_self

/-- The transactions that change no role. -/
def SetupTx.Configures : SetupTx → Prop
  | .setVerifier _ => True
  | .setProviderOracle _ _ => True
  | _ => False

theorem configures_of_mem {E : Environment} {verifiers : List (Option Address)} {t : SetupTx}
    (ht : t ∈ configurationTxs E verifiers) : t.Configures := by
  rcases List.mem_append.mp ht with ht | ht
  · obtain ⟨_, _, rfl⟩ := List.mem_map.mp ht
    trivial
  · obtain ⟨_, _, rfl⟩ := List.mem_map.mp ht
    trivial

/-- **Wherever the configuration stops**, the deployer is still the only admin of both contracts. -/
theorem inHandsOf_configured (h : s.InHandsOf deployer.address) {ts : List SetupTx}
    (hts : ∀ t ∈ ts, t.Configures) :
    ((Setup.machine deployer).script s ts).1.InHandsOf deployer.address := by
  refine Machine.script_invariant (I := fun s : Setup => s.InHandsOf deployer.address)
    (fun s t ht s' ev hI hok => ?_) h
  cases t with
  | setVerifier verifier =>
      obtain ⟨a, _, _, _, _, rfl⟩ := (exec_setVerifier hI).mp hok
      exact ⟨hI.validator, hI.registry⟩
  | setProviderOracle role oracle =>
      rw [exec_setProviderOracle hI] at hok
      obtain ⟨rfl, _⟩ := Prod.mk.inj (Except.ok.inj hok)
      exact ⟨hI.validator, hI.registry⟩
  | transferValidator newOwner => exact absurd (hts _ ht) id
  | transferRegistry newOwner => exact absurd (hts _ ht) id

/-- What the second part leaves. -/
def askAll (V : PartyRegistrationValidator) (oracles : List (Role × Address)) :
    PartyRegistrationValidator :=
  oracles.foldl (fun V oracle => V.ask oracle.1 oracle.2) V

theorem askAll_frame (V : PartyRegistrationValidator) (oracles : List (Role × Address)) :
    (askAll V oracles).members = V.members ∧
      (askAll V oracles).allowedCertificateVerifiers = V.allowedCertificateVerifiers ∧
      (askAll V oracles).certificateVerifier = V.certificateVerifier := by
  induction oracles generalizing V with
  | nil => exact ⟨rfl, rfl, rfl⟩
  | cons oracle oracles ih => exact ih (V.ask oracle.1 oracle.2)

/-- **The second part** is never refused. -/
theorem script_oracles (h : s.InHandsOf deployer.address) (oracles : List (Role × Address)) :
    (Setup.machine deployer).script s
        (oracles.map fun oracle => .setProviderOracle oracle.1 oracle.2) =
      ({ s with validator := askAll s.validator oracles }, true) := by
  induction oracles generalizing s with
  | nil => rfl
  | cons oracle oracles ih =>
      exact (Machine.script_ok (exec_setProviderOracle h oracle.1 oracle.2)).trans
        (ih ⟨h.validator, h.registry⟩)

/-- The oracle of each role, which development chains do without. -/
def Environment.oracleOf (E : Environment) : Role → Address
  | .cpo => if E.isDevChain then 0 else E.cpoOracle.getD 0
  | .emsp => if E.isDevChain then 0 else E.emspOracle.getD 0
  | _ => 0

theorem askAll_oracles (E : Environment) {V : PartyRegistrationValidator}
    (hnone : V.roleOracle = fun _ => 0) : (askAll V E.oracles).roleOracle = E.oracleOf := by
  funext role
  unfold askAll Environment.oracles
  cases hdev : E.isDevChain with
  | true => cases role <;> simp [Environment.oracleOf, hdev, hnone]
  | false =>
      cases hcpo : E.cpoOracle <;> cases hemsp : E.emspOracle <;> cases role <;>
        simp [Environment.oracleOf, PartyRegistrationValidator.ask, hdev, hcpo, hemsp, hnone]

/-- **The third part**: both transfers. -/
theorem script_transfers (h : s.InHandsOf deployer.address) {b : Address}
    (hne : b ≠ deployer.address) :
    ∃ M M', (Setup.machine deployer).script s [.transferValidator b, .transferRegistry b] =
      (⟨{ s.validator with members := M }, { s.registry with members := M' }⟩, true) ∧
        SoleAdmin b M ∧ SoleAdmin b M' := by
  obtain ⟨M, hfirst, hM⟩ := exec_transferValidator h.validator hne
  obtain ⟨M', hsecond, hM'⟩ := exec_transferRegistry
    (s := { s with validator := { s.validator with members := M } }) h.registry hne
  exact ⟨M, M', (Machine.script_ok hfirst).trans (Machine.script_ok hsecond), hM, hM'⟩

end Parts

/-! ## 5. The whole script -/

section Whole

variable {E : Environment} {C : Contracts} {verifiers : List (Option Address)}

theorem inHandsOf_start (C : Contracts) : C.start.InHandsOf C.deployer.address :=
  ⟨soleAdmin_deployer _, soleAdmin_deployer _⟩

/-- No verifier is allowed by the constructor. -/
theorem script_start : ((Setup.machine C.deployer).script C.start
    (verifiers.map .setVerifier)).2 = true ↔ Usable verifiers :=
  (script_setVerifiers (inHandsOf_start C) verifiers).1.trans
    ⟨fun h => h.1, fun h => ⟨h, fun _ _ => rfl⟩⟩

/-- **What the configuration leaves**: both contracts are still the deployer's. -/
theorem script_configuration (E : Environment) (C : Contracts) (h : Usable verifiers) :
    (Setup.machine C.deployer).script C.start (configurationTxs E verifiers) =
      (⟨askAll (allowAll C.start.validator verifiers) E.oracles, C.start.registry⟩, true) ∧
      Setup.InHandsOf ⟨askAll (allowAll C.start.validator verifiers) E.oracles, C.start.registry⟩
        C.deployer.address := by
  have hend := (script_start (C := C)).mpr h
  have hstate := (script_setVerifiers (inHandsOf_start C) verifiers).2 hend
  obtain ⟨hallow, _, _⟩ := allowAll_frame C.start.validator verifiers
  have hfirst : Setup.InHandsOf ⟨allowAll C.start.validator verifiers, C.start.registry⟩
      C.deployer.address :=
    ⟨by rw [hallow]; exact (inHandsOf_start C).validator, (inHandsOf_start C).registry⟩
  have hscript : (Setup.machine C.deployer).script C.start (configurationTxs E verifiers) =
      (⟨askAll (allowAll C.start.validator verifiers) E.oracles, C.start.registry⟩, true) := by
    unfold configurationTxs
    rw [Machine.script_append, if_pos hend, hstate, script_oracles hfirst]
  refine ⟨hscript, ?_⟩
  have hts : ∀ t ∈ configurationTxs E verifiers, t.Configures := fun _ => configures_of_mem
  have hkept := inHandsOf_configured (inHandsOf_start C) hts
  rw [hscript] at hkept
  exact hkept

/-- **What the script leaves when it comes to its end.** -/
theorem deploy_finished (hread : E.verifiersToAllow = .ok verifiers) (h : Usable verifiers) :
    ∃ M M', SoleAdmin C.timelock M ∧ SoleAdmin C.timelock M' ∧ deployOcnRegistry E C =
      (⟨{ askAll (allowAll C.start.validator verifiers) E.oracles with members := M },
        { C.start.registry with members := M' }⟩, true) := by
  obtain ⟨hconfigured, hhands⟩ := script_configuration E C h
  obtain ⟨M, M', htransfers, hM, hM'⟩ := script_transfers hhands C.apart
  refine ⟨M, M', hM, hM', ?_⟩
  unfold deployOcnRegistry
  rw [hread]
  dsimp only [setupTxs]
  rw [Machine.script_append, hconfigured, if_pos rfl]
  exact htransfers

/-- **Up to the transfers** the script can be interrupted anywhere: both contracts are the
    deployer's. -/
theorem interrupted_before (hread : E.verifiersToAllow = .ok verifiers) {n : Nat}
    (hn : n ≤ (configurationTxs E verifiers).length) :
    (interruptedAfter E C n).InHandsOf C.deployer.address := by
  unfold interruptedAfter
  rw [hread]
  dsimp only [setupTxs]
  rw [List.take_append_of_le_length hn]
  exact inHandsOf_configured (inHandsOf_start C) fun t ht =>
    configures_of_mem (List.mem_of_mem_take ht)

/-- **Between the two transfers** the contracts are in different hands. -/
theorem interrupted_between (hread : E.verifiersToAllow = .ok verifiers) (h : Usable verifiers) :
    SoleAdmin C.timelock
        (interruptedAfter E C ((configurationTxs E verifiers).length + 1)).validator.members ∧
      SoleAdmin C.deployer.address
        (interruptedAfter E C ((configurationTxs E verifiers).length + 1)).registry.members := by
  obtain ⟨hconfigured, hhands⟩ := script_configuration E C h
  obtain ⟨M, hfirst, hM⟩ := exec_transferValidator hhands.validator C.apart
  unfold interruptedAfter
  rw [hread]
  dsimp only [setupTxs]
  rw [List.take_length_add_append, Machine.script_append, hconfigured, if_pos rfl,
    List.take_succ_cons, List.take_zero, Machine.script_ok hfirst]
  exact ⟨hM, hhands.registry⟩

/-- **From the second transfer on** there is nothing left to interrupt. -/
theorem interrupted_after (hread : E.verifiersToAllow = .ok verifiers) {n : Nat}
    (hn : (configurationTxs E verifiers).length + 2 ≤ n) :
    interruptedAfter E C n = (deployOcnRegistry E C).1 := by
  unfold interruptedAfter deployOcnRegistry
  rw [hread]
  dsimp only
  rw [List.take_of_length_le]
  simpa [setupTxs] using hn

/-- **Where the script stops otherwise**: at a verifier, if it is not interrupted before, with both
    contracts in the deployer's hands. -/
theorem deploy_stopped (h : ∀ verifiers, E.verifiersToAllow = .ok verifiers → ¬ Usable verifiers) :
    (deployOcnRegistry E C).2 = false ∧
      (deployOcnRegistry E C).1.InHandsOf C.deployer.address ∧
      ∀ n, (interruptedAfter E C n).InHandsOf C.deployer.address := by
  cases hread : E.verifiersToAllow with
  | error e =>
      unfold deployOcnRegistry interruptedAfter
      rw [hread]
      exact ⟨rfl, inHandsOf_start C, fun _ => inHandsOf_start C⟩
  | ok verifiers =>
      have hstop : ((Setup.machine C.deployer).script C.start (configurationTxs E verifiers)).2 ≠
          true := by
        have hverifiers := fun hend => h verifiers hread ((script_start (C := C)).mp hend)
        unfold configurationTxs
        rw [Machine.script_append, if_neg hverifiers]
        exact hverifiers
      have hts : ∀ t ∈ configurationTxs E verifiers, t.Configures := fun _ => configures_of_mem
      have hhands := inHandsOf_configured (inHandsOf_start C) hts
      have hwhole : deployOcnRegistry E C =
          (Setup.machine C.deployer).script C.start (configurationTxs E verifiers) := by
        unfold deployOcnRegistry
        rw [hread]
        dsimp only [setupTxs]
        rw [Machine.script_append, if_neg hstop]
      rw [hwhole]
      refine ⟨Bool.eq_false_iff.mpr hstop, hhands, fun n => ?_⟩
      by_cases hn : n ≤ (configurationTxs E verifiers).length
      · exact interrupted_before hread hn
      · obtain ⟨i, rfl⟩ := Nat.exists_eq_add_of_le (Nat.le_of_not_le hn)
        unfold interruptedAfter
        rw [hread]
        dsimp only [setupTxs]
        rw [List.take_length_add_append, Machine.script_append, if_neg hstop]
        exact hhands

/-- **The script comes to its end** exactly if the verifiers it reads can be allowed. -/
theorem finished_iff : (deployOcnRegistry E C).2 = true ↔
    ∃ verifiers, E.verifiersToAllow = .ok verifiers ∧ Usable verifiers := by
  refine ⟨fun hend => ?_, fun ⟨verifiers, hread, h⟩ => ?_⟩
  · refine Classical.byContradiction fun hnone => ?_
    have hstop := (deploy_stopped (C := C) fun verifiers hread h => hnone ⟨verifiers, hread, h⟩).1
    rw [hend] at hstop
    cases hstop
  · obtain ⟨_, _, _, _, e⟩ := deploy_finished (C := C) hread h
    rw [e]

end Whole

/-! ## 6. Afterwards -/

/-- **Configured**: the registry asks the contracts it was deployed with, and the validator takes
    the certificates of these verifiers, asks the environment's oracles, and reads certificates
    where it was told to. -/
structure Setup.ConfiguredAs (s : Setup) (E : Environment) (C : Contracts)
    (verifiers : List (Option Address)) : Prop where
  paymentManager : s.registry.paymentManager = C.paymentManager
  partyRegistrationValidator :
    s.registry.partyRegistrationValidator = C.partyRegistrationValidator
  certificateVerifier : s.validator.certificateVerifier = C.certificateVerifier
  oracles : s.validator.getProviderOracle = E.oracleOf
  allowed : ∀ a, s.validator.isAllowedVerifier a = true ↔ some a ∈ verifiers

/-- The state of both contracts after calls to each. -/
def Setup.after (X : Crypto) (s : Setup) (calls : List (Account × ValidatorCall)) (ts : List Tx) :
    Setup :=
  ⟨PartyRegistrationValidator.machine.run s.validator calls,
    (OcnRegistry.machine X).run s.registry ts⟩

/-- The only admin stays the only one while it does nothing. -/
theorem SoleAdmin.run {σ τ ε ω : Type} {O : Owned σ τ ε ω} {s : σ} {ts : List τ} {a : Address}
    (h : SoleAdmin a (O.members s))
    (hts : ∀ t ∈ ts, ∀ sender r, O.role t = some (sender, r) → sender ≠ a) :
    SoleAdmin a (O.members (O.machine.run s ts)) := by
  have hasks : ∀ t ∈ ts, O.AsksOutside s t := fun t ht sender r hrole =>
    Bool.eq_false_iff.mpr fun hadmin => hts t ht sender r hrole ((h sender).mp hadmin)
  intro b
  rw [Owned.members_run hasks, h b]
  refine ⟨fun hb => hb.1, fun hb => ⟨hb, fun t ht hren => ?_⟩⟩
  exact hts t ht b _ hren hb

/-- **What was handed over stays so**, as long as the timelock calls neither contract. -/
theorem handed_over_stays (hread : E.verifiersToAllow = .ok verifiers) (husable : Usable verifiers)
    (X : Crypto) {calls : List (Account × ValidatorCall)} {ts : List Tx}
    (hcalls : ∀ t ∈ calls, t.1.address ≠ C.timelock)
    (hts : ∀ t ∈ ts, t.sender.address ≠ C.timelock) :
    ((deployOcnRegistry E C).1.after X calls ts).InHandsOf C.timelock ∧
      ((deployOcnRegistry E C).1.after X calls ts).ConfiguredAs E C verifiers := by
  obtain ⟨M, M', hM, hM', hstate⟩ := deploy_finished (C := C) hread husable
  rw [hstate]
  obtain ⟨_, hroles, hverifier⟩ := allowAll_frame C.start.validator verifiers
  obtain ⟨_, hkept, hverifier'⟩ := askAll_frame (allowAll C.start.validator verifiers) E.oracles
  have hquietV := Governed.settings_run (G := PartyRegistrationValidator.governed)
    (s := { askAll (allowAll C.start.validator verifiers) E.oracles with members := M })
    fun t ht sender hcaller => Bool.eq_false_iff.mpr fun hadmin => hcalls t ht
      ((Option.some.inj hcaller).trans ((hM sender).mp hadmin))
  have hquietR := Governed.settings_run (G := OcnRegistry.governed X)
    (s := { C.start.registry with members := M' })
    fun t ht sender hcaller => Bool.eq_false_iff.mpr fun hadmin => hts t ht
      ((Option.some.inj hcaller).trans ((hM' sender).mp hadmin))
  obtain ⟨hallowed, hrest⟩ := Prod.mk.inj hquietV
  obtain ⟨horacle, hreads⟩ := Prod.mk.inj hrest
  obtain ⟨hpayments, hvalidator⟩ := Prod.mk.inj hquietR
  refine ⟨⟨?_, ?_⟩, ⟨hpayments, hvalidator, hreads.trans (hverifier'.trans hverifier),
    horacle.trans (askAll_oracles E hroles), fun a => ?_⟩⟩
  · refine SoleAdmin.run (O := PartyRegistrationValidator.owned) hM fun t ht sender r hrole => ?_
    exact Option.some.inj (PartyRegistrationValidator.governed.asks hrole) ▸ hcalls t ht
  · refine SoleAdmin.run (O := OcnRegistry.owned X) hM' fun t ht sender r hrole => ?_
    exact Option.some.inj ((OcnRegistry.governed X).asks hrole) ▸ hts t ht
  · have hallow : (allowAll C.start.validator verifiers).isAllowedVerifier a = true ↔
        some a ∈ verifiers ∨ C.start.validator.isAllowedVerifier a = true := isAllowed_allowAll
    have hsame := congrFun (hallowed.trans hkept) a
    refine (Eq.to_iff (congrArg (· = true) hsame)).trans (hallow.trans (or_iff_left ?_))
    exact Bool.false_ne_true

/-- **The deployment hands over last**: the script comes to its end exactly if the verifiers it
    reads resolve to addresses, none zero, each named once. If it does not, the deployer is the only
    admin of validator and registry, wherever it was interrupted. If it does, so the deployer is up
    to the first transfer; between the two, the validator is the timelock's and the registry the
    deployer's; and at the end both are the timelock's, configured as the environment says, and so
    it stays in every run in which the timelock calls neither. -/
theorem deployment_handed_over (E : Environment) (C : Contracts) :
    ((deployOcnRegistry E C).2 = true ↔
      ∃ verifiers, E.verifiersToAllow = .ok verifiers ∧ Usable verifiers) ∧
    ((deployOcnRegistry E C).2 = false →
      (deployOcnRegistry E C).1.InHandsOf C.deployer.address ∧
        ∀ n, (interruptedAfter E C n).InHandsOf C.deployer.address) ∧
    ∀ verifiers, E.verifiersToAllow = .ok verifiers → (deployOcnRegistry E C).2 = true →
      (∀ n ≤ (configurationTxs E verifiers).length,
        (interruptedAfter E C n).InHandsOf C.deployer.address) ∧
      (SoleAdmin C.timelock
          (interruptedAfter E C ((configurationTxs E verifiers).length + 1)).validator.members ∧
        SoleAdmin C.deployer.address
          (interruptedAfter E C ((configurationTxs E verifiers).length + 1)).registry.members) ∧
      (∀ n, (configurationTxs E verifiers).length + 2 ≤ n →
        interruptedAfter E C n = (deployOcnRegistry E C).1) ∧
      ∀ (X : Crypto) (calls : List (Account × ValidatorCall)) (ts : List Tx),
        (∀ t ∈ calls, t.1.address ≠ C.timelock) → (∀ t ∈ ts, t.sender.address ≠ C.timelock) →
          ((deployOcnRegistry E C).1.after X calls ts).InHandsOf C.timelock ∧
            ((deployOcnRegistry E C).1.after X calls ts).ConfiguredAs E C verifiers := by
  refine ⟨finished_iff, fun hstop => ?_, fun verifiers hread hend => ?_⟩
  · refine (deploy_stopped fun verifiers hread h => ?_).2
    rw [finished_iff.mpr ⟨verifiers, hread, h⟩] at hstop
    cases hstop
  obtain ⟨verifiers', hread', husable⟩ := finished_iff.mp hend
  rw [hread] at hread'
  obtain rfl := Except.ok.inj hread'
  exact ⟨fun n hn => interrupted_before hread hn, interrupted_between hread husable,
    fun n hn => interrupted_after hread hn,
    fun X calls ts hcalls hts => handed_over_stays hread husable X hcalls hts⟩

end Deploy

end Ocn
