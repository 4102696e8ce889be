/-
  File:      OcnRegistry/Payments/Handover.lean
  Subject:   HANDING THE PAYMENT MANAGER OVER: what `transferOwnership` passes on.

  `initialize` gives its caller two roles, `DEFAULT_ADMIN_ROLE` and `UPGRADER_ROLE`.
  `transferOwnership` moves the first. The second guards the upgrade and stays with the deployer.

  * `refused_iff`, `permitted_iff` -- a guarded function asks for its role and for nothing else;
  * `upgrader_run` -- who may upgrade, in every run without outside role changes;
  * `upgrade_not_handed_over` -- the handover the deployment script makes;
  * `handed_over_iff` -- the handovers that are complete.
-/
import OcnRegistry.Payments.Run

namespace Ocn

open Transaction

/-! ## 1. Guarded functions -/

namespace OcnPaymentManager

/-- The role a function asks for; `pay`, `withdrawToRegistryOperator` and `renounceRole` ask for
    none. -/
def neededRole (st : OcnPaymentManager) : PaymentCall → Option Bytes32
  | .setOperator _ => some DEFAULT_ADMIN_ROLE
  | .setFundingYearlyAmount _ => some DEFAULT_ADMIN_ROLE
  | .setStablecoinAddress _ => some DEFAULT_ADMIN_ROLE
  | .transferOwnership _ => some DEFAULT_ADMIN_ROLE
  | .upgradeToAndCall _ => some st.UPGRADER_ROLE
  | .grantRole _ _ => some DEFAULT_ADMIN_ROLE
  | .revokeRole _ _ => some DEFAULT_ADMIN_ROLE
  | .pay _ => none
  | .withdrawToRegistryOperator _ => none
  | .renounceRole _ _ => none

/-- **Refused**: whatever other contracts answer, the call reverts for want of a role. -/
def Refused (st : OcnPaymentManager) (self : Address) (block : Nat) (sender : Address)
    (call : PaymentCall) : Prop :=
  ∃ role, ∀ answers, st.exec self block sender answers call =
    .error (.accessControlUnauthorizedAccount sender role)

/-- **Permitted**: the call does not revert for want of a role, if the proxy takes the new
    implementation. -/
def Permitted (st : OcnPaymentManager) (self : Address) (block : Nat) (sender : Address)
    (call : PaymentCall) : Prop :=
  ∀ answers : PaymentAnswers, (∀ a, answers.upgradeToAndCallUUPS a = .ok ()) →
    ∀ account role, st.exec self block sender answers call ≠
      .error (.accessControlUnauthorizedAccount account role)

variable {st : OcnPaymentManager} {self : Address} {block : Nat} {sender : Address}
  {call : PaymentCall} {role : Bytes32}

theorem neededRole_cases (h : st.neededRole call = some role) :
    role = DEFAULT_ADMIN_ROLE ∨ role = st.UPGRADER_ROLE := by
  cases call with
  | setOperator | setFundingYearlyAmount | setStablecoinAddress | transferOwnership | grantRole
  | revokeRole =>
      cases h
      exact Or.inl rfl
  | upgradeToAndCall =>
      cases h
      exact Or.inr rfl
  | pay | withdrawToRegistryOperator | renounceRole => cases h

/-- A guarded function starts with its guard. -/
theorem refused_of_not_member (hrole : st.neededRole call = some role)
    (h : st.members role sender = false) : st.Refused self block sender call := by
  refine ⟨role, fun answers => ?_⟩
  have hguard := RoleMembers.onlyRole_eq_error h
  cases call with
  | setOperator | setFundingYearlyAmount | setStablecoinAddress | transferOwnership | grantRole
  | revokeRole | upgradeToAndCall =>
      cases hrole
      simp only [exec, setOperator, setFundingYearlyAmount, setStablecoinAddress,
        transferOwnership, RoleMembers.transferOwnership, RoleMembers.grantRole,
        RoleMembers.revokeRole, upgradeToAndCall, authorizeUpgrade, hguard]
      rfl
  | pay | withdrawToRegistryOperator | renounceRole => cases hrole

theorem setFundingYearlyAmount_overflow {amount : Nat}
    (h : st.members DEFAULT_ADMIN_ROLE sender = true) (hfits : ¬ amount * 10 ^ 18 < 2 ^ 256) :
    st.setFundingYearlyAmount sender amount = .error (.panic 0x11) := by
  unfold setFundingYearlyAmount checkedMul checkedWord RoleMembers.onlyRole
  rw [if_neg hfits, if_pos h]
  rfl

theorem authorizeUpgrade_overflow {newImplementation : Address}
    (h : st.members st.UPGRADER_ROLE sender = true) (hfits : ¬ st.version + 1 < 2 ^ 256) :
    st.authorizeUpgrade sender newImplementation = .error (.panic 0x11) := by
  unfold authorizeUpgrade checkedIncr RoleMembers.onlyRole
  rw [if_neg hfits, if_pos h]
  rfl

/-- With the role, a guarded function succeeds or an amount or the version overflows. -/
theorem permitted_of_member (hrole : st.neededRole call = some role)
    (h : st.members role sender = true) : st.Permitted self block sender call := by
  intro answers haccepts account r herror
  cases call with
  | setOperator operatorAddress =>
      cases hrole
      rw [exec_of_change (.operatorSet operatorAddress h)] at herror
      cases herror
  | setFundingYearlyAmount amount =>
      cases hrole
      by_cases hfits : amount * 10 ^ 18 < 2 ^ 256
      · rw [exec_of_change (.fundingSet amount h hfits)] at herror
        cases herror
      · rw [exec, setFundingYearlyAmount_overflow h hfits] at herror
        cases herror
  | setStablecoinAddress euroStablecoin =>
      cases hrole
      rw [exec_of_change (.stablecoinSet euroStablecoin h)] at herror
      cases herror
  | transferOwnership newOwner =>
      cases hrole
      rw [exec_of_change (.membersSet _ (.transferOwnership newOwner) _ rfl
        (RoleMembers.transferOwnership_eq_ok.mpr ⟨h, rfl⟩))] at herror
      cases herror
  | upgradeToAndCall newImplementation =>
      cases hrole
      by_cases hfits : st.version + 1 < 2 ^ 256
      · rw [exec_of_change (.upgraded newImplementation h hfits (haccepts newImplementation))]
          at herror
        cases herror
      · rw [exec, upgradeToAndCall, authorizeUpgrade_overflow h hfits] at herror
        cases herror
  | grantRole role account =>
      cases hrole
      rw [exec_of_change (.membersSet _ (.grantRole role account) _ rfl
        (RoleMembers.onlyRole_bind_eq_ok.mpr ⟨h, rfl⟩))] at herror
      cases herror
  | revokeRole role account =>
      cases hrole
      rw [exec_of_change (.membersSet _ (.revokeRole role account) _ rfl
        (RoleMembers.onlyRole_bind_eq_ok.mpr ⟨h, rfl⟩))] at herror
      cases herror
  | pay | withdrawToRegistryOperator | renounceRole => cases hrole

theorem not_permitted_of_refused (h : st.Refused self block sender call) :
    ¬ st.Permitted self block sender call := by
  intro hpermitted
  obtain ⟨r, hr⟩ := h
  let accepting : PaymentAnswers :=
    ⟨fun _ _ _ => .ok 0, fun _ _ _ _ => .ok true, fun _ _ _ => .ok true, fun _ => .ok ()⟩
  exact hpermitted accepting (fun _ => rfl) sender r (hr accepting)

theorem refused_iff (hrole : st.neededRole call = some role) :
    st.Refused self block sender call ↔ st.members role sender = false := by
  refine ⟨fun h => Bool.eq_false_iff.mpr fun hmember => ?_, refused_of_not_member hrole⟩
  have hpermitted : st.Permitted self block sender call := permitted_of_member hrole hmember
  exact not_permitted_of_refused h hpermitted

theorem permitted_iff (hrole : st.neededRole call = some role) :
    st.Permitted self block sender call ↔ st.members role sender = true := by
  refine ⟨fun h => Classical.byContradiction fun hn => ?_, permitted_of_member hrole⟩
  have hrefused : st.Refused self block sender call :=
    refused_of_not_member hrole (Bool.eq_false_iff.mpr hn)
  exact not_permitted_of_refused hrefused h

end OcnPaymentManager

/-! ## 2. Who may upgrade -/

namespace PaymentState

variable {self : Address} {s s' : PaymentState} {t : PaymentTx self} {ev : List PaymentEntry}

/-- The step changes no role but by `transferOwnership`. -/
def NoOutsideRoleCall : PaymentTx self → Prop
  | .call _ call _ => ∀ r, OcnPaymentManager.roleCall call = some r → ∃ o, r = .transferOwnership o
  | .mine _ => True

/-- `initialize` is the only function that grants the role of upgrades: its caller alone has it. -/
def UpgraderIs (deployer : Address) (s : PaymentState) : Prop :=
  s.manager.UPGRADER_ROLE = upgraderRole ∧
    ∀ a, s.manager.members upgraderRole a = true ↔ a = deployer

theorem upgrader_exec {deployer : Address} (h : UpgraderIs deployer s) (ht : NoOutsideRoleCall t)
    (hok : (machine self).exec s t = .ok (s', ev)) : UpgraderIs deployer s' := by
  cases t with
  | call sender call answers =>
      obtain ⟨manager, effects, hc, rfl, _⟩ := exec_call.mp hok
      cases hc with
      | membersSet _ r members hcall hmembers =>
          obtain ⟨o, rfl⟩ := ht r hcall
          refine ⟨h.1, fun a => ?_⟩
          have hsame : members upgraderRole a = s.manager.members upgraderRole a :=
            RoleMembers.transferOwnership_role_ne hmembers (by decide)
          show members upgraderRole a = true ↔ _
          rw [hsame]
          exact h.2 a
      | paid | withdrawn | operatorSet | fundingSet | stablecoinSet | upgraded => exact h
  | mine blocks =>
      obtain ⟨_, rfl, _⟩ := exec_mine.mp hok
      exact h

theorem upgrader_run (D : PaymentDeployment) (ts : List (PaymentTx D.self))
    (hts : ∀ t ∈ ts, NoOutsideRoleCall t) : UpgraderIs D.deployer.address (D.run ts) := by
  refine Machine.run_invariant (M := machine D.self) (C := fun _ t => NoOutsideRoleCall t)
    (fun _ _ _ _ hI hC hok => upgrader_exec hI hC hok)
    (Machine.along_of_forall fun t ht _ => hts t ht) ⟨rfl, fun a => ?_⟩
  show ((RoleMembers.setRole _ DEFAULT_ADMIN_ROLE D.deployer.address true).setRole upgraderRole
    D.deployer.address true) upgraderRole a = true ↔ _
  by_cases e : a = D.deployer.address
  · rw [e, RoleMembers.setRole_self]
    exact ⟨fun _ => rfl, fun _ => rfl⟩
  · rw [RoleMembers.setRole_account_ne e, RoleMembers.setRole_account_ne e]
    exact ⟨fun h => (by cases h), fun h => absurd h e⟩

end PaymentState

/-! ## 3. The handover -/

/-- **Handed over**: every guarded function is refused to the old owner and permitted to the new
    one. -/
def HandedOver (self : Address) (s : PaymentState) (oldOwner newOwner : Address) : Prop :=
  ∀ call, (s.manager.neededRole call).isSome = true →
    s.manager.Refused self s.block oldOwner call ∧ s.manager.Permitted self s.block newOwner call

namespace Sample

/-- The deployer hands the manager over to another account, as the deployment script does to the
    Timelock. -/
def handover : List (PaymentTx paymentDeployment.self) :=
  [payTx treasurer (.transferOwnership 0x13)]

end Sample

/-- **The upgrade is not handed over**: after the deployer's transfer the deployer still upgrades,
    and the new owner is refused. -/
theorem upgrade_not_handed_over :
    ¬ HandedOver Sample.paymentDeployment.self
        (Sample.paymentDeployment.run Sample.handover) 0x11 0x13 ∧
      (Sample.paymentDeployment.run Sample.handover).manager.members DEFAULT_ADMIN_ROLE 0x13 =
        true ∧
      (Sample.paymentDeployment.run Sample.handover).manager.Permitted
        Sample.paymentDeployment.self 1 0x11 (.upgradeToAndCall 0xBAD) ∧
      (Sample.paymentDeployment.run Sample.handover).manager.Refused
        Sample.paymentDeployment.self 1 0x13 (.upgradeToAndCall 0xBAD) := by
  have hdeployer : (Sample.paymentDeployment.run Sample.handover).manager.members upgraderRole
      0x11 = true := by decide +kernel
  have howner : (Sample.paymentDeployment.run Sample.handover).manager.members upgraderRole
      0x13 = false := by decide +kernel
  refine ⟨fun h => ?_, by decide +kernel, (OcnPaymentManager.permitted_iff rfl).mpr hdeployer,
    (OcnPaymentManager.refused_iff rfl).mpr howner⟩
  have hlost : (Sample.paymentDeployment.run Sample.handover).manager.members upgraderRole
      0x11 = false := (OcnPaymentManager.refused_iff rfl).mp (h (.upgradeToAndCall 0xBAD) rfl).1
  rw [hdeployer] at hlost
  cases hlost

/-- **A handover is complete exactly if the new owner is the deployer**: for every successful
    `transferOwnership` to another account, in every run in which roles change by transfers only. -/
theorem handed_over_iff (D : PaymentDeployment) (ts : List (PaymentTx D.self))
    (hts : ∀ t ∈ ts, PaymentState.NoOutsideRoleCall t) (oldOwner : Caller D.self)
    (newOwner : Address) (answers : PaymentAnswers) (hne : newOwner ≠ oldOwner.address)
    (hok : (PaymentState.machine D.self).Accepts (D.run ts)
      (.call oldOwner (.transferOwnership newOwner) answers)) :
    HandedOver D.self
        (D.run (ts ++ [.call oldOwner (.transferOwnership newOwner) answers])) oldOwner.address
        newOwner ↔
      newOwner = D.deployer.address := by
  obtain ⟨⟨s', ev⟩, hexec⟩ := hok
  have hrun : D.run (ts ++ [.call oldOwner (.transferOwnership newOwner) answers]) = s' :=
    (D.run_concat ts _).trans (Machine.step_ok hexec)
  have ht : PaymentState.NoOutsideRoleCall
      (.call oldOwner (.transferOwnership newOwner) answers : PaymentTx D.self) :=
    fun r hr => ⟨newOwner, (Option.some.inj hr).symm⟩
  have hupgrader : PaymentState.UpgraderIs D.deployer.address s' :=
    PaymentState.upgrader_exec (PaymentState.upgrader_run D ts hts) ht hexec
  rw [hrun]
  obtain ⟨manager, effects, hc, rfl, _⟩ := PaymentState.exec_call.mp hexec
  cases hc with
  | membersSet _ r members hcall hmembers =>
      cases hcall
      refine ⟨fun h => ?_, fun e call hgated => ?_⟩
      · have hpermitted := (OcnPaymentManager.permitted_iff rfl).mp
          (h (.upgradeToAndCall 0) rfl).2
        rw [hupgrader.1] at hpermitted
        exact (hupgrader.2 newOwner).mp hpermitted
      · obtain ⟨role, hrole⟩ := Option.isSome_iff_exists.mp hgated
        rw [OcnPaymentManager.refused_iff hrole, OcnPaymentManager.permitted_iff hrole]
        rcases OcnPaymentManager.neededRole_cases hrole with rfl | rfl
        · exact ⟨RoleMembers.transferOwnership_sender hmembers,
            (RoleMembers.transferOwnership_newOwner hmembers).mpr hne⟩
        · rw [hupgrader.1]
          refine ⟨Bool.eq_false_iff.mpr fun hold => ?_, (hupgrader.2 newOwner).mpr e⟩
          exact hne (e.trans ((hupgrader.2 oldOwner.address).mp hold).symm)

/-- The deployer hands over to another account, which hands back: the second handover is
    complete. -/
theorem handed_over_back : HandedOver Sample.paymentDeployment.self
    (Sample.paymentDeployment.run
      (Sample.handover ++ [Sample.payTx Sample.payer (.transferOwnership 0x11)])) 0x13 0x11 :=
  (handed_over_iff Sample.paymentDeployment Sample.handover
    (fun t ht => by
      rw [List.mem_singleton.mp ht]
      exact fun r hr => ⟨0x13, (Option.some.inj hr).symm⟩)
    Sample.payer 0x11 Sample.willing (by decide) ⟨_, rfl⟩).mpr rfl

end Ocn
