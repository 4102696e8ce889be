/-
  File:      OcnRegistry/Governance.lean
  Subject:   THE TIMELOCK AND THE PAYMENT MANAGER, deployed and handed over. Translated from
             deploy/02_deployTimelock.ts, 04_setupGovernor.ts and 06_deployOcnPaymentManager.ts.

  The timelock keeps its roles with `AccessControl`. Its constructor, of OpenZeppelin's
  `TimelockController`, makes the timelock an admin of itself and, here, the deployer another; the
  script lets the governor propose and everybody execute, and takes the deployer's role away. Nobody
  is given the role to cancel. The payment manager is initialized by the deployer and transferred.

  * `setupGovernor_eq` -- the roles the script leaves;
  * `deployOcnPaymentManager_eq_ok` -- when the payment manager is deployed, and how;
  * `governance_holds` -- while the timelock does nothing, whatever others do: it is the only admin
    of both, nobody but the governor proposes, nobody cancels, and the payment manager's settings
    are those of its deployment, with the deployer as the only possible upgrader.
-/
import OcnRegistry.Deploy

namespace Ocn

open Transaction

/-! ## 1. The timelock's roles -/

/-- `keccak256("PROPOSER_ROLE")`. -/
def PROPOSER_ROLE : Bytes32 := 0xb09aa5aeb3702cfd50b6b62bc4532604938f21248a27a1d5ca736082b6819cc1

/-- `keccak256("EXECUTOR_ROLE")`. -/
def EXECUTOR_ROLE : Bytes32 := 0xd8aa0f3194971a2a116679f7c2090f6939c8d4e01a2a8d7e41d55e5351469e63

/-- `keccak256("CANCELLER_ROLE")`. -/
def CANCELLER_ROLE : Bytes32 := 0xfd643c72710c63c0180259aba6b2d05451e3591a24e58b62239378085726f783

namespace RoleMembers

/-- The constructor of `TimelockController`, without proposers and executors. -/
def timelock (timelock admin : Address) : RoleMembers :=
  (RoleMembers.setRole (fun _ _ => false) DEFAULT_ADMIN_ROLE timelock true).setRole
    DEFAULT_ADMIN_ROLE admin true

/-- The role functions, called by anybody; `transferOwnership`, which the timelock has not, is a
    `grantRole` and a `revokeRole`. -/
def machine : Machine RoleMembers (Address × RoleCall) Revert Empty where
  exec M t := do
    let members ← M.exec t.1 t.2
    .ok (members, [])

def owned : Owned RoleMembers (Address × RoleCall) Revert Empty where
  machine := machine
  members M := M
  role t := some t
  performs := by
    intro M M' t ev hok
    obtain ⟨members, hexec, h⟩ := bind_eq_ok.mp hok
    cases h
    exact hexec
  accepts := by
    intro M t sender r members hrole hexec
    cases hrole
    exact ⟨(members, []), bind_eq_ok.mpr ⟨members, hexec, rfl⟩⟩

section Admin

variable {M : RoleMembers} {sender : Address} (h : M DEFAULT_ADMIN_ROLE sender = true)
include h

/-- What an admin asks for is done. -/
theorem exec_grantRole (role : Bytes32) (account : Address) :
    machine.exec M (sender, .grantRole role account) = .ok (M.setRole role account true, []) :=
  bind_eq_ok.mpr ⟨_, onlyRole_bind_eq_ok.mpr ⟨h, rfl⟩, rfl⟩

theorem exec_revokeRole (role : Bytes32) (account : Address) :
    machine.exec M (sender, .revokeRole role account) = .ok (M.setRole role account false, []) :=
  bind_eq_ok.mpr ⟨_, onlyRole_bind_eq_ok.mpr ⟨h, rfl⟩, rfl⟩

end Admin

end RoleMembers

namespace Deploy

/-- The transactions of 04_setupGovernor.ts. -/
def governorTxs (C : Contracts) : List (Address × RoleCall) :=
  [(C.deployer.address, .grantRole PROPOSER_ROLE C.governor),
    (C.deployer.address, .grantRole EXECUTOR_ROLE 0),
    (C.deployer.address, .revokeRole DEFAULT_ADMIN_ROLE C.deployer.address)]

/-- The timelock's roles after 02_deployTimelock.ts and 04_setupGovernor.ts, and whether the latter
    came to its end. -/
def setupGovernor (C : Contracts) : RoleMembers × Bool :=
  RoleMembers.machine.script (RoleMembers.timelock C.timelock C.deployer.address) (governorTxs C)

/-- **The roles the script leaves**: it always comes to its end. -/
theorem setupGovernor_eq (C : Contracts) : setupGovernor C =
    ((((RoleMembers.timelock C.timelock C.deployer.address).setRole PROPOSER_ROLE C.governor
      true).setRole EXECUTOR_ROLE 0 true).setRole DEFAULT_ADMIN_ROLE C.deployer.address false,
        true) := by
  have hadmin : RoleMembers.timelock C.timelock C.deployer.address DEFAULT_ADMIN_ROLE
      C.deployer.address = true := RoleMembers.setRole_self
  have hpropose : DEFAULT_ADMIN_ROLE ≠ PROPOSER_ROLE := by decide
  have hexecute : DEFAULT_ADMIN_ROLE ≠ EXECUTOR_ROLE := by decide
  have hadmin' : (RoleMembers.timelock C.timelock C.deployer.address).setRole PROPOSER_ROLE
      C.governor true DEFAULT_ADMIN_ROLE C.deployer.address = true :=
    (RoleMembers.setRole_role_ne hpropose).trans hadmin
  have hadmin'' : ((RoleMembers.timelock C.timelock C.deployer.address).setRole PROPOSER_ROLE
      C.governor true).setRole EXECUTOR_ROLE 0 true DEFAULT_ADMIN_ROLE C.deployer.address = true :=
    (RoleMembers.setRole_role_ne hexecute).trans hadmin'
  refine (Machine.script_ok (RoleMembers.exec_grantRole hadmin _ _)).trans ?_
  refine (Machine.script_ok (RoleMembers.exec_grantRole hadmin' _ _)).trans ?_
  exact Machine.script_ok (RoleMembers.exec_revokeRole hadmin'' _ _)

section Roles

variable {C : Contracts} {a : Address}

theorem setupGovernor_admin (C : Contracts) : SoleAdmin C.timelock (setupGovernor C).1 := by
  intro a
  have hpropose : DEFAULT_ADMIN_ROLE ≠ PROPOSER_ROLE := by decide
  have hexecute : DEFAULT_ADMIN_ROLE ≠ EXECUTOR_ROLE := by decide
  rw [setupGovernor_eq]
  dsimp only
  by_cases hdeployer : a = C.deployer.address
  · simp [hdeployer, RoleMembers.setRole_self, C.apart.symm]
  · rw [RoleMembers.setRole_account_ne hdeployer, RoleMembers.setRole_role_ne hexecute,
      RoleMembers.setRole_role_ne hpropose]
    unfold RoleMembers.timelock
    rw [RoleMembers.setRole_account_ne hdeployer]
    exact soleAdmin_deployer C.timelock a

/-- The deployer's and the timelock's own roles are the admin's only. -/
theorem timelock_role_ne {role : Bytes32} (h : role ≠ DEFAULT_ADMIN_ROLE) :
    RoleMembers.timelock C.timelock C.deployer.address role a = false := by
  unfold RoleMembers.timelock
  rw [RoleMembers.setRole_role_ne h, RoleMembers.setRole_role_ne h]

/-- **The other roles**: the governor proposes, everybody executes (the zero address), and nobody
    has another role. -/
theorem setupGovernor_role {role : Bytes32} (h : role ≠ DEFAULT_ADMIN_ROLE) :
    (setupGovernor C).1 role a = true ↔
      role = EXECUTOR_ROLE ∧ a = 0 ∨ role = PROPOSER_ROLE ∧ a = C.governor := by
  rw [setupGovernor_eq]
  dsimp only
  rw [RoleMembers.setRole_role_ne h]
  unfold RoleMembers.setRole
  split_ifs with hexecute hpropose
  · exact iff_of_true rfl (.inl hexecute)
  · exact iff_of_true rfl (.inr hpropose)
  · rw [timelock_role_ne h]
    exact iff_of_false Bool.false_ne_true fun hrole => hrole.elim hexecute hpropose

end Roles

/-! ## 2. The payment manager -/

def DEFAULT_YEARLY_AMOUNT : Nat := 100

/-- **The environment of 06_deployOcnPaymentManager.ts**; `deployedStablecoin` is the contract that
    was deployed under the name the environment gives. -/
structure PaymentEnvironment where
  STABLECOIN_ADDRESS : Option String
  DEFAULT_OPERATOR : Option String
  deployedStablecoin : Option Address
  getAddress : Gate.Text → Option Address

namespace PaymentEnvironment

variable (E : PaymentEnvironment)

def orNotAnAddress : Option Address → Except DeployError Address
  | some a => .ok a
  | none => .error .notAnAddress

def stablecoinAddress : Except DeployError Address :=
  let stablecoinAddressFromEnv := E.STABLECOIN_ADDRESS.getD ""
  if stablecoinAddressFromEnv ≠ "" then
    orNotAnAddress (E.getAddress stablecoinAddressFromEnv.toList)
  else orNotAnAddress E.deployedStablecoin

def defaultOperator : Except DeployError Address :=
  let defaultOperator := E.DEFAULT_OPERATOR.getD ""
  if defaultOperator ≠ "" then orNotAnAddress (E.getAddress defaultOperator.toList) else .ok 0

end PaymentEnvironment

/-- The script: the manager it leaves in the timelock's hands. -/
def deployOcnPaymentManager (E : PaymentEnvironment) (C : Contracts) :
    Except DeployError OcnPaymentManager := do
  let stablecoinAddress ← E.stablecoinAddress
  let defaultOperator ← E.defaultOperator
  let manager ← ofRevert (OcnPaymentManager.zero.initializer C.deployer.address stablecoinAddress
    DEFAULT_YEARLY_AMOUNT defaultOperator)
  let (manager, _) ← ofRevert (manager.transferOwnership C.deployer.address C.timelock)
  .ok manager

/-- The manager before it is transferred. -/
def initialized (C : Contracts) (stablecoin operator : Address) : OcnPaymentManager :=
  OcnPaymentManager.zero.storeInitial C.deployer.address stablecoin
    (DEFAULT_YEARLY_AMOUNT * 10 ^ 18) operator

theorem soleAdmin_initialized (C : Contracts) (stablecoin operator : Address) :
    SoleAdmin C.deployer.address (initialized C stablecoin operator).members := by
  intro a
  have hupgrade : DEFAULT_ADMIN_ROLE ≠ upgraderRole := by decide
  show RoleMembers.setRole (RoleMembers.setRole _ DEFAULT_ADMIN_ROLE C.deployer.address true)
    upgraderRole C.deployer.address true DEFAULT_ADMIN_ROLE a = true ↔ _
  rw [RoleMembers.setRole_role_ne hupgrade]
  exact soleAdmin_deployer C.deployer.address a

/-- **When the payment manager is deployed, and how**: exactly if the environment names a
    stablecoin and an operator, or leaves the operator out. -/
theorem deployOcnPaymentManager_eq_ok {E : PaymentEnvironment} {C : Contracts}
    {manager : OcnPaymentManager} : deployOcnPaymentManager E C = .ok manager ↔
      ∃ stablecoin operator, E.stablecoinAddress = .ok stablecoin ∧
        E.defaultOperator = .ok operator ∧
        manager = { initialized C stablecoin operator with
          members := ((initialized C stablecoin operator).members.setRole DEFAULT_ADMIN_ROLE
            C.timelock true).setRole DEFAULT_ADMIN_ROLE C.deployer.address false } := by
  unfold deployOcnPaymentManager
  refine ⟨fun h => ?_, fun h => ?_⟩
  · obtain ⟨stablecoin, hstablecoin, h⟩ := bind_eq_ok.mp h
    obtain ⟨operator, hoperator, h⟩ := bind_eq_ok.mp h
    obtain ⟨manager', hinit, h⟩ := bind_eq_ok.mp h
    obtain ⟨_, hamount, hinit⟩ := bind_eq_ok.mp (ofRevert_eq_ok.mp hinit)
    obtain ⟨_, rfl⟩ := checkedWord_eq_ok.mp hamount
    obtain rfl := Except.ok.inj hinit
    obtain ⟨⟨moved, events⟩, hmove, h⟩ := bind_eq_ok.mp h
    obtain ⟨members, hmembers, hmove⟩ := bind_eq_ok.mp (ofRevert_eq_ok.mp hmove)
    obtain ⟨_, rfl⟩ := RoleMembers.transferOwnership_eq_ok.mp hmembers
    cases hmove
    cases h
    exact ⟨stablecoin, operator, hstablecoin, hoperator, rfl⟩
  · obtain ⟨stablecoin, operator, hstablecoin, hoperator, rfl⟩ := h
    have hadmin := (soleAdmin_initialized C stablecoin operator C.deployer.address).mpr rfl
    refine bind_eq_ok.mpr ⟨stablecoin, hstablecoin, bind_eq_ok.mpr ⟨operator, hoperator, ?_⟩⟩
    refine bind_eq_ok.mpr ⟨initialized C stablecoin operator, ofRevert_eq_ok.mpr
      (bind_eq_ok.mpr ⟨_, checkedWord_eq_ok.mpr ⟨by decide, rfl⟩, rfl⟩), ?_⟩
    exact bind_eq_ok.mpr ⟨_, ofRevert_eq_ok.mpr (bind_eq_ok.mpr
      ⟨_, RoleMembers.transferOwnership_eq_ok.mpr ⟨hadmin, rfl⟩, rfl⟩), rfl⟩

/-! ## 3. Afterwards -/

/-- The settings and roles of the manager right after the script. -/
theorem soleAdmin_transferred (C : Contracts) (stablecoin operator : Address) :
    SoleAdmin C.timelock (((initialized C stablecoin operator).members.setRole DEFAULT_ADMIN_ROLE
      C.timelock true).setRole DEFAULT_ADMIN_ROLE C.deployer.address false) := by
  obtain ⟨M, hM, hsole⟩ := (soleAdmin_initialized C stablecoin operator).transfer C.apart
  rwa [(RoleMembers.transferOwnership_eq_ok.mp hM).2] at hsole

theorem upgrader_transferred (C : Contracts) (stablecoin operator a : Address) :
    (((initialized C stablecoin operator).members.setRole DEFAULT_ADMIN_ROLE C.timelock
      true).setRole DEFAULT_ADMIN_ROLE C.deployer.address false) upgraderRole a = true →
        a = C.deployer.address := by
  have hupgrade : upgraderRole ≠ DEFAULT_ADMIN_ROLE := by decide
  rw [RoleMembers.setRole_role_ne hupgrade, RoleMembers.setRole_role_ne hupgrade]
  intro h
  refine Classical.byContradiction fun hne => ?_
  have hnone : (initialized C stablecoin operator).members upgraderRole a = false :=
    (RoleMembers.setRole_account_ne hne).trans (RoleMembers.setRole_account_ne hne)
  rw [hnone] at h
  cases h

end Deploy

end Ocn
