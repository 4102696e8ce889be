/-
  File:      OcnRegistry/Payments/Run.lean
  Subject:   THE PAYMENT MANAGER AS A MACHINE: calls, blocks, and what one step can change.

  A step is a call by an account, with the answers the other contracts give while it runs, or the
  passing of blocks. The tokens do not call back here: a call runs from its first to its last
  statement (Payments/Reentrancy lifts this). An upgrade is to an implementation of the same code.
  The manager never calls itself, so its callers are the other accounts (`Caller`).

  * `change_iff` -- a call succeeds exactly with one of the changes;
  * `move_of_exec` -- what a step does to the stakes: a payment, a withdrawal, or nothing.
-/
import OcnRegistry.Library.Machine
import OcnRegistry.Payments.Contract

namespace Ocn

open Transaction

/-- The public state-changing functions, `AccessControl`'s and `UUPSUpgradeable`'s included. -/
inductive PaymentCall where
  | pay (party : Address)
  | withdrawToRegistryOperator (party : Address)
  | setOperator (operatorAddress : Address)
  | setFundingYearlyAmount (fundingYearlyAmount : Nat)
  | setStablecoinAddress (euroStablecoin : Address)
  | transferOwnership (newOwner : Address)
  | upgradeToAndCall (newImplementation : Address)
  | grantRole (role : Bytes32) (account : Address)
  | revokeRole (role : Bytes32) (account : Address)
  | renounceRole (role : Bytes32) (callerConfirmation : Address)
  deriving DecidableEq

namespace OcnPaymentManager

/-- The role functions among the calls. -/
def roleCall : PaymentCall → Option RoleCall
  | .transferOwnership newOwner => some (.transferOwnership newOwner)
  | .grantRole role account => some (.grantRole role account)
  | .revokeRole role account => some (.revokeRole role account)
  | .renounceRole role callerConfirmation => some (.renounceRole role callerConfirmation)
  | _ => none

/-- The event of a role function: only `transferOwnership` has one of the contract's own. -/
def roleEffects (sender : Address) : RoleCall → List PaymentEffect
  | .transferOwnership newOwner => [.log (.ownershipTransferred sender newOwner)]
  | _ => []

/-! ## 1. Calls -/

/-- The public functions, dispatched. -/
def exec (self : Address) (block : Nat) (st : OcnPaymentManager) (sender : Address)
    (answers : PaymentAnswers) : PaymentCall → Result
  | .pay party => st.pay self block answers sender party
  | .withdrawToRegistryOperator party => st.withdrawToRegistryOperator block answers party
  | .setOperator operatorAddress => st.setOperator sender operatorAddress
  | .setFundingYearlyAmount amount => st.setFundingYearlyAmount sender amount
  | .setStablecoinAddress euroStablecoin => st.setStablecoinAddress sender euroStablecoin
  | .transferOwnership newOwner => st.transferOwnership sender newOwner
  | .upgradeToAndCall newImplementation => st.upgradeToAndCall answers sender newImplementation
  | .grantRole role account => do
      let members ← st.members.grantRole sender role account
      .ok ({ st with members := members }, [])
  | .revokeRole role account => do
      let members ← st.members.revokeRole sender role account
      .ok ({ st with members := members }, [])
  | .renounceRole role callerConfirmation => do
      let members ← st.members.renounceRole sender role callerConfirmation
      .ok ({ st with members := members }, [])

variable {self : Address} {block : Nat} {st st' : OcnPaymentManager} {sender party : Address}
  {answers : PaymentAnswers} {effects : List PaymentEffect}

theorem payBegin_eq_ok {allowance : Address → Address → Address → Except Revert Nat} {u : Unit} :
    st.payBegin self allowance sender party = .ok u ↔
      st.stakedFunds party = 0 ∧
        ∃ amount, allowance st.euroStablecoin sender self = .ok amount ∧
          st.fundingYearlyAmount ≤ amount := by
  unfold payBegin
  rw [guard_eq_ok, bind_eq_ok]
  refine ⟨fun hr => ?_, fun hr => ?_⟩
  · obtain ⟨hfree, amount, ha, h⟩ := hr
    obtain ⟨hle, _⟩ := guard_eq_ok.mp h
    exact ⟨Nat.eq_zero_of_not_pos hfree, amount, ha, Nat.le_of_not_lt hle⟩
  · obtain ⟨hfree, amount, ha, hle⟩ := hr
    have hnone : ¬ 0 < st.stakedFunds party := Nat.not_lt_of_le (Nat.le_of_eq hfree)
    exact ⟨hnone, amount, ha, guard_eq_ok.mpr ⟨Nat.not_lt_of_le hle, rfl⟩⟩

theorem payEnd_eq_ok {paid : Bool} :
    st.payEnd block sender party paid = .ok (st', effects) ↔
      paid = true ∧ st.stakedFunds party + st.fundingYearlyAmount < 2 ^ 256 ∧
        st' = st.storeStake party (st.stakedFunds party + st.fundingYearlyAmount) block ∧
        effects = [.log (.partyStaked sender party st.fundingYearlyAmount)] := by
  unfold payEnd checkedAdd
  rw [guard_eq_ok, Bool.not_eq_false, bind_eq_ok]
  refine ⟨fun hr => ?_, fun hr => ?_⟩
  · obtain ⟨hpaid, amount, ha, h⟩ := hr
    obtain ⟨hfits, rfl⟩ := checkedWord_eq_ok.mp ha
    cases h
    exact ⟨hpaid, hfits, rfl, rfl⟩
  · obtain ⟨hpaid, hfits, rfl, rfl⟩ := hr
    exact ⟨hpaid, _, checkedWord_eq_ok.mpr ⟨hfits, rfl⟩, rfl⟩

theorem withdrawBegin_eq_ok :
    st.withdrawBegin block party = .ok st' ↔
      st.operatorAddress ≠ 0 ∧ st.stakedFunds party ≠ 0 ∧
        st.stakingBlock party + st.stakingPeriodInBlocks < 2 ^ 256 ∧
        st.stakingBlock party + st.stakingPeriodInBlocks ≤ block ∧ st' = st.clearStake party := by
  unfold withdrawBegin checkedAdd
  rw [guard_eq_ok, guard_eq_ok, bind_eq_ok]
  refine ⟨fun hr => ?_, fun hr => ?_⟩
  · obtain ⟨hoperator, hstake, due, hd, h⟩ := hr
    obtain ⟨hfits, rfl⟩ := checkedWord_eq_ok.mp hd
    obtain ⟨hdue, h⟩ := guard_eq_ok.mp h
    cases h
    exact ⟨hoperator, hstake, hfits, Nat.le_of_not_lt hdue, rfl⟩
  · obtain ⟨hoperator, hstake, hfits, hdue, rfl⟩ := hr
    refine ⟨hoperator, hstake, _, checkedWord_eq_ok.mpr ⟨hfits, rfl⟩, ?_⟩
    exact guard_eq_ok.mpr ⟨Nat.not_lt_of_le hdue, rfl⟩

theorem withdrawEnd_eq_ok {amount : Nat} {paid : Bool} :
    st.withdrawEnd party amount paid = .ok (st', effects) ↔
      paid = true ∧ st' = st ∧ effects = [.log (.stakeWithdrawn party amount)] := by
  unfold withdrawEnd
  rw [guard_eq_ok, Bool.not_eq_false]
  refine ⟨fun hr => ?_, fun hr => ?_⟩
  · obtain ⟨hpaid, h⟩ := hr
    cases h
    exact ⟨hpaid, rfl, rfl⟩
  · obtain ⟨hpaid, rfl, rfl⟩ := hr
    exact ⟨hpaid, rfl⟩

/-! ## 2. What a successful call does -/

/-- **The changes of the payment manager**: the storage and the effects of a successful call. -/
inductive Change (self : Address) (block : Nat) (st : OcnPaymentManager) (sender : Address)
    (answers : PaymentAnswers) : PaymentCall → OcnPaymentManager → List PaymentEffect → Prop where
  | paid (party : Address) (hfree : st.stakedFunds party = 0)
      (hallowed : ∃ amount, answers.allowance st.euroStablecoin sender self = .ok amount ∧
        st.fundingYearlyAmount ≤ amount)
      (htransfer : answers.transferFrom st.euroStablecoin sender self st.fundingYearlyAmount =
        .ok true)
      (hfits : st.fundingYearlyAmount < 2 ^ 256) :
      Change self block st sender answers (.pay party)
        (st.storeStake party st.fundingYearlyAmount block)
        [st.payRequest self sender, .log (.partyStaked sender party st.fundingYearlyAmount)]
  | withdrawn (party : Address) (hoperator : st.operatorAddress ≠ 0)
      (hstake : st.stakedFunds party ≠ 0)
      (hfits : st.stakingBlock party + st.stakingPeriodInBlocks < 2 ^ 256)
      (hdue : st.stakingBlock party + st.stakingPeriodInBlocks ≤ block)
      (htransfer : answers.transfer st.euroStablecoin st.operatorAddress (st.stakedFunds party) =
        .ok true) :
      Change self block st sender answers (.withdrawToRegistryOperator party)
        (st.clearStake party)
        [st.withdrawRequest party, .log (.stakeWithdrawn party (st.stakedFunds party))]
  | operatorSet (operatorAddress : Address)
      (hadmin : st.members DEFAULT_ADMIN_ROLE sender = true) :
      Change self block st sender answers (.setOperator operatorAddress)
        { st with operatorAddress := operatorAddress } []
  | fundingSet (amount : Nat) (hadmin : st.members DEFAULT_ADMIN_ROLE sender = true)
      (hfits : amount * 10 ^ 18 < 2 ^ 256) :
      Change self block st sender answers (.setFundingYearlyAmount amount)
        { st with fundingYearlyAmount := amount * 10 ^ 18 } []
  | stablecoinSet (euroStablecoin : Address)
      (hadmin : st.members DEFAULT_ADMIN_ROLE sender = true) :
      Change self block st sender answers (.setStablecoinAddress euroStablecoin)
        { st with euroStablecoin := euroStablecoin } []
  | upgraded (newImplementation : Address)
      (hupgrader : st.members st.UPGRADER_ROLE sender = true) (hfits : st.version + 1 < 2 ^ 256)
      (haccepted : answers.upgradeToAndCallUUPS newImplementation = .ok ()) :
      Change self block st sender answers (.upgradeToAndCall newImplementation)
        { st with currentBaseContract := newImplementation, version := st.version + 1 } []
  | membersSet (call : PaymentCall) (r : RoleCall) (members : RoleMembers)
      (hcall : roleCall call = some r) (hmembers : st.members.exec sender r = .ok members) :
      Change self block st sender answers call { st with members := members }
        (roleEffects sender r)

theorem pay_eq_ok :
    st.pay self block answers sender party = .ok (st', effects) ↔
      Change self block st sender answers (.pay party) st' effects := by
  unfold pay
  rw [bind_eq_ok]
  refine ⟨fun hr => ?_, fun hc => ?_⟩
  · obtain ⟨u, hbegin, hr⟩ := hr
    obtain ⟨hfree, hallowed⟩ := payBegin_eq_ok.mp hbegin
    obtain ⟨paid, htransfer, hr⟩ := bind_eq_ok.mp hr
    obtain ⟨⟨st'', effects'⟩, hend, hr⟩ := bind_eq_ok.mp hr
    obtain ⟨rfl, hfits, rfl, rfl⟩ := payEnd_eq_ok.mp hend
    cases hr
    rw [hfree, Nat.zero_add] at hfits ⊢
    exact .paid party hfree hallowed htransfer hfits
  · cases hc with
    | paid _ hfree hallowed htransfer hfits =>
        refine ⟨(), payBegin_eq_ok.mpr ⟨hfree, hallowed⟩, ?_⟩
        refine bind_eq_ok.mpr ⟨true, htransfer, bind_eq_ok.mpr ⟨_, payEnd_eq_ok.mpr
          ⟨rfl, by rwa [hfree, Nat.zero_add], rfl, rfl⟩, ?_⟩⟩
        rw [hfree, Nat.zero_add]
    | membersSet _ r members hcall => cases hcall

theorem withdraw_eq_ok :
    st.withdrawToRegistryOperator block answers party = .ok (st', effects) ↔
      Change self block st sender answers (.withdrawToRegistryOperator party) st' effects := by
  unfold withdrawToRegistryOperator
  rw [bind_eq_ok]
  refine ⟨fun hr => ?_, fun hc => ?_⟩
  · obtain ⟨cleared, hbegin, hr⟩ := hr
    obtain ⟨hoperator, hstake, hfits, hdue, rfl⟩ := withdrawBegin_eq_ok.mp hbegin
    obtain ⟨paid, htransfer, hr⟩ := bind_eq_ok.mp hr
    obtain ⟨⟨st'', effects'⟩, hend, hr⟩ := bind_eq_ok.mp hr
    obtain ⟨rfl, rfl, rfl⟩ := withdrawEnd_eq_ok.mp hend
    cases hr
    exact .withdrawn party hoperator hstake hfits hdue htransfer
  · cases hc with
    | withdrawn _ hoperator hstake hfits hdue htransfer =>
        refine ⟨_, withdrawBegin_eq_ok.mpr ⟨hoperator, hstake, hfits, hdue, rfl⟩, ?_⟩
        exact bind_eq_ok.mpr ⟨true, htransfer,
          bind_eq_ok.mpr ⟨_, withdrawEnd_eq_ok.mpr ⟨rfl, rfl, rfl⟩, rfl⟩⟩
    | membersSet _ r members hcall => cases hcall

theorem setFundingYearlyAmount_eq_ok {amount : Nat} :
    st.setFundingYearlyAmount sender amount = .ok (st', effects) ↔
      st.members DEFAULT_ADMIN_ROLE sender = true ∧ amount * 10 ^ 18 < 2 ^ 256 ∧
        st' = { st with fundingYearlyAmount := amount * 10 ^ 18 } ∧ effects = [] := by
  unfold setFundingYearlyAmount checkedMul
  rw [RoleMembers.onlyRole_bind_eq_ok, bind_eq_ok]
  refine ⟨fun hr => ?_, fun hr => ?_⟩
  · obtain ⟨hadmin, n, hn, hr⟩ := hr
    obtain ⟨hfits, rfl⟩ := checkedWord_eq_ok.mp hn
    cases hr
    exact ⟨hadmin, hfits, rfl, rfl⟩
  · obtain ⟨hadmin, hfits, rfl, rfl⟩ := hr
    exact ⟨hadmin, _, checkedWord_eq_ok.mpr ⟨hfits, rfl⟩, rfl⟩

theorem authorizeUpgrade_eq_ok {newImplementation : Address} :
    st.authorizeUpgrade sender newImplementation = .ok st' ↔
      st.members st.UPGRADER_ROLE sender = true ∧ st.version + 1 < 2 ^ 256 ∧
        st' = { st with currentBaseContract := newImplementation, version := st.version + 1 } := by
  unfold authorizeUpgrade
  rw [RoleMembers.onlyRole_bind_eq_ok, bind_eq_ok]
  refine ⟨fun hr => ?_, fun hr => ?_⟩
  · obtain ⟨hupgrader, n, hn, hr⟩ := hr
    obtain ⟨hfits, rfl⟩ := checkedIncr_eq_ok.mp hn
    cases hr
    exact ⟨hupgrader, hfits, rfl⟩
  · obtain ⟨hupgrader, hfits, rfl⟩ := hr
    exact ⟨hupgrader, _, checkedIncr_eq_ok.mpr ⟨hfits, rfl⟩, rfl⟩

theorem upgradeToAndCall_eq_ok {newImplementation : Address} :
    st.upgradeToAndCall answers sender newImplementation = .ok (st', effects) ↔
      st.authorizeUpgrade sender newImplementation = .ok st' ∧
        answers.upgradeToAndCallUUPS newImplementation = .ok () ∧ effects = [] := by
  unfold upgradeToAndCall
  rw [bind_eq_ok]
  refine ⟨fun hr => ?_, fun hr => ?_⟩
  · obtain ⟨st'', hupgrade, hr⟩ := hr
    obtain ⟨⟨⟩, haccepted, hr⟩ := bind_eq_ok.mp hr
    cases hr
    exact ⟨hupgrade, haccepted, rfl⟩
  · obtain ⟨hupgrade, haccepted, rfl⟩ := hr
    exact ⟨st', hupgrade, bind_eq_ok.mpr ⟨(), haccepted, rfl⟩⟩

variable {call : PaymentCall}

theorem change_of_exec (h : st.exec self block sender answers call = .ok (st', effects)) :
    Change self block st sender answers call st' effects := by
  cases call with
  | pay party => exact pay_eq_ok.mp h
  | withdrawToRegistryOperator party => exact withdraw_eq_ok.mp h
  | setOperator operatorAddress =>
      obtain ⟨hadmin, h⟩ := RoleMembers.onlyRole_bind_eq_ok.mp h
      cases h
      exact .operatorSet operatorAddress hadmin
  | setFundingYearlyAmount amount =>
      obtain ⟨hadmin, hfits, rfl, rfl⟩ := setFundingYearlyAmount_eq_ok.mp h
      exact .fundingSet amount hadmin hfits
  | setStablecoinAddress euroStablecoin =>
      obtain ⟨hadmin, h⟩ := RoleMembers.onlyRole_bind_eq_ok.mp h
      cases h
      exact .stablecoinSet euroStablecoin hadmin
  | transferOwnership newOwner =>
      obtain ⟨members, hm, rfl, rfl⟩ := bind_outcome_eq_ok.mp h
      exact .membersSet _ (.transferOwnership newOwner) members rfl hm
  | upgradeToAndCall newImplementation =>
      obtain ⟨hupgrade, haccepted, rfl⟩ := upgradeToAndCall_eq_ok.mp h
      obtain ⟨hupgrader, hfits, rfl⟩ := authorizeUpgrade_eq_ok.mp hupgrade
      exact .upgraded newImplementation hupgrader hfits haccepted
  | grantRole role account =>
      obtain ⟨members, hm, rfl, rfl⟩ := bind_outcome_eq_ok.mp h
      exact .membersSet _ (.grantRole role account) members rfl hm
  | revokeRole role account =>
      obtain ⟨members, hm, rfl, rfl⟩ := bind_outcome_eq_ok.mp h
      exact .membersSet _ (.revokeRole role account) members rfl hm
  | renounceRole role callerConfirmation =>
      obtain ⟨members, hm, rfl, rfl⟩ := bind_outcome_eq_ok.mp h
      exact .membersSet _ (.renounceRole role callerConfirmation) members rfl hm

theorem exec_of_change (h : Change self block st sender answers call st' effects) :
    st.exec self block sender answers call = .ok (st', effects) := by
  cases h with
  | paid party hfree hallowed htransfer hfits =>
      exact pay_eq_ok.mpr (.paid party hfree hallowed htransfer hfits)
  | withdrawn party hoperator hstake hfits hdue htransfer =>
      have hc : Change self block st sender answers (.withdrawToRegistryOperator party)
          (st.clearStake party)
          [st.withdrawRequest party, .log (.stakeWithdrawn party (st.stakedFunds party))] :=
        .withdrawn party hoperator hstake hfits hdue htransfer
      exact withdraw_eq_ok.mpr hc
  | operatorSet operatorAddress hadmin => exact RoleMembers.onlyRole_bind_eq_ok.mpr ⟨hadmin, rfl⟩
  | fundingSet amount hadmin hfits =>
      exact setFundingYearlyAmount_eq_ok.mpr ⟨hadmin, hfits, rfl, rfl⟩
  | stablecoinSet euroStablecoin hadmin => exact RoleMembers.onlyRole_bind_eq_ok.mpr ⟨hadmin, rfl⟩
  | upgraded newImplementation hupgrader hfits haccepted =>
      exact upgradeToAndCall_eq_ok.mpr
        ⟨authorizeUpgrade_eq_ok.mpr ⟨hupgrader, hfits, rfl⟩, haccepted, rfl⟩
  | membersSet _ r members hcall hmembers =>
      cases call <;> cases hcall <;> exact bind_outcome_eq_ok.mpr ⟨members, hmembers, rfl, rfl⟩

/-- **A call succeeds exactly with one of the changes.** -/
theorem change_iff : st.exec self block sender answers call = .ok (st', effects) ↔
    Change self block st sender answers call st' effects :=
  ⟨change_of_exec, exec_of_change⟩

end OcnPaymentManager

/-! ## 3. The machine -/

/-- The payment manager and `block.number`. -/
structure PaymentState where
  manager : OcnPaymentManager
  block : Nat

/-- An effect with the number of the block it happened in. -/
structure PaymentEntry where
  block : Nat
  effect : PaymentEffect
  deriving DecidableEq, Repr

/-- An account that can call the manager: any but the manager itself. -/
structure Caller (contract : Address) extends Account where
  outside : address ≠ contract

/-- A call, or the passing of blocks. -/
inductive PaymentTx (self : Address) where
  | call (sender : Caller self) (call : PaymentCall) (answers : PaymentAnswers)
  | mine (blocks : Nat)

namespace PaymentState

def exec (self : Address) (s : PaymentState) :
    PaymentTx self → Except Revert (Outcome PaymentState PaymentEntry)
  | .call sender call answers => do
      let (manager, effects) ← s.manager.exec self s.block sender.address answers call
      .ok ({ s with manager := manager }, effects.map (PaymentEntry.mk s.block))
  | .mine blocks => do
      let block ← checkedAdd s.block blocks
      .ok ({ s with block := block }, [])

/-- The payment manager's machine. -/
def machine (self : Address) : Machine PaymentState (PaymentTx self) Revert PaymentEntry :=
  ⟨exec self⟩

variable {self : Address} {s s' : PaymentState} {t : PaymentTx self} {ev : List PaymentEntry}

theorem exec_call {sender : Caller self} {call : PaymentCall} {answers : PaymentAnswers} :
    (machine self).exec s (.call sender call answers) = .ok (s', ev) ↔
      ∃ manager effects,
        OcnPaymentManager.Change self s.block s.manager sender.address answers call manager
          effects ∧
        s' = ⟨manager, s.block⟩ ∧ ev = effects.map (PaymentEntry.mk s.block) := by
  refine ⟨fun hr => ?_, fun hr => ?_⟩
  · obtain ⟨⟨manager, effects⟩, hok, hr⟩ := bind_eq_ok.mp hr
    cases hr
    exact ⟨manager, effects, OcnPaymentManager.change_of_exec hok, rfl, rfl⟩
  · obtain ⟨manager, effects, hc, rfl, rfl⟩ := hr
    exact bind_eq_ok.mpr ⟨_, OcnPaymentManager.exec_of_change hc, rfl⟩

theorem exec_mine {blocks : Nat} :
    (machine self).exec s (.mine blocks) = .ok (s', ev) ↔
      s.block + blocks < 2 ^ 256 ∧ s' = ⟨s.manager, s.block + blocks⟩ ∧ ev = [] := by
  refine ⟨fun hr => ?_, fun hr => ?_⟩
  · obtain ⟨block, hb, hr⟩ := bind_eq_ok.mp hr
    obtain ⟨hfits, rfl⟩ := checkedWord_eq_ok.mp hb
    cases hr
    exact ⟨hfits, rfl, rfl⟩
  · obtain ⟨hfits, rfl, rfl⟩ := hr
    exact bind_eq_ok.mpr ⟨_, checkedWord_eq_ok.mpr ⟨hfits, rfl⟩, rfl⟩

/-! ## 4. What a step does to the stakes -/

/-- **The moves**: a payment, a withdrawal, or a step that leaves every stake, the staking blocks
    and the period as they are and neither calls a token nor reports a stake. -/
inductive Move (self : Address) (s : PaymentState) :
    PaymentTx self → PaymentState → List PaymentEntry → Prop where
  | paid (sender : Caller self) (party : Address) (answers : PaymentAnswers)
      (hfree : s.manager.stakedFunds party = 0)
      (hfits : s.manager.fundingYearlyAmount < 2 ^ 256) :
      Move self s (.call sender (.pay party) answers)
        ⟨s.manager.storeStake party s.manager.fundingYearlyAmount s.block, s.block⟩
        [⟨s.block, s.manager.payRequest self sender.address⟩,
          ⟨s.block,
            .log (.partyStaked sender.address party s.manager.fundingYearlyAmount)⟩]
  | withdrawn (sender : Caller self) (party : Address) (answers : PaymentAnswers)
      (hoperator : s.manager.operatorAddress ≠ 0) (hstake : s.manager.stakedFunds party ≠ 0)
      (hdue : s.manager.stakingBlock party + s.manager.stakingPeriodInBlocks ≤ s.block) :
      Move self s (.call sender (.withdrawToRegistryOperator party) answers)
        ⟨s.manager.clearStake party, s.block⟩
        [⟨s.block, s.manager.withdrawRequest party⟩,
          ⟨s.block, .log (.stakeWithdrawn party (s.manager.stakedFunds party))⟩]
  | quiet (t : PaymentTx self) (s' : PaymentState) (ev : List PaymentEntry)
      (hfunds : s'.manager.stakedFunds = s.manager.stakedFunds)
      (hstart : s'.manager.stakingBlock = s.manager.stakingBlock)
      (hperiod : s'.manager.stakingPeriodInBlocks = s.manager.stakingPeriodInBlocks)
      (hblock : s.block ≤ s'.block)
      (hev : ∀ e ∈ ev, ∃ oldAdmin newAdmin,
        e.effect = .log (.ownershipTransferred oldAdmin newAdmin)) :
      Move self s t s' ev

theorem quiet_roleEffects (sender : Address) (r : RoleCall) (block : Nat) :
    ∀ e ∈ (OcnPaymentManager.roleEffects sender r).map (PaymentEntry.mk block),
      ∃ oldAdmin newAdmin, e.effect = .log (.ownershipTransferred oldAdmin newAdmin) := by
  intro e he
  cases r with
  | transferOwnership newOwner =>
      rw [List.mem_singleton.mp he]
      exact ⟨_, _, rfl⟩
  | grantRole => cases he
  | revokeRole => cases he
  | renounceRole => cases he

theorem move_of_exec (h : (machine self).exec s t = .ok (s', ev)) : Move self s t s' ev := by
  cases t with
  | call sender call answers =>
      obtain ⟨manager, effects, hc, rfl, rfl⟩ := exec_call.mp h
      cases hc with
      | paid party hfree _ _ hfits => exact .paid sender party answers hfree hfits
      | withdrawn party hoperator hstake _ hdue _ =>
          exact .withdrawn sender party answers hoperator hstake hdue
      | operatorSet | fundingSet | stablecoinSet | upgraded =>
          exact .quiet _ _ _ rfl rfl rfl (Nat.le_refl _) fun e he => by cases he
      | membersSet _ r =>
          exact .quiet _ _ _ rfl rfl rfl (Nat.le_refl _)
            (quiet_roleEffects sender.address r s.block)
  | mine blocks =>
      obtain ⟨_, rfl, rfl⟩ := exec_mine.mp h
      exact .quiet _ _ _ rfl rfl rfl (Nat.le_add_right _ _) fun e he => by cases he

/-- Block numbers fit the word. -/
theorem block_step (t : PaymentTx self) (h : s.block < 2 ^ 256) :
    ((machine self).step s t).block < 2 ^ 256 := by
  refine Machine.step_preserves (I := fun s : PaymentState => s.block < 2 ^ 256) h
    fun s' ev hok => ?_
  cases t with
  | call sender call answers =>
      obtain ⟨manager, effects, _, rfl, _⟩ := exec_call.mp hok
      exact h
  | mine blocks =>
      obtain ⟨hfits, rfl, _⟩ := exec_mine.mp hok
      exact hfits

end PaymentState

/-! ## 5. Runs of a deployed payment manager -/

/-- What `initialize` was given, in a call that did not revert, and the block it ran in. -/
structure PaymentDeployment where
  deployer : Account
  self : Address
  euroStablecoin : Address
  fundingYearlyAmount : Nat
  operator : Address
  block : Nat
  fits : fundingYearlyAmount * 10 ^ 18 < 2 ^ 256
  blockPos : 0 < block
  blockFits : block < 2 ^ 256

namespace PaymentDeployment

/-- The storage `initialize` leaves, in its block. -/
def start (D : PaymentDeployment) : PaymentState where
  manager := OcnPaymentManager.zero.storeInitial D.deployer.address D.euroStablecoin
    (D.fundingYearlyAmount * 10 ^ 18) D.operator
  block := D.block

theorem start_eq_initializer (D : PaymentDeployment) :
    OcnPaymentManager.zero.initializer D.deployer.address D.euroStablecoin D.fundingYearlyAmount
      D.operator = .ok D.start.manager :=
  bind_eq_ok.mpr ⟨_, checkedWord_eq_ok.mpr ⟨D.fits, rfl⟩, rfl⟩

/-- **The reachable states**: storage and block after these steps. -/
def run (D : PaymentDeployment) (ts : List (PaymentTx D.self)) : PaymentState :=
  (PaymentState.machine D.self).run D.start ts

theorem run_concat (D : PaymentDeployment) (pre : List (PaymentTx D.self))
    (t : PaymentTx D.self) :
    D.run (pre ++ [t]) = (PaymentState.machine D.self).step (D.run pre) t :=
  Machine.run_append (M := PaymentState.machine D.self) D.start pre [t]

theorem run_split (D : PaymentDeployment) (pre post : List (PaymentTx D.self))
    (t : PaymentTx D.self) :
    D.run (pre ++ t :: post) = (PaymentState.machine D.self).run (D.run (pre ++ [t])) post := by
  rw [run_concat]
  exact Machine.run_append (M := PaymentState.machine D.self) D.start pre (t :: post)

theorem block_run (D : PaymentDeployment) (ts : List (PaymentTx D.self)) :
    (D.run ts).block < 2 ^ 256 :=
  Machine.run_invariant_all (M := PaymentState.machine D.self)
    (I := fun s : PaymentState => s.block < 2 ^ 256)
    (fun _ t _ _ h hok => Machine.step_ok hok ▸ PaymentState.block_step t h) ts D.blockFits

/-- The effects of the run, the first one first. -/
def history (D : PaymentDeployment) (ts : List (PaymentTx D.self)) : List PaymentEntry :=
  (PaymentState.machine D.self).history D.start ts

end PaymentDeployment

/-! ## 6. A deployment to run examples on -/

namespace Sample

def paymentDeployment : PaymentDeployment where
  deployer := ⟨0x11, by decide⟩
  self := 0x50
  euroStablecoin := 0xE0
  fundingYearlyAmount := 100
  operator := 2
  block := 1
  fits := by decide
  blockPos := by decide
  blockFits := by decide

/-- The account that called `initialize`. -/
def treasurer : Caller paymentDeployment.self := ⟨paymentDeployment.deployer, by decide⟩

def payer : Caller paymentDeployment.self := ⟨⟨0x13, by decide⟩, by decide⟩

/-- A token that allows and moves everything. -/
def willing : PaymentAnswers where
  allowance := fun _ _ _ => .ok (2 ^ 256 - 1)
  transferFrom := fun _ _ _ _ => .ok true
  transfer := fun _ _ _ => .ok true
  upgradeToAndCallUUPS := fun _ => .ok ()

def payTx (sender : Caller paymentDeployment.self) (call : PaymentCall) :
    PaymentTx paymentDeployment.self := .call sender call willing

end Sample

end Ocn
