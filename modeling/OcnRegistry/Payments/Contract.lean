/-
  File:      OcnRegistry/Payments/Contract.lean
  Subject:   THE CONTRACT `OcnPaymentManager`: storage, events, functions. Translated from
             contracts/OcnPaymentManager.sol, function by function; no invariant here.

  `pay` and `withdrawToRegistryOperator` call the token in their middle. Each is therefore written
  as two parts, the code before the call of `transferFrom` or `transfer` and the code after its
  answer, and the function is one part after the other. What the other contracts answer is the
  argument `answers`: any values, from one call to the next. `allowance` is a `view` call.

  Besides its events a function reports the calls it makes to tokens (`PaymentEffect`), so that what
  leaves the contract can be read off a run.
-/
import OcnRegistry.AccessControl
import Mathlib.Logic.Function.Basic

namespace Ocn

/-! ## 1. Storage, events, token calls -/

/-- **The storage of `OcnPaymentManager`.** -/
structure OcnPaymentManager where
  UPGRADER_ROLE : Bytes32
  version : Nat
  currentBaseContract : Address
  fundingYearlyAmount : Nat
  euroStablecoin : Address
  operatorAddress : Address
  stakingPeriodInBlocks : Nat
  stakingBlock : Address → Nat
  stakedFunds : Address → Nat
  members : RoleMembers

/-- `keccak256("UPGRADER_ROLE")`. -/
def upgraderRole : Bytes32 := 0x189ab7a9244df0848122154315af71fe140f3db0fe014031783b0946b8c9d2e3

inductive PaymentEvent where
  | ownershipTransferred (oldAdmin newAdmin : Address)
  | partyStaked (stakedBy party : Address) (amount : Nat)
  | stakeWithdrawn (party : Address) (amount : Nat)
  deriving DecidableEq, Repr

/-- The functions of `IERC20` that are not `view`. -/
inductive TokenCall where
  | transfer (recipient : Address) (amount : Nat)
  | approve (spender : Address) (amount : Nat)
  | transferFrom (holder recipient : Address) (amount : Nat)
  deriving DecidableEq, Repr

/-- What a successful call does outside the storage: an event, or a call to a token. -/
inductive PaymentEffect where
  | log (event : PaymentEvent)
  | call (token : Address) (request : TokenCall)
  deriving DecidableEq, Repr

/-- **What the payment manager hears from other contracts during one call**: at each token, the
    answers of `allowance`, `transferFrom` and `transfer`, and at each new implementation, whether
    the proxy accepts it. -/
structure PaymentAnswers where
  allowance : Address → Address → Address → Except Revert Nat
  transferFrom : Address → Address → Address → Nat → Except Revert Bool
  transfer : Address → Address → Nat → Except Revert Bool
  upgradeToAndCallUUPS : Address → Except Revert Unit

namespace OcnPaymentManager

/-- The storage of a proxy that was never initialized. -/
def zero : OcnPaymentManager where
  UPGRADER_ROLE := 0
  version := 0
  currentBaseContract := 0
  fundingYearlyAmount := 0
  euroStablecoin := 0
  operatorAddress := 0
  stakingPeriodInBlocks := 0
  stakingBlock := fun _ => 0
  stakedFunds := fun _ => 0
  members := fun _ _ => false

abbrev Result := Except Revert (Outcome OcnPaymentManager PaymentEffect)

variable (st : OcnPaymentManager)

/-! ## 2. Initializer and upgrades -/

/-- The writes of `initialize`. -/
def storeInitial (sender euroStablecoin : Address) (fundingYearlyAmount : Nat)
    (operator : Address) : OcnPaymentManager :=
  { st with
    UPGRADER_ROLE := upgraderRole
    euroStablecoin := euroStablecoin
    operatorAddress := operator
    fundingYearlyAmount := fundingYearlyAmount
    stakingPeriodInBlocks := 2102400
    members :=
      (st.members.setRole DEFAULT_ADMIN_ROLE sender true).setRole upgraderRole sender true }

/-- `initialize`, which the modifier `initializer` lets run once. -/
def initializer (sender euroStablecoin : Address) (fundingYearlyAmount : Nat)
    (operator : Address) : Except Revert OcnPaymentManager := do
  let fundingYearlyAmount ← checkedMul fundingYearlyAmount (10 ^ 18)
  .ok (st.storeInitial sender euroStablecoin fundingYearlyAmount operator)

/-- `_authorizeUpgrade`. -/
def authorizeUpgrade (sender newImplementation : Address) :
    Except Revert OcnPaymentManager := do
  st.members.onlyRole st.UPGRADER_ROLE sender
  let version ← checkedIncr (2 ^ 256) st.version
  .ok { st with currentBaseContract := newImplementation, version := version }

/-- `upgradeToAndCall` of `UUPSUpgradeable`, without a call to the new implementation. -/
def upgradeToAndCall (answers : PaymentAnswers) (sender newImplementation : Address) : Result := do
  let st ← st.authorizeUpgrade sender newImplementation
  answers.upgradeToAndCallUUPS newImplementation
  .ok (st, [])

/-! ## 3. Paying -/

/-- `pay` up to its call of `transferFrom`: it writes nothing. -/
def payBegin (self : Address) (allowance : Address → Address → Address → Except Revert Nat)
    (sender party : Address) : Except Revert Unit :=
  if 0 < st.stakedFunds party then
    .error .stakeAlreadyDeposited
  else do
    let amount ← allowance st.euroStablecoin sender self
    if amount < st.fundingYearlyAmount then .error .insufficientAllowance else .ok ()

/-- The writes of `pay`. -/
def storeStake (party : Address) (amount block : Nat) : OcnPaymentManager :=
  { st with
    stakedFunds := Function.update st.stakedFunds party amount
    stakingBlock := Function.update st.stakingBlock party block }

/-- `pay` from the answer of `transferFrom` on: stake and amount are read again. -/
def payEnd (block : Nat) (sender party : Address) (paid : Bool) : Result :=
  if paid = false then
    .error .transferFailed
  else do
    let amount ← checkedAdd (st.stakedFunds party) st.fundingYearlyAmount
    .ok (st.storeStake party amount block,
      [.log (.partyStaked sender party st.fundingYearlyAmount)])

/-- The call of `transferFrom` in `pay`. -/
def payRequest (self sender : Address) : PaymentEffect :=
  .call st.euroStablecoin (.transferFrom sender self st.fundingYearlyAmount)

def pay (self : Address) (block : Nat) (answers : PaymentAnswers) (sender party : Address) :
    Result := do
  st.payBegin self answers.allowance sender party
  let paid ← answers.transferFrom st.euroStablecoin sender self st.fundingYearlyAmount
  let (st', effects) ← st.payEnd block sender party paid
  .ok (st', st.payRequest self sender :: effects)

/-! ## 4. Withdrawing -/

/-- The write of `withdrawToRegistryOperator`. -/
def clearStake (party : Address) : OcnPaymentManager :=
  { st with stakedFunds := Function.update st.stakedFunds party 0 }

/-- `withdrawToRegistryOperator` up to its call of `transfer`: the stake is already cleared. -/
def withdrawBegin (block : Nat) (party : Address) : Except Revert OcnPaymentManager :=
  if st.operatorAddress = 0 then
    .error (.error "Withdrawal account not set")
  else if st.stakedFunds party = 0 then
    .error .noFundsStaked
  else do
    let due ← checkedAdd (st.stakingBlock party) st.stakingPeriodInBlocks
    if block < due then .error .withdrawalNotAllowed else .ok (st.clearStake party)

/-- `withdrawToRegistryOperator` from the answer of `transfer` on. -/
def withdrawEnd (party : Address) (amountToWithdraw : Nat) (paid : Bool) : Result :=
  if paid = false then
    .error .transferFailed
  else
    .ok (st, [.log (.stakeWithdrawn party amountToWithdraw)])

/-- The call of `transfer` in `withdrawToRegistryOperator`. -/
def withdrawRequest (party : Address) : PaymentEffect :=
  .call st.euroStablecoin (.transfer st.operatorAddress (st.stakedFunds party))

def withdrawToRegistryOperator (block : Nat) (answers : PaymentAnswers) (party : Address) :
    Result := do
  let cleared ← st.withdrawBegin block party
  let paid ← answers.transfer st.euroStablecoin st.operatorAddress (st.stakedFunds party)
  let (st', effects) ← cleared.withdrawEnd party (st.stakedFunds party) paid
  .ok (st', st.withdrawRequest party :: effects)

/-! ## 5. Settings and ownership -/

def setOperator (sender operatorAddress : Address) : Result := do
  st.members.onlyRole DEFAULT_ADMIN_ROLE sender
  .ok ({ st with operatorAddress := operatorAddress }, [])

def setFundingYearlyAmount (sender : Address) (fundingYearlyAmount : Nat) : Result := do
  st.members.onlyRole DEFAULT_ADMIN_ROLE sender
  let fundingYearlyAmount ← checkedMul fundingYearlyAmount (10 ^ 18)
  .ok ({ st with fundingYearlyAmount := fundingYearlyAmount }, [])

def setStablecoinAddress (sender euroStablecoin : Address) : Result := do
  st.members.onlyRole DEFAULT_ADMIN_ROLE sender
  .ok ({ st with euroStablecoin := euroStablecoin }, [])

def transferOwnership (sender newOwner : Address) : Result := do
  let members ← st.members.transferOwnership sender newOwner
  .ok ({ st with members := members }, [.log (.ownershipTransferred sender newOwner)])

/-! ## 6. Views -/

def getPaymentStatus (party : Address) : PaymentStatus :=
  if 0 < st.stakedFunds party then .paymentUpToDate
  else if 0 < st.stakingBlock party then .insufficientFunds
  else .pending

def getPaymentBlock (block : Nat) (party : Address) : Nat × Nat := (st.stakingBlock party, block)

def getFundingYearlyAmount : Nat := st.fundingYearlyAmount / 10 ^ 18

end OcnPaymentManager

end Ocn
