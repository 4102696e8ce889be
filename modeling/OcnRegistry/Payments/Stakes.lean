/-
  File:      OcnRegistry/Payments/Stakes.lean
  Subject:   THE STAKE LEDGER: every withdrawal gives back one payment, and nothing else leaves.

  Party by party, the payment manager is an account that takes one deposit at a time: the events of
  a run that name the party are the movements of that account, and `stakedFunds` and `stakingBlock`
  are what it knows (`stakesKept_run`). Payments of amount zero are movements too.

  * `outflows_step` -- a token call of a step fetches a payment or is the transfer of a withdrawal;
  * `stake_ledger` -- withdrawals, stakes and token calls of every run.
-/
import OcnRegistry.Library.Escrow
import OcnRegistry.Payments.Run

namespace Ocn

open Transaction Escrow

/-! ## 1. The events of a party -/

namespace PaymentEntry

/-- The movement of the party's stake that an entry reports. -/
def movement (party : Address) (e : PaymentEntry) : Option Movement :=
  match e.effect with
  | .log (.partyStaked _ p amount) => if p = party then some (.put e.block amount) else none
  | .log (.stakeWithdrawn p amount) => if p = party then some (.take e.block amount) else none
  | _ => none

/-- The amount the entry reports as staked for the party. -/
def stakedAmount (party : Address) (e : PaymentEntry) : Nat :=
  match e.effect with
  | .log (.partyStaked _ p amount) => if p = party then amount else 0
  | _ => 0

/-- The amount the entry reports as withdrawn from the party. -/
def withdrawnAmount (party : Address) (e : PaymentEntry) : Nat :=
  match e.effect with
  | .log (.stakeWithdrawn p amount) => if p = party then amount else 0
  | _ => 0

variable {party : Address} {block : Nat}

@[simp] theorem movement_call (token : Address) (request : TokenCall) :
    movement party ⟨block, .call token request⟩ = none := rfl

@[simp] theorem movement_partyStaked (stakedBy p : Address) (amount : Nat) :
    movement party ⟨block, .log (.partyStaked stakedBy p amount)⟩ =
      if p = party then some (.put block amount) else none := rfl

@[simp] theorem movement_stakeWithdrawn (p : Address) (amount : Nat) :
    movement party ⟨block, .log (.stakeWithdrawn p amount)⟩ =
      if p = party then some (.take block amount) else none := rfl

/-- An entry that reports a payment was emitted by one. -/
theorem partyStaked_of_movement {e : PaymentEntry} {since amount : Nat}
    (h : e.movement party = some (.put since amount)) :
    ∃ stakedBy, e = ⟨since, .log (.partyStaked stakedBy party amount)⟩ := by
  obtain ⟨block, effect⟩ := e
  cases effect with
  | call token request => cases h
  | log event =>
      cases event with
      | ownershipTransferred => cases h
      | partyStaked stakedBy p n =>
          rw [movement_partyStaked] at h
          split at h
          · rename_i e
            cases h
            exact ⟨stakedBy, by rw [e]⟩
          · cases h
      | stakeWithdrawn p n =>
          rw [movement_stakeWithdrawn] at h
          split at h <;> cases h

/-- An entry that is no movement of the party reports neither a payment nor a withdrawal for it. -/
theorem ne_of_movement_eq_none {e : PaymentEntry} (h : e.movement party = none) :
    (∀ stakedBy amount, e.effect ≠ .log (.partyStaked stakedBy party amount)) ∧
      ∀ amount, e.effect ≠ .log (.stakeWithdrawn party amount) := by
  unfold movement at h
  refine ⟨fun stakedBy amount he => ?_, fun amount he => ?_⟩ <;>
    · rw [he] at h
      dsimp only at h
      rw [if_pos rfl] at h
      cases h

end PaymentEntry

/-- What the entries report as staked for the party, in total. -/
def staked (party : Address) (h : List PaymentEntry) : Nat :=
  (h.map (PaymentEntry.stakedAmount party)).sum

/-- What the entries report as withdrawn from the party, in total. -/
def withdrawn (party : Address) (h : List PaymentEntry) : Nat :=
  (h.map (PaymentEntry.withdrawnAmount party)).sum

theorem amounts_eq (party : Address) (e : PaymentEntry) :
    e.stakedAmount party = ((e.movement party).map Movement.putAmount).getD 0 ∧
      e.withdrawnAmount party = ((e.movement party).map Movement.takeAmount).getD 0 := by
  obtain ⟨block, effect⟩ := e
  cases effect with
  | call token request => exact ⟨rfl, rfl⟩
  | log event =>
      cases event with
      | ownershipTransferred => exact ⟨rfl, rfl⟩
      | partyStaked stakedBy p amount =>
          by_cases hp : p = party
          · simp [PaymentEntry.stakedAmount, PaymentEntry.withdrawnAmount, hp, Movement.putAmount,
              Movement.takeAmount]
          · simp [PaymentEntry.stakedAmount, PaymentEntry.withdrawnAmount, hp]
      | stakeWithdrawn p amount =>
          by_cases hp : p = party
          · simp [PaymentEntry.stakedAmount, PaymentEntry.withdrawnAmount, hp, Movement.putAmount,
              Movement.takeAmount]
          · simp [PaymentEntry.stakedAmount, PaymentEntry.withdrawnAmount, hp]

/-- The totals of a history are those of the party's movements. -/
theorem totals_eq (party : Address) (h : List PaymentEntry) :
    staked party h = puts (h.filterMap (PaymentEntry.movement party)) ∧
      withdrawn party h = takes (h.filterMap (PaymentEntry.movement party)) := by
  induction h with
  | nil => exact ⟨rfl, rfl⟩
  | cons e h ih =>
      obtain ⟨hput, htake⟩ := amounts_eq party e
      unfold staked withdrawn puts takes at ih ⊢
      rw [List.map_cons, List.sum_cons, List.map_cons, List.sum_cons, hput, htake, ih.1, ih.2]
      cases hm : e.movement party with
      | none =>
          rw [List.filterMap_cons_none hm]
          exact ⟨Nat.zero_add _, Nat.zero_add _⟩
      | some m =>
          rw [List.filterMap_cons_some hm]
          exact ⟨rfl, rfl⟩

/-! ## 2. The account of a party over a run -/

namespace PaymentState

variable {self : Address} {s s' : PaymentState} {t : PaymentTx self} {ev : List PaymentEntry}

/-- **The stakes follow the events**: for every party, stake and staking block are what an account
    knows after the movements the history reports. -/
def StakesKept (h : List PaymentEntry) (s : PaymentState) : Prop :=
  s.manager.stakingPeriodInBlocks = 2102400 ∧ ∀ party,
    Kept 2102400 (h.filterMap (PaymentEntry.movement party))
      ⟨s.manager.stakedFunds party, s.manager.stakingBlock party⟩

theorem stakesKept_exec {h : List PaymentEntry} (hI : StakesKept h s)
    (hok : (machine self).exec s t = .ok (s', ev)) : StakesKept (h ++ ev) s' := by
  obtain ⟨hperiod, hkept⟩ := hI
  cases move_of_exec hok with
  | paid sender party answers hfree hfits =>
      refine ⟨hperiod, fun p => ?_⟩
      rw [List.filterMap_append]
      by_cases e : p = party
      · subst e
        simp only [OcnPaymentManager.payRequest, List.filterMap_cons, List.filterMap_nil,
          PaymentEntry.movement_call, PaymentEntry.movement_partyStaked, if_true,
          OcnPaymentManager.storeStake, Function.update_self]
        have hp := hkept p
        rw [hfree] at hp
        exact hp.put s.block s.manager.fundingYearlyAmount
      · simp only [OcnPaymentManager.payRequest, List.filterMap_cons, List.filterMap_nil,
          PaymentEntry.movement_call, PaymentEntry.movement_partyStaked, if_neg (Ne.symm e),
          OcnPaymentManager.storeStake, Function.update_of_ne e, List.append_nil]
        exact hkept p
  | withdrawn sender party answers hoperator hstake hdue =>
      refine ⟨hperiod, fun p => ?_⟩
      rw [List.filterMap_append]
      by_cases e : p = party
      · subst e
        simp only [OcnPaymentManager.withdrawRequest, List.filterMap_cons, List.filterMap_nil,
          PaymentEntry.movement_call, PaymentEntry.movement_stakeWithdrawn, if_true,
          OcnPaymentManager.clearStake, Function.update_self]
        rw [hperiod] at hdue
        exact (hkept p).take s.block hstake hdue
      · simp only [OcnPaymentManager.withdrawRequest, List.filterMap_cons, List.filterMap_nil,
          PaymentEntry.movement_call, PaymentEntry.movement_stakeWithdrawn, if_neg (Ne.symm e),
          OcnPaymentManager.clearStake, Function.update_of_ne e, List.append_nil]
        exact hkept p
  | quiet _ _ _ hfunds hstart hsame hblock hev =>
      refine ⟨hsame.trans hperiod, fun p => ?_⟩
      have hnone : ev.filterMap (PaymentEntry.movement p) = [] := by
        refine List.filterMap_eq_nil_iff.mpr fun e he => ?_
        obtain ⟨oldAdmin, newAdmin, heff⟩ := hev e he
        unfold PaymentEntry.movement
        rw [heff]
      rw [List.filterMap_append, hnone, List.append_nil, hfunds, hstart]
      exact hkept p

theorem stakesKept_run (D : PaymentDeployment) (ts : List (PaymentTx D.self)) :
    StakesKept (D.history ts) (D.run ts) :=
  Machine.history_invariant (M := machine D.self) (I := StakesKept)
    (fun _ _ _ _ _ hI hok => stakesKept_exec hI hok) ts ⟨rfl, fun _ => .empty⟩

/-! ## 3. What leaves the contract -/

/-- **Tokens leave by withdrawals only**: a token call of the step asks another account to pay the
    manager, or transfers, in a withdrawal of some party's non-zero stake, exactly the amount of
    its event to the operator, which is not zero; and a withdrawal has such a transfer. -/
def OutflowsAreWithdrawals (self : Address) (s : PaymentState) (t : PaymentTx self) : Prop :=
  (∀ e ∈ (machine self).emitted s t, ∀ token request, e.effect = .call token request →
    (∃ holder amount, holder ≠ self ∧ request = .transferFrom holder self amount) ∨
    ∃ party amount, (machine self).emitted s t =
      [⟨s.block, .call token request⟩, ⟨s.block, .log (.stakeWithdrawn party amount)⟩] ∧
      token = s.manager.euroStablecoin ∧ request = .transfer s.manager.operatorAddress amount ∧
      s.manager.operatorAddress ≠ 0 ∧ 0 < amount ∧ amount = s.manager.stakedFunds party) ∧
  ∀ e ∈ (machine self).emitted s t, ∀ party amount,
    e.effect = .log (.stakeWithdrawn party amount) →
      ⟨s.block, .call s.manager.euroStablecoin (.transfer s.manager.operatorAddress amount)⟩ ∈
        (machine self).emitted s t

theorem outflows_step (self : Address) (s : PaymentState) (t : PaymentTx self) :
    OutflowsAreWithdrawals self s t := by
  unfold OutflowsAreWithdrawals
  cases hok : (machine self).exec s t with
  | error e =>
      rw [Machine.emitted_error hok]
      exact ⟨fun e he => absurd he List.not_mem_nil, fun e he => absurd he List.not_mem_nil⟩
  | ok r =>
      obtain ⟨s', ev⟩ := r
      rw [Machine.emitted_ok hok]
      cases move_of_exec hok with
      | paid sender party answers hfree hfits =>
          refine ⟨fun e he token request hcall => ?_, fun e he p amount hlog => ?_⟩
          · rcases List.mem_pair.mp he with rfl | rfl
            · cases hcall
              exact Or.inl ⟨_, _, sender.outside, rfl⟩
            · cases hcall
          · rcases List.mem_pair.mp he with rfl | rfl <;> cases hlog
      | withdrawn sender party answers hoperator hstake hdue =>
          refine ⟨fun e he token request hcall => ?_, fun e he p amount hlog => ?_⟩
          · rcases List.mem_pair.mp he with rfl | rfl
            · cases hcall
              exact Or.inr ⟨party, _, rfl, rfl, rfl, hoperator, Nat.pos_of_ne_zero hstake, rfl⟩
            · cases hcall
          · rcases List.mem_pair.mp he with rfl | rfl
            · cases hlog
            · cases hlog
              exact List.mem_cons_self
      | quiet _ _ _ hfunds hstart hperiod hblock hev =>
          refine ⟨fun e he token request hcall => ?_, fun e he p amount hlog => ?_⟩
          · obtain ⟨oldAdmin, newAdmin, heff⟩ := hev e he
            rw [heff] at hcall
            cases hcall
          · obtain ⟨oldAdmin, newAdmin, heff⟩ := hev e he
            rw [heff] at hlog
            cases hlog

end PaymentState

/-! ## 4. The ledger -/

/-- **The withdrawal is backed**: the latest of these entries that names the party's stake is a
    payment of the same, non-zero amount, at least a period before. -/
def Backed (before : List PaymentEntry) (period block : Nat) (party : Address) (amount : Nat) :
    Prop :=
  0 < amount ∧ ∃ pre paidIn stakedBy mid,
    before = pre ++ ⟨paidIn, .log (.partyStaked stakedBy party amount)⟩ :: mid ∧
    (∀ e ∈ mid, (∀ by' n, e.effect ≠ .log (.partyStaked by' party n)) ∧
      ∀ n, e.effect ≠ .log (.stakeWithdrawn party n)) ∧
    paidIn + period ≤ block

/-- **The stake ledger**: in every run, every withdrawal event is backed by the latest payment for
    its party; every stake is what was staked less what was withdrawn; and tokens leave by
    withdrawals only, to the operator of that moment. -/
theorem stake_ledger (D : PaymentDeployment) (ts : List (PaymentTx D.self)) :
    (∀ before block party amount after,
      D.history ts = before ++ ⟨block, .log (.stakeWithdrawn party amount)⟩ :: after →
        Backed before (D.run ts).manager.stakingPeriodInBlocks block party amount) ∧
    (∀ party, (D.run ts).manager.stakedFunds party + withdrawn party (D.history ts) =
      staked party (D.history ts)) ∧
    ∀ pre t post, ts = pre ++ t :: post →
      PaymentState.OutflowsAreWithdrawals D.self (D.run pre) t := by
  obtain ⟨hperiod, hkept⟩ := PaymentState.stakesKept_run D ts
  refine ⟨fun before block party amount after hsplit => ?_, fun party => ?_,
    fun pre t _ _ => PaymentState.outflows_step D.self (D.run pre) t⟩
  · obtain ⟨hne, pre, e₀, mid, since, hpre, hput, hmid, hdue⟩ :=
      (hkept party).backed_log hsplit (PaymentEntry.movement_stakeWithdrawn party amount ▸
        if_pos rfl)
    obtain ⟨stakedBy, rfl⟩ := PaymentEntry.partyStaked_of_movement hput
    exact ⟨Nat.pos_of_ne_zero hne, pre, since, stakedBy, mid, hpre,
      fun e he => PaymentEntry.ne_of_movement_eq_none (hmid e he), by rwa [hperiod]⟩
  · obtain ⟨hputs, htakes⟩ := totals_eq party (D.history ts)
    rw [hputs, htakes]
    exact (hkept party).balance

end Ocn
