/-
  File:      OcnRegistry/Payments/OneStake.lean
  Subject:   ONE STAKE AT A TIME, WITH TOKENS THAT CALL BACK: when the guard of `pay` is enough.

  `pay` refuses a party that has a stake, then asks the token to move the amount, and only then
  adds to the stake. A token that calls `pay` for the same party in between passes the guard too.
  `withdrawToRegistryOperator` clears the stake before its token call and has no such gap.

  * `guardHolds_iff` -- at its write a `pay` finds no stake, exactly if no other payment of a
    non-zero amount for the party went through while it waited;
  * `stakeOfOnePay_of` -- if every write found none, a stake is the amount of one payment;
  * `reentrant_pay_doubles_stake` -- the run that fails;
  * `one_stake_iff` -- the executions that keep to one stake at a time.
-/
import OcnRegistry.Payments.Reentrancy

namespace Ocn

open Transaction Nesting

/-! ## 1. Payments that find a stake -/

namespace NestedState

/-- **The step is the write of a `pay` for the party**: its token has answered true. -/
def PayTakesEffect {self : Address} (N : NestedState) (u : NestedStep self) (party : Address) :
    Prop :=
  u = .answer true ∧ ∃ saved sender fs, N.stack = ⟨saved, .pay sender party⟩ :: fs ∧
    N.now.manager.stakedFunds party + N.now.manager.fundingYearlyAmount < 2 ^ 256

/-- **No `pay` takes effect while the party has a stake.** -/
def GuardHolds {self : Address} (N : NestedState) (u : NestedStep self) : Prop :=
  ∀ party, PayTakesEffect N u party → N.now.manager.stakedFunds party = 0

/-- **The step completes a `pay` during which another one went through**: since it began, a payment
    of a non-zero amount for the same party was written and not taken back. -/
def ResumesOverPayment {self : Address} (N : NestedState) (u : NestedStep self) : Prop :=
  u = .answer true ∧ ∃ saved sender party fs, N.stack = ⟨saved, .pay sender party⟩ :: fs ∧
    N.now.manager.stakedFunds party + N.now.manager.fundingYearlyAmount < 2 ^ 256 ∧
    ∃ new amount, N.now.writes = saved.writes ++ new ∧ amount ≠ 0 ∧ .staked party amount ∈ new

variable {self : Address} {N N' : NestedState} {u : NestedStep self}

/-- While a `pay` waits, its party gets a stake exactly by another payment. -/
theorem Sound.stake_while_waiting (h : N.Sound) {saved : CallState} {sender party : Address}
    {fs : List (Frame CallState Suspended)} (hstack : N.stack = ⟨saved, .pay sender party⟩ :: fs) :
    N.now.manager.stakedFunds party ≠ 0 ↔
      ∃ new amount, N.now.writes = saved.writes ++ new ∧ amount ≠ 0 ∧
        .staked party amount ∈ new := by
  unfold Sound at h
  rw [hstack] at h
  have hrelies : Relies ⟨saved, .pay sender party⟩ N.now := h.relies _ List.mem_cons_self
  obtain ⟨new, hwrites, hnew⟩ := hrelies.noWithdrawal sender party rfl
  have hfree : (stakedSince party saved.writes).sum = 0 :=
    (h.rollback.holds.stake party).symm.trans (hrelies.free sender party rfl)
  have hstake := sum_stakedSince_ne_zero hfree hnew
  rw [← hwrites, ← h.holds.stake party] at hstake
  rw [hstake]
  refine ⟨fun ⟨amount, hne, hmem⟩ => ⟨new, amount, hwrites, hne, hmem⟩, fun hr => ?_⟩
  obtain ⟨new', amount, hwrites', hne, hmem⟩ := hr
  rw [hwrites] at hwrites'
  exact ⟨amount, hne, List.append_cancel_left hwrites' ▸ hmem⟩

theorem guardHolds_iff (h : N.Sound) (u : NestedStep self) :
    GuardHolds N u ↔ ¬ ResumesOverPayment N u := by
  refine ⟨fun hguard hover => ?_, fun hnot party hpay => ?_⟩
  · obtain ⟨hu, saved, sender, party, fs, hstack, hfits, hpaid⟩ := hover
    exact (h.stake_while_waiting hstack).mpr hpaid
      (hguard party ⟨hu, saved, sender, fs, hstack, hfits⟩)
  · obtain ⟨hu, saved, sender, fs, hstack, hfits⟩ := hpay
    refine Classical.byContradiction fun hne => hnot ?_
    exact ⟨hu, saved, sender, party, fs, hstack, hfits, (h.stake_while_waiting hstack).mp hne⟩

end NestedState

/-! ## 2. Writes that keep to one stake at a time -/

/-- Every payment was written when the party had no stake. -/
inductive OneAtATime : List StakeWrite → Prop where
  | nil : OneAtATime []
  | staked {writes : List StakeWrite} (party : Address) (amount : Nat) (h : OneAtATime writes)
      (hfree : (stakedSince party writes).sum = 0) : OneAtATime (writes ++ [.staked party amount])
  | withdrawn {writes : List StakeWrite} (party : Address) (h : OneAtATime writes) :
      OneAtATime (writes ++ [.withdrawn party])

theorem OneAtATime.prefix_closed {before writes : List StakeWrite} (h : OneAtATime writes)
    (hp : before <+: writes) : OneAtATime before := by
  induction h with
  | nil =>
      rw [List.prefix_nil.mp hp]
      exact .nil
  | staked party amount h hfree ih =>
      rcases List.prefix_concat_iff.mp hp with rfl | hp
      · exact .staked party amount h hfree
      · exact ih hp
  | withdrawn party h ih =>
      rcases List.prefix_concat_iff.mp hp with rfl | hp
      · exact .withdrawn party h
      · exact ih hp

/-- Since a party's last withdrawal, at most the last payment was of a non-zero amount. -/
theorem OneAtATime.zeros {writes : List StakeWrite} (h : OneAtATime writes) (party : Address) :
    (∀ z ∈ stakedSince party writes, z = 0) ∨
      ∃ zeros amount, (∀ z ∈ zeros, z = 0) ∧ stakedSince party writes = zeros ++ [amount] := by
  induction h with
  | nil => exact Or.inl fun z hz => absurd hz List.not_mem_nil
  | @staked writes p amount _ hfree ih =>
      by_cases hp : p = party
      · subst hp
        rw [stakedSince_staked_self]
        exact Or.inr ⟨_, amount, List.sum_eq_zero_iff_forall_eq_nat.mp hfree, rfl⟩
      · rwa [stakedSince_staked_ne _ _ hp]
  | @withdrawn writes p _ ih =>
      by_cases hp : p = party
      · subst hp
        rw [stakedSince_withdrawn_self]
        exact Or.inl fun z hz => absurd hz List.not_mem_nil
      · rwa [stakedSince_withdrawn_ne _ hp]

/-- **A stake is the amount of one payment**: it is zero, or of the payments since the party's last
    withdrawal the last one is of that amount and every other one of nothing. -/
def StakeOfOnePay (s : CallState) : Prop :=
  ∀ party, s.manager.stakedFunds party = 0 ∨ ∃ zeros, (∀ z ∈ zeros, z = 0) ∧
    stakedSince party s.writes = zeros ++ [s.manager.stakedFunds party]

theorem stakeOfOnePay_of {s : CallState} (hs : s.Accounted) (h : OneAtATime s.writes) :
    StakeOfOnePay s := by
  intro party
  rw [hs.stake party]
  rcases h.zeros party with hall | ⟨zeros, amount, hzeros, e⟩
  · exact Or.inl (List.sum_eq_zero_iff_forall_eq_nat.mpr hall)
  · refine Or.inr ⟨zeros, hzeros, ?_⟩
    rw [e, List.sum_append, List.sum_eq_zero_iff_forall_eq_nat.mpr hzeros, List.sum_singleton,
      Nat.zero_add]

namespace NestedState

variable {self : Address} {N N' : NestedState} {u : NestedStep self}

/-- A step that respects the guard keeps to one stake at a time. -/
theorem oneAtATime_move (h : N.Sound) (hone : OneAtATime N.now.writes) (hguard : GuardHolds N u)
    (hm : Move self N u N') : OneAtATime N'.now.writes := by
  cases hm with
  | payBegun | otherBegun => exact hone
  | withdrawalBegun party => exact .withdrawn party hone
  | settled _ s hsame =>
      show OneAtATime s.writes
      rw [hsame.writes]
      exact hone
  | paid saved sender party fs hstack hfits =>
      refine .staked party _ hone ?_
      rw [← (Nesting.Sound.holds h).stake party]
      exact hguard party ⟨rfl, saved, sender, fs, hstack, hfits⟩
  | returned => exact hone
  | rolledBack _ f fs hstack =>
      -- what a revert brings back is a beginning of the writes
      refine hone.prefix_closed (Nesting.Sound.relies h f ?_).kept
      rw [hstack]
      exact List.mem_cons_self
  | mined => exact hone

theorem oneAtATime_run {us : List (NestedStep self)} (h : N.Sound)
    (hone : OneAtATime N.now.writes) (hguard : (machine self).Along GuardHolds N us) :
    ((machine self).run N us).Sound ∧ OneAtATime ((machine self).run N us).now.writes :=
  Machine.run_invariant (M := machine self)
    (I := fun N : NestedState => N.Sound ∧ OneAtATime N.now.writes)
    (fun _ _ _ _ hI hC hok =>
      ⟨hI.1.move (move_of_exec hok), oneAtATime_move hI.1 hI.2 hC (move_of_exec hok)⟩)
    hguard ⟨h, hone⟩

end NestedState

/-! ## 3. The executions -/

/-- **One stake at a time, all along an execution**: no `pay` takes effect while its party has a
    stake, and in every state every stake is zero or the amount of one payment. -/
def OneStakeAllAlong (D : PaymentDeployment) (us : List (NestedStep D.self)) : Prop :=
  (NestedState.machine D.self).Along NestedState.GuardHolds D.nestedStart us ∧
    (NestedState.machine D.self).Throughout (fun N => StakeOfOnePay N.now) D.nestedStart us

/-- **Exactly the executions in which no payment goes through while another one for the party
    waits** keep to one stake at a time. -/
theorem one_stake_iff (D : PaymentDeployment) (us : List (NestedStep D.self)) :
    OneStakeAllAlong D us ↔
      (NestedState.machine D.self).Along (fun N u => ¬ NestedState.ResumesOverPayment N u)
        D.nestedStart us := by
  have hsame : (NestedState.machine D.self).Along NestedState.GuardHolds D.nestedStart us ↔
      (NestedState.machine D.self).Along (fun N u => ¬ NestedState.ResumesOverPayment N u)
        D.nestedStart us :=
    Machine.along_congr (M := NestedState.machine D.self) (I := NestedState.Sound)
      (fun _ u h => h.step u) (fun _ u h => NestedState.guardHolds_iff h u) us
      (NestedState.sound_start D)
  refine ⟨fun h => hsame.mp h.1, fun h => ⟨hsame.mpr h, fun pre post e => ?_⟩⟩
  have hguard := hsame.mpr h
  rw [e] at hguard
  obtain ⟨hsound, hone⟩ := NestedState.oneAtATime_run (NestedState.sound_start D) .nil
    (Machine.along_append.mp hguard).1
  exact stakeOfOnePay_of (Nesting.Sound.holds hsound) hone

namespace Sample

/-- The stablecoin, as a caller. -/
def callingToken : Caller paymentDeployment.self := ⟨⟨0xE0, by decide⟩, by decide⟩

/-- A `pay` whose token pays for the same party before it answers. -/
def reentrantPay : List (NestedStep paymentDeployment.self) :=
  [.pay payer 3 willing.allowance, .pay callingToken 3 willing.allowance, .answer true,
    .answer true]

end Sample

/-- **The re-entrant payment**: both payments pass the guard and both are added to the stake. -/
theorem reentrant_pay_doubles_stake :
    (Sample.paymentDeployment.nestedRun Sample.reentrantPay).now.manager.stakedFunds 3 =
        2 * (100 * 10 ^ 18) ∧
      (Sample.paymentDeployment.nestedRun Sample.reentrantPay).stack.length = 0 ∧
      ¬ OneStakeAllAlong Sample.paymentDeployment Sample.reentrantPay := by
  refine ⟨by decide +kernel, by decide +kernel, fun h => ?_⟩
  obtain ⟨⟨_, _, _, hlast, _⟩, _⟩ := h
  have hzero := hlast 3 ⟨rfl, _, _, _, rfl, by decide +kernel⟩
  revert hzero
  decide +kernel

end Ocn
