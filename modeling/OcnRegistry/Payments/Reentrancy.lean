/-
  File:      OcnRegistry/Payments/Reentrancy.lean
  Subject:   TOKENS THAT CALL BACK: the payment manager with calls suspended inside one another.

  While `transferFrom` or `transfer` runs, the token may call the manager again, any number of times
  and as deep as it likes. So `pay` and `withdrawToRegistryOperator` are two steps here: one up to
  the token call, after which the call waits, and one from the token's answer on. A call that
  reverts takes back everything since it started, what it let others do included; the calls of other
  contracts (`Suspended.other`) can revert in the same way. Blocks pass between transactions only.

  `writes` records the writes to `stakedFunds` that no revert has taken back.

  * `atomic_step` -- a step of the machine without call-backs is a run of this one;
  * `sound_run` -- what holds of every state and what every suspended call can rely on.
-/
import OcnRegistry.Library.Nesting
import OcnRegistry.Payments.Run
import Mathlib.Data.List.Induction

namespace Ocn

open Transaction Nesting

/-! ## 1. States and steps -/

/-- A write to `stakedFunds`: a payment added to it, a withdrawal cleared it. -/
inductive StakeWrite where
  | staked (party : Address) (amount : Nat)
  | withdrawn (party : Address)
  deriving DecidableEq, Repr

/-- What a revert brings back: the storage, and the writes to the stakes that stand. -/
structure CallState extends PaymentState where
  writes : List StakeWrite

/-- A call that waits for an external one. -/
inductive Suspended where
  | pay (sender party : Address)
  | withdrawToRegistryOperator (party : Address) (amountToWithdraw : Nat)
  | other
  deriving DecidableEq, Repr

inductive NestedStep (self : Address) where
  | pay (sender : Caller self) (party : Address)
      (allowance : Address → Address → Address → Except Revert Nat)
  | withdrawToRegistryOperator (party : Address)
  | other
  | setting (sender : Caller self) (call : PaymentCall) (answers : PaymentAnswers)
  | answer (paid : Bool)
  | revert
  | mine (blocks : Nat)

/-- The calls that wait for a token. -/
def PaymentCall.waits : PaymentCall → Bool
  | .pay _ => true
  | .withdrawToRegistryOperator _ => true
  | _ => false

/-- The role functions call no token. -/
theorem PaymentCall.not_waits_of_role {call : PaymentCall} {r : RoleCall}
    (h : OcnPaymentManager.roleCall call = some r) : ¬ call.waits = true := by
  cases call <;> first | exact Bool.false_ne_true | cases h

namespace CallState

/-- What a suspended call does once its external call has returned. -/
def resume (s : CallState) (paid : Bool) :
    Suspended → Except Revert (Outcome CallState PaymentEffect)
  | .pay sender party => do
      let (manager, effects) ← s.manager.payEnd s.block sender party paid
      .ok ({ s with
          manager := manager
          writes := s.writes ++ [.staked party s.manager.fundingYearlyAmount] }, effects)
  | .withdrawToRegistryOperator party amountToWithdraw => do
      let (manager, effects) ← s.manager.withdrawEnd party amountToWithdraw paid
      .ok ({ s with manager := manager }, effects)
  | .other => .ok (s, [])

end CallState

/-- The manager among suspended calls. -/
abbrev NestedState := Nest CallState Suspended

namespace NestedState

/-- One step. A step that cannot be taken (an answer nobody waits for, a block in the middle of a
    transaction) fails, as a call that reverts at once does. -/
def exec (self : Address) (N : NestedState) :
    NestedStep self → Except Revert (Outcome NestedState PaymentEntry)
  | .pay sender party allowance => do
      N.now.manager.payBegin self allowance sender.address party
      .ok (N.enter (.pay sender.address party) N.now,
        [⟨N.now.block, N.now.manager.payRequest self sender.address⟩])
  | .withdrawToRegistryOperator party => do
      let manager ← N.now.manager.withdrawBegin N.now.block party
      .ok (N.enter (.withdrawToRegistryOperator party (N.now.manager.stakedFunds party))
          { N.now with manager := manager, writes := N.now.writes ++ [.withdrawn party] },
        [⟨N.now.block, N.now.manager.withdrawRequest party⟩])
  | .other => .ok (N.enter .other N.now, [])
  | .setting sender call answers =>
      if call.waits = true then .error (.external [])
      else do
        let (manager, effects) ← N.now.manager.exec self N.now.block sender.address answers call
        .ok (⟨{ N.now with manager := manager }, N.stack⟩,
          effects.map (PaymentEntry.mk N.now.block))
  | .answer paid =>
      match N.stack with
      | [] => .error (.external [])
      | f :: fs =>
          match N.now.resume paid f.todo with
          | .ok (s, effects) => .ok (⟨s, fs⟩, effects.map (PaymentEntry.mk N.now.block))
          | .error _ => .ok (⟨f.saved, fs⟩, [])
  | .revert =>
      match N.stack with
      | [] => .error (.external [])
      | f :: fs => .ok (⟨f.saved, fs⟩, [])
  | .mine blocks =>
      match N.stack with
      | [] => do
          let block ← checkedAdd N.now.block blocks
          .ok (⟨{ N.now with block := block }, []⟩, [])
      | _ :: _ => .error (.external [])

/-- The machine with suspended calls. -/
def machine (self : Address) : Machine NestedState (NestedStep self) Revert PaymentEntry :=
  ⟨exec self⟩

end NestedState

/-! ## 2. What a step does -/

namespace CallState

/-- The state after the write of a `pay` for this party. -/
def afterPay (s : CallState) (party : Address) : CallState :=
  { s with
    manager := s.manager.storeStake party
      (s.manager.stakedFunds party + s.manager.fundingYearlyAmount) s.block
    writes := s.writes ++ [.staked party s.manager.fundingYearlyAmount] }

/-- The state after the write of a withdrawal for this party. -/
def afterWithdrawal (s : CallState) (party : Address) : CallState :=
  { s with
    manager := s.manager.clearStake party
    writes := s.writes ++ [.withdrawn party] }

@[simp] theorem afterPay_stakedFunds (s : CallState) (party : Address) :
    (s.afterPay party).manager.stakedFunds = Function.update s.manager.stakedFunds party
      (s.manager.stakedFunds party + s.manager.fundingYearlyAmount) := rfl

@[simp] theorem afterPay_stakingBlock (s : CallState) (party : Address) :
    (s.afterPay party).manager.stakingBlock =
      Function.update s.manager.stakingBlock party s.block := rfl

@[simp] theorem afterPay_writes (s : CallState) (party : Address) :
    (s.afterPay party).writes = s.writes ++ [.staked party s.manager.fundingYearlyAmount] := rfl

theorem afterPay_of_free {s : CallState} {party : Address}
    (hfree : s.manager.stakedFunds party = 0) :
    s.afterPay party =
      { s with
        manager := s.manager.storeStake party s.manager.fundingYearlyAmount s.block
        writes := s.writes ++ [.staked party s.manager.fundingYearlyAmount] } := by
  rw [afterPay, hfree, Nat.zero_add]

@[simp] theorem afterWithdrawal_stakedFunds (s : CallState) (party : Address) :
    (s.afterWithdrawal party).manager.stakedFunds =
      Function.update s.manager.stakedFunds party 0 := rfl

@[simp] theorem afterWithdrawal_stakingBlock (s : CallState) (party : Address) :
    (s.afterWithdrawal party).manager.stakingBlock = s.manager.stakingBlock := rfl

@[simp] theorem afterWithdrawal_writes (s : CallState) (party : Address) :
    (s.afterWithdrawal party).writes = s.writes ++ [.withdrawn party] := rfl

/-- Nothing about the stakes differs. -/
structure SameStakes (s s' : CallState) : Prop where
  stakedFunds : s'.manager.stakedFunds = s.manager.stakedFunds
  stakingBlock : s'.manager.stakingBlock = s.manager.stakingBlock
  stakingPeriodInBlocks : s'.manager.stakingPeriodInBlocks = s.manager.stakingPeriodInBlocks
  block : s'.block = s.block
  writes : s'.writes = s.writes

theorem SameStakes.refl (s : CallState) : SameStakes s s := ⟨rfl, rfl, rfl, rfl, rfl⟩

end CallState

namespace NestedState

/-- **The moves of the nested machine.** -/
inductive Move (self : Address) (N : NestedState) : NestedStep self → NestedState → Prop where
  | payBegun (sender : Caller self) (party : Address)
      (allowance : Address → Address → Address → Except Revert Nat)
      (hfree : N.now.manager.stakedFunds party = 0) :
      Move self N (.pay sender party allowance) (N.enter (.pay sender.address party) N.now)
  | withdrawalBegun (party : Address) (hstake : N.now.manager.stakedFunds party ≠ 0)
      (hdue : N.now.manager.stakingBlock party + N.now.manager.stakingPeriodInBlocks ≤
        N.now.block) :
      Move self N (.withdrawToRegistryOperator party)
        (N.enter (.withdrawToRegistryOperator party (N.now.manager.stakedFunds party))
          (N.now.afterWithdrawal party))
  | otherBegun : Move self N .other (N.enter .other N.now)
  | settled (t : NestedStep self) (s : CallState) (hsame : CallState.SameStakes N.now s) :
      Move self N t ⟨s, N.stack⟩
  | paid (saved : CallState) (sender party : Address) (fs : List (Frame CallState Suspended))
      (hstack : N.stack = ⟨saved, .pay sender party⟩ :: fs)
      (hfits : N.now.manager.stakedFunds party + N.now.manager.fundingYearlyAmount < 2 ^ 256) :
      Move self N (.answer true) ⟨N.now.afterPay party, fs⟩
  | returned (t : NestedStep self) (f : Frame CallState Suspended)
      (fs : List (Frame CallState Suspended)) (hstack : N.stack = f :: fs)
      (hpay : ∀ sender party, f.todo ≠ .pay sender party) : Move self N t ⟨N.now, fs⟩
  | rolledBack (t : NestedStep self) (f : Frame CallState Suspended)
      (fs : List (Frame CallState Suspended)) (hstack : N.stack = f :: fs) :
      Move self N t ⟨f.saved, fs⟩
  | mined (blocks : Nat) (hstack : N.stack = []) :
      Move self N (.mine blocks) ⟨{ N.now with block := N.now.block + blocks }, []⟩

variable {self : Address} {N N' : NestedState} {u : NestedStep self} {ev : List PaymentEntry}

theorem resume_pay_eq_ok {s s' : CallState} {effects : List PaymentEffect} {paid : Bool}
    {sender party : Address} : s.resume paid (.pay sender party) = .ok (s', effects) ↔
      paid = true ∧ s.manager.stakedFunds party + s.manager.fundingYearlyAmount < 2 ^ 256 ∧
        s' = s.afterPay party ∧
        effects = [.log (.partyStaked sender party s.manager.fundingYearlyAmount)] := by
  refine ⟨fun hr => ?_, fun hr => ?_⟩
  · obtain ⟨⟨manager, effects'⟩, hend, hr⟩ := bind_eq_ok.mp hr
    obtain ⟨rfl, hfits, rfl, rfl⟩ := OcnPaymentManager.payEnd_eq_ok.mp hend
    cases hr
    exact ⟨rfl, hfits, rfl, rfl⟩
  · obtain ⟨rfl, hfits, rfl, rfl⟩ := hr
    exact bind_eq_ok.mpr ⟨_, OcnPaymentManager.payEnd_eq_ok.mpr ⟨rfl, hfits, rfl, rfl⟩, rfl⟩

theorem resume_withdraw_eq_ok {s s' : CallState} {effects : List PaymentEffect} {paid : Bool}
    {party : Address} {amount : Nat} :
    s.resume paid (.withdrawToRegistryOperator party amount) = .ok (s', effects) ↔
      paid = true ∧ s' = s ∧ effects = [.log (.stakeWithdrawn party amount)] := by
  refine ⟨fun hr => ?_, fun hr => ?_⟩
  · obtain ⟨⟨manager, effects'⟩, hend, hr⟩ := bind_eq_ok.mp hr
    obtain ⟨rfl, rfl, rfl⟩ := OcnPaymentManager.withdrawEnd_eq_ok.mp hend
    cases hr
    exact ⟨rfl, rfl, rfl⟩
  · obtain ⟨rfl, rfl, rfl⟩ := hr
    exact bind_eq_ok.mpr ⟨_, OcnPaymentManager.withdrawEnd_eq_ok.mpr ⟨rfl, rfl, rfl⟩, rfl⟩

/-- The calls that do not wait for a token leave the stakes alone. -/
theorem sameStakes_of_setting {s : CallState} {sender : Address} {answers : PaymentAnswers}
    {call : PaymentCall} {manager : OcnPaymentManager} {effects : List PaymentEffect}
    (hwaits : call.waits ≠ true)
    (h : OcnPaymentManager.Change self s.block s.manager sender answers call manager effects) :
    CallState.SameStakes s { s with manager := manager } := by
  cases h with
  | paid => exact absurd rfl hwaits
  | withdrawn => exact absurd rfl hwaits
  | operatorSet | fundingSet | stablecoinSet | upgraded | membersSet =>
      exact ⟨rfl, rfl, rfl, rfl, rfl⟩

theorem move_of_exec (h : (machine self).exec N u = .ok (N', ev)) : Move self N u N' := by
  have hexec : exec self N u = .ok (N', ev) := h
  unfold exec at hexec
  cases u with
  | pay sender party allowance =>
      obtain ⟨u, hbegin, hr⟩ := bind_eq_ok.mp hexec
      cases hr
      exact .payBegun sender party allowance (OcnPaymentManager.payBegin_eq_ok.mp hbegin).1
  | withdrawToRegistryOperator party =>
      obtain ⟨manager, hbegin, hr⟩ := bind_eq_ok.mp hexec
      obtain ⟨_, hstake, _, hdue, rfl⟩ := OcnPaymentManager.withdrawBegin_eq_ok.mp hbegin
      cases hr
      exact .withdrawalBegun party hstake hdue
  | other =>
      cases hexec
      exact .otherBegun
  | setting sender call answers =>
      dsimp only at hexec
      split at hexec
      · cases hexec
      rename_i hwaits
      obtain ⟨⟨manager, effects⟩, hok, hr⟩ := bind_eq_ok.mp hexec
      cases hr
      exact .settled _ _ (sameStakes_of_setting hwaits (OcnPaymentManager.change_of_exec hok))
  | answer paid =>
      dsimp only at hexec
      split at hexec
      · cases hexec
      rename_i f fs hstack
      split at hexec
      · rename_i s effects hresume
        cases hexec
        obtain ⟨saved, todo⟩ := f
        cases todo with
        | pay sender party =>
            obtain ⟨rfl, hfits, rfl, _⟩ := resume_pay_eq_ok.mp hresume
            exact .paid saved sender party fs hstack hfits
        | withdrawToRegistryOperator party amount =>
            obtain ⟨_, rfl, _⟩ := resume_withdraw_eq_ok.mp hresume
            exact .returned _ _ fs hstack fun _ _ e => by cases e
        | other =>
            cases hresume
            exact .returned _ _ fs hstack fun _ _ e => by cases e
      · cases hexec
        exact .rolledBack _ f fs hstack
  | revert =>
      dsimp only at hexec
      split at hexec
      · cases hexec
      rename_i f fs hstack
      cases hexec
      exact .rolledBack _ f fs hstack
  | mine blocks =>
      dsimp only at hexec
      split at hexec
      · rename_i hstack
        obtain ⟨block, hb, hr⟩ := bind_eq_ok.mp hexec
        obtain ⟨_, rfl⟩ := checkedWord_eq_ok.mp hb
        cases hr
        exact .mined blocks hstack
      · cases hexec

end NestedState

/-! ## 3. The amounts that make up a stake -/

/-- The amounts paid for the party since its last withdrawal, after one more write. -/
def StakeWrite.follow (party : Address) (amounts : List Nat) : StakeWrite → List Nat
  | .staked p amount => if p = party then amounts ++ [amount] else amounts
  | .withdrawn p => if p = party then [] else amounts

/-- The amounts paid for the party since its last withdrawal, the first one first. -/
def stakedSince (party : Address) (writes : List StakeWrite) : List Nat :=
  writes.foldl (StakeWrite.follow party) []

theorem stakedSince_concat (party : Address) (writes : List StakeWrite) (w : StakeWrite) :
    stakedSince party (writes ++ [w]) = w.follow party (stakedSince party writes) := by
  unfold stakedSince
  rw [List.foldl_append, List.foldl_cons, List.foldl_nil]

theorem stakedSince_staked_self (party : Address) (writes : List StakeWrite) (amount : Nat) :
    stakedSince party (writes ++ [.staked party amount]) =
      stakedSince party writes ++ [amount] := by
  rw [stakedSince_concat, StakeWrite.follow, if_pos rfl]

theorem stakedSince_staked_ne {party p : Address} (writes : List StakeWrite) (amount : Nat)
    (h : p ≠ party) :
    stakedSince party (writes ++ [.staked p amount]) = stakedSince party writes := by
  rw [stakedSince_concat, StakeWrite.follow, if_neg h]

theorem stakedSince_withdrawn_self (party : Address) (writes : List StakeWrite) :
    stakedSince party (writes ++ [.withdrawn party]) = [] := by
  rw [stakedSince_concat, StakeWrite.follow, if_pos rfl]

theorem stakedSince_withdrawn_ne {party p : Address} (writes : List StakeWrite) (h : p ≠ party) :
    stakedSince party (writes ++ [.withdrawn p]) = stakedSince party writes := by
  rw [stakedSince_concat, StakeWrite.follow, if_neg h]

/-- From nothing and without a withdrawal, a stake is there once a non-zero amount was paid. -/
theorem sum_stakedSince_ne_zero {party : Address} {writes new : List StakeWrite}
    (h0 : (stakedSince party writes).sum = 0) (hnew : .withdrawn party ∉ new) :
    (stakedSince party (writes ++ new)).sum ≠ 0 ↔
      ∃ amount, amount ≠ 0 ∧ .staked party amount ∈ new := by
  induction new using List.reverseRecOn with
  | nil =>
      rw [List.append_nil]
      exact ⟨fun h => absurd h0 h, fun ⟨_, _, h⟩ => absurd h List.not_mem_nil⟩
  | append_singleton new w ih =>
      have ih := ih fun h => hnew (List.mem_append_left _ h)
      rw [← List.append_assoc]
      cases w with
      | staked p amount =>
          by_cases hp : p = party
          · subst hp
            rw [stakedSince_staked_self, List.sum_append, List.sum_singleton]
            refine ⟨fun h => ?_, fun h => ?_⟩
            · by_cases ha : amount = 0
              · obtain ⟨n, hn, hmem⟩ := ih.mp (by omega)
                exact ⟨n, hn, List.mem_append_left _ hmem⟩
              · exact ⟨amount, ha, List.mem_append_right _ List.mem_cons_self⟩
            · obtain ⟨n, hn, hmem⟩ := h
              rcases List.mem_append.mp hmem with hmem | hmem
              · have := ih.mpr ⟨n, hn, hmem⟩
                omega
              · cases List.mem_singleton.mp hmem
                omega
          · rw [stakedSince_staked_ne _ _ hp, ih]
            refine exists_congr fun n => and_congr_right fun _ => ?_
            rw [List.mem_append, List.mem_singleton]
            refine ⟨Or.inl, fun h => h.resolve_right fun e => ?_⟩
            cases e
            exact hp rfl
      | withdrawn p =>
          have hp : p ≠ party := fun e =>
            hnew (List.mem_append_right _ (e ▸ List.mem_cons_self))
          rw [stakedSince_withdrawn_ne _ hp, ih]
          refine exists_congr fun n => and_congr_right fun _ => ?_
          rw [List.mem_append, List.mem_singleton]
          exact ⟨Or.inl, fun h => h.resolve_right fun e => by cases e⟩

/-! ## 4. What holds in every state -/

/-- **The writes account for the storage**: a stake is the sum of what was paid since the last
    withdrawal, and a party has a staking block once a payment for it was written. -/
structure CallState.Accounted (s : CallState) : Prop where
  period : s.manager.stakingPeriodInBlocks = 2102400
  blockPos : 0 < s.block
  stake : ∀ party, s.manager.stakedFunds party = (stakedSince party s.writes).sum
  begun : ∀ party, s.manager.stakingBlock party ≠ 0 ↔ ∃ amount, .staked party amount ∈ s.writes

/-- **What a suspended call can rely on**: the block is the same, its writes still stand, and if it
    is a `pay` for a party, then the party had no stake, what it may have by now was staked in this
    block, and nothing was withdrawn. -/
structure Relies (f : Frame CallState Suspended) (s : CallState) : Prop where
  sameBlock : s.block = f.saved.block
  kept : f.saved.writes <+: s.writes
  free : ∀ sender party, f.todo = .pay sender party → f.saved.manager.stakedFunds party = 0
  fresh : ∀ sender party, f.todo = .pay sender party → s.manager.stakedFunds party ≠ 0 →
    s.manager.stakingBlock party = s.block
  noWithdrawal : ∀ sender party, f.todo = .pay sender party →
    ∃ new, s.writes = f.saved.writes ++ new ∧ .withdrawn party ∉ new

namespace CallState

variable {s s' : CallState} {party : Address} {f : Frame CallState Suspended}

theorem Accounted.congr (h : s.Accounted) (hsame : SameStakes s s') : s'.Accounted where
  period := hsame.stakingPeriodInBlocks.trans h.period
  blockPos := hsame.block ▸ h.blockPos
  stake := fun party => by rw [hsame.stakedFunds, hsame.writes, h.stake]
  begun := fun party => by rw [hsame.stakingBlock, hsame.writes, h.begun]

theorem Accounted.afterPay (h : s.Accounted) (party : Address) : (s.afterPay party).Accounted where
  period := h.period
  blockPos := h.blockPos
  stake := fun p => by
    rw [afterPay_stakedFunds, afterPay_writes]
    by_cases e : p = party
    · subst e
      rw [Function.update_self, stakedSince_staked_self, List.sum_append, List.sum_singleton,
        h.stake]
    · rw [Function.update_of_ne e, stakedSince_staked_ne _ _ (Ne.symm e), h.stake]
  begun := fun p => by
    rw [afterPay_stakingBlock, afterPay_writes]
    by_cases e : p = party
    · subst e
      rw [Function.update_self]
      exact ⟨fun _ => ⟨_, List.mem_append_right _ List.mem_cons_self⟩,
        fun _ => Nat.ne_of_gt h.blockPos⟩
    · rw [Function.update_of_ne e, h.begun]
      refine exists_congr fun amount => ?_
      rw [List.mem_append, List.mem_singleton]
      refine ⟨Or.inl, fun hmem => hmem.resolve_right fun he => ?_⟩
      cases he
      exact e rfl

theorem Accounted.afterWithdrawal (h : s.Accounted) (party : Address) :
    (s.afterWithdrawal party).Accounted where
  period := h.period
  blockPos := h.blockPos
  stake := fun p => by
    rw [afterWithdrawal_stakedFunds, afterWithdrawal_writes]
    by_cases e : p = party
    · subst e
      rw [Function.update_self, stakedSince_withdrawn_self, List.sum_nil]
    · rw [Function.update_of_ne e, stakedSince_withdrawn_ne _ (Ne.symm e), h.stake]
  begun := fun p => by
    rw [afterWithdrawal_stakingBlock, afterWithdrawal_writes, h.begun]
    refine exists_congr fun amount => ?_
    rw [List.mem_append, List.mem_singleton]
    exact ⟨Or.inl, fun hmem => hmem.resolve_right fun he => by cases he⟩

end CallState

namespace Relies

variable {s s' : CallState} {f : Frame CallState Suspended} {party : Address}

theorem congr (h : Relies f s) (hsame : CallState.SameStakes s s') : Relies f s' where
  sameBlock := hsame.block.trans h.sameBlock
  kept := hsame.writes.symm ▸ h.kept
  free := h.free
  fresh := fun sender p e => by
    rw [hsame.stakedFunds, hsame.stakingBlock, hsame.block]
    exact h.fresh sender p e
  noWithdrawal := fun sender p e => by
    rw [hsame.writes]
    exact h.noWithdrawal sender p e

theorem afterPay (h : Relies f s) (party : Address) : Relies f (s.afterPay party) where
  sameBlock := h.sameBlock
  kept := h.kept.trans (List.prefix_append _ _)
  free := h.free
  fresh := fun sender p e hstake => by
    rw [CallState.afterPay_stakingBlock]
    by_cases hp : p = party
    · rw [hp, Function.update_self]
      rfl
    · rw [Function.update_of_ne hp]
      refine h.fresh sender p e ?_
      rwa [CallState.afterPay_stakedFunds, Function.update_of_ne hp] at hstake
  noWithdrawal := fun sender p e => by
    obtain ⟨new, hwrites, hnew⟩ := h.noWithdrawal sender p e
    refine ⟨new ++ [.staked party s.manager.fundingYearlyAmount], ?_, fun hmem => ?_⟩
    · rw [CallState.afterPay_writes, hwrites, List.append_assoc]
    · rcases List.mem_append.mp hmem with hmem | hmem
      · exact hnew hmem
      · cases List.mem_singleton.mp hmem

/-- A withdrawal needs a stake of an earlier block, which a waiting `pay` for the same party
    rules out. -/
theorem afterWithdrawal (h : Relies f s) (hs : s.Accounted)
    (hstake : s.manager.stakedFunds party ≠ 0)
    (hdue : s.manager.stakingBlock party + s.manager.stakingPeriodInBlocks ≤ s.block) :
    Relies f (s.afterWithdrawal party) := by
  have hother : ∀ sender p, f.todo = .pay sender p → p ≠ party := by
    intro sender p e hp
    have hblock := h.fresh sender p e (hp ▸ hstake)
    have hperiod := hs.period
    rw [hp] at hblock
    omega
  refine ⟨h.sameBlock, h.kept.trans (List.prefix_append _ _), h.free, fun sender p e hp => ?_,
    fun sender p e => ?_⟩
  · refine h.fresh sender p e ?_
    rwa [CallState.afterWithdrawal_stakedFunds, Function.update_of_ne (hother sender p e)] at hp
  · obtain ⟨new, hwrites, hnew⟩ := h.noWithdrawal sender p e
    refine ⟨new ++ [.withdrawn party], ?_, fun hmem => ?_⟩
    · rw [CallState.afterWithdrawal_writes, hwrites, List.append_assoc]
    · rcases List.mem_append.mp hmem with hmem | hmem
      · exact hnew hmem
      · cases List.mem_singleton.mp hmem
        exact hother sender party e rfl

theorem begin_pay (sender : Address) (hfree : s.manager.stakedFunds party = 0) :
    Relies ⟨s, .pay sender party⟩ s where
  sameBlock := rfl
  kept := List.prefix_refl _
  free := fun _ p e => by cases e; exact hfree
  fresh := fun _ p e hstake => by cases e; exact absurd hfree hstake
  noWithdrawal := fun _ _ _ => ⟨[], (List.append_nil _).symm, List.not_mem_nil⟩

/-- A call that is no `pay` relies on little. -/
theorem begin_other {todo : Suspended} (htodo : ∀ sender party, todo ≠ .pay sender party)
    (hblock : s'.block = s.block) (hkept : s.writes <+: s'.writes) : Relies ⟨s, todo⟩ s' where
  sameBlock := hblock
  kept := hkept
  free := fun sender p e => absurd e (htodo sender p)
  fresh := fun sender p e => absurd e (htodo sender p)
  noWithdrawal := fun sender p e => absurd e (htodo sender p)

end Relies

namespace NestedState

variable {self : Address} {N N' : NestedState} {u : NestedStep self} {ev : List PaymentEntry}

/-- **A sound state of the nested machine.** -/
def Sound (N : NestedState) : Prop := Nesting.Sound CallState.Accounted Relies N.now N.stack

theorem Sound.move (h : N.Sound) (hm : Move self N u N') : N'.Sound := by
  have hnow : N.now.Accounted := Nesting.Sound.holds h
  cases hm with
  | payBegun sender party allowance hfree =>
      exact Nesting.Sound.enter h hnow (Relies.begin_pay sender.address hfree) fun _ _ hg => hg
  | withdrawalBegun party hstake hdue =>
      exact Nesting.Sound.enter h (hnow.afterWithdrawal party)
        (Relies.begin_other (fun _ _ e => by cases e) rfl (List.prefix_append _ _))
        fun _ _ hg => hg.afterWithdrawal hnow hstake hdue
  | otherBegun =>
      exact Nesting.Sound.enter h hnow
        (Relies.begin_other (fun _ _ e => by cases e) rfl (List.prefix_refl _)) fun _ _ hg => hg
  | settled _ s hsame =>
      exact Nesting.Sound.move h (hnow.congr hsame) fun _ _ hg => hg.congr hsame
  | paid saved sender party fs hstack hfits =>
      unfold Sound at h
      rw [hstack] at h
      exact h.leave (hnow.afterPay party) fun _ _ hg => hg.afterPay party
  | returned _ f fs hstack =>
      unfold Sound at h
      rw [hstack] at h
      exact h.tail
  | rolledBack _ f fs hstack =>
      unfold Sound at h
      rw [hstack] at h
      exact h.rollback
  | mined blocks hstack =>
      exact ⟨hnow.period, Nat.lt_of_lt_of_le hnow.blockPos (Nat.le_add_right _ _), hnow.stake,
        hnow.begun⟩

theorem Sound.step (h : N.Sound) (u : NestedStep self) : ((machine self).step N u).Sound :=
  Machine.step_preserves h fun _ _ hok => h.move (move_of_exec hok)

end NestedState

/-- The manager before its first transaction. -/
def PaymentDeployment.nestedStart (D : PaymentDeployment) : NestedState :=
  ⟨⟨D.start, []⟩, []⟩

/-- **The reachable states with call-backs.** -/
def PaymentDeployment.nestedRun (D : PaymentDeployment) (us : List (NestedStep D.self)) :
    NestedState :=
  (NestedState.machine D.self).run D.nestedStart us

theorem NestedState.sound_start (D : PaymentDeployment) : D.nestedStart.Sound :=
  ⟨rfl, D.blockPos, fun _ => rfl,
    fun _ => ⟨fun h => absurd rfl h, fun ⟨_, h⟩ => absurd h List.not_mem_nil⟩⟩

theorem NestedState.sound_run (D : PaymentDeployment) (us : List (NestedStep D.self)) :
    (D.nestedRun us).Sound :=
  Machine.run_invariant_all (M := machine D.self) (fun _ _ _ _ hI hok => hI.move (move_of_exec hok))
    us (sound_start D)

/-! ## 5. Runs without call-backs -/

namespace NestedState

variable {self : Address} {s s' : PaymentState} {t : PaymentTx self} {ev : List PaymentEntry}

theorem run_two {N N₁ N₂ : NestedState} {u₁ u₂ : NestedStep self} {ev₁ ev₂ : List PaymentEntry}
    (h₁ : (machine self).exec N u₁ = .ok (N₁, ev₁))
    (h₂ : (machine self).exec N₁ u₂ = .ok (N₂, ev₂)) :
    (machine self).run N [u₁, u₂] = N₂ ∧ (machine self).history N [u₁, u₂] = ev₁ ++ ev₂ := by
  simp only [Machine.run_cons, Machine.run_nil, Machine.history, Machine.step_ok h₁,
    Machine.step_ok h₂, Machine.emitted_ok h₁, Machine.emitted_ok h₂, List.append_nil, and_self]

theorem exec_answer {N : NestedState} {f : Frame CallState Suspended}
    {fs : List (Frame CallState Suspended)} {paid : Bool} {c : CallState}
    {effects : List PaymentEffect} (hstack : N.stack = f :: fs)
    (h : N.now.resume paid f.todo = .ok (c, effects)) :
    (machine self).exec N (.answer paid) =
      .ok (⟨c, fs⟩, effects.map (PaymentEntry.mk N.now.block)) := by
  show exec self N (.answer paid) = _
  simp only [exec, hstack, h]

theorem exec_setting {N : NestedState} {sender : Caller self} {call : PaymentCall}
    {answers : PaymentAnswers} {manager : OcnPaymentManager} {effects : List PaymentEffect}
    (hwaits : ¬ call.waits = true)
    (h : N.now.manager.exec self N.now.block sender.address answers call = .ok (manager, effects)) :
    (machine self).exec N (.setting sender call answers) =
      .ok (⟨{ N.now with manager := manager }, N.stack⟩,
        effects.map (PaymentEntry.mk N.now.block)) := by
  show exec self N (.setting sender call answers) = _
  simp only [exec, if_neg hwaits]
  exact bind_eq_ok.mpr ⟨_, h, rfl⟩

/-- **Without call-backs**: a successful step of the plain machine is one or two steps of this one,
    between states in which nothing waits, with the same effects. -/
theorem atomic_step (writes : List StakeWrite)
    (h : (PaymentState.machine self).exec s t = .ok (s', ev)) :
    ∃ us writes', (machine self).run ⟨⟨s, writes⟩, []⟩ us = ⟨⟨s', writes'⟩, []⟩ ∧
      (machine self).history ⟨⟨s, writes⟩, []⟩ us = ev := by
  let N : NestedState := ⟨⟨s, writes⟩, []⟩
  cases t with
  | call sender call answers =>
      obtain ⟨manager, effects, hc, rfl, rfl⟩ := PaymentState.exec_call.mp h
      by_cases hwaits : call.waits = true
      · cases hc with
        | paid party hfree hallowed _ hfits =>
            have h₁ : (machine self).exec N (.pay sender party answers.allowance) =
                .ok (N.enter (.pay sender.address party) N.now,
                  [⟨s.block, s.manager.payRequest self sender.address⟩]) :=
              bind_eq_ok.mpr ⟨(), OcnPaymentManager.payBegin_eq_ok.mpr ⟨hfree, hallowed⟩, rfl⟩
            have hsum : s.manager.stakedFunds party + s.manager.fundingYearlyAmount < 2 ^ 256 := by
              rwa [hfree, Nat.zero_add]
            have h₂ : (machine self).exec (N.enter (.pay sender.address party) N.now)
                (.answer true) = .ok (⟨N.now.afterPay party, []⟩,
                  [.log (.partyStaked sender.address party s.manager.fundingYearlyAmount)].map
                    (PaymentEntry.mk s.block)) :=
              exec_answer rfl (resume_pay_eq_ok.mpr ⟨rfl, hsum, rfl, rfl⟩)
            obtain ⟨hrun, hhist⟩ := run_two h₁ h₂
            exact ⟨_, _, hrun.trans (congrArg (fun c => (⟨c, []⟩ : NestedState))
              (CallState.afterPay_of_free hfree)), hhist⟩
        | withdrawn party hoperator hstake hfits hdue htransfer =>
            have h₁ : (machine self).exec N (.withdrawToRegistryOperator party) =
                .ok (N.enter (.withdrawToRegistryOperator party (s.manager.stakedFunds party))
                  (N.now.afterWithdrawal party),
                  [⟨s.block, s.manager.withdrawRequest party⟩]) :=
              bind_eq_ok.mpr ⟨_, OcnPaymentManager.withdrawBegin_eq_ok.mpr
                ⟨hoperator, hstake, hfits, hdue, rfl⟩, rfl⟩
            have h₂ : (machine self).exec
                (N.enter (.withdrawToRegistryOperator party (s.manager.stakedFunds party))
                  (N.now.afterWithdrawal party)) (.answer true) =
                .ok (⟨N.now.afterWithdrawal party, []⟩,
                  [.log (.stakeWithdrawn party (s.manager.stakedFunds party))].map
                    (PaymentEntry.mk s.block)) :=
              exec_answer rfl (resume_withdraw_eq_ok.mpr ⟨rfl, rfl, rfl⟩)
            obtain ⟨hrun, hhist⟩ := run_two h₁ h₂
            exact ⟨_, _, hrun, hhist⟩
        | membersSet _ r members hcall => exact absurd hwaits (PaymentCall.not_waits_of_role hcall)
        | operatorSet | fundingSet | stablecoinSet | upgraded => cases hwaits
      · have h₁ : (machine self).exec N (.setting sender call answers) =
            .ok (⟨⟨⟨manager, s.block⟩, writes⟩, []⟩, effects.map (PaymentEntry.mk s.block)) :=
          exec_setting hwaits (OcnPaymentManager.exec_of_change hc)
        refine ⟨[.setting sender call answers], writes, Machine.step_ok h₁, ?_⟩
        show (machine self).emitted N _ ++ [] = _
        rw [List.append_nil, Machine.emitted_ok h₁]
  | mine blocks =>
      obtain ⟨hfits, rfl, rfl⟩ := PaymentState.exec_mine.mp h
      have h₁ : (machine self).exec N (.mine blocks) =
          .ok (⟨⟨⟨s.manager, s.block + blocks⟩, writes⟩, []⟩, []) :=
        bind_eq_ok.mpr ⟨_, checkedWord_eq_ok.mpr ⟨hfits, rfl⟩, rfl⟩
      refine ⟨[.mine blocks], writes, Machine.step_ok h₁, ?_⟩
      show (machine self).emitted N _ ++ [] = _
      rw [List.append_nil, Machine.emitted_ok h₁]

/-- **The runs without call-backs are among the runs with them.** -/
theorem atomic_run (D : PaymentDeployment) (ts : List (PaymentTx D.self)) :
    ∃ us writes, D.nestedRun us = ⟨⟨D.run ts, writes⟩, []⟩ ∧
      (machine D.self).history D.nestedStart us = D.history ts := by
  have hstep : ∀ (s : PaymentState) (N : NestedState) (t : PaymentTx D.self),
      (∃ writes, N = ⟨⟨s, writes⟩, []⟩) →
      ∃ us, (∃ writes, (machine D.self).run N us =
          ⟨⟨(PaymentState.machine D.self).step s t, writes⟩, []⟩) ∧
        (machine D.self).history N us = (PaymentState.machine D.self).emitted s t := by
    intro s N t hR
    obtain ⟨writes, rfl⟩ := hR
    cases hok : (PaymentState.machine D.self).exec s t with
    | error e =>
        refine ⟨[], ⟨writes, ?_⟩, (Machine.emitted_error hok).symm⟩
        rw [Machine.step_error hok]
        rfl
    | ok r =>
        obtain ⟨us, writes', hrun, hhist⟩ := atomic_step writes hok
        refine ⟨us, ⟨writes', ?_⟩, hhist.trans (Machine.emitted_ok hok).symm⟩
        rw [hrun, Machine.step_ok hok]
  obtain ⟨us, ⟨writes, hrun⟩, hhist⟩ := Machine.run_simulated hstep ts ⟨[], rfl⟩
  exact ⟨us, writes, hrun, hhist⟩

end NestedState

end Ocn
