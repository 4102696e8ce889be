/-
  File:      OcnRegistry/Payments/Stakers.lean
  Subject:   STAKERS DO NOT NOTICE EACH OTHER: one balance behind everybody's stakes.

  The manager keeps the stakes of all parties in one balance. As long as nobody sets another
  stablecoin it covers them all (Payments/Solvency), so that one party's withdrawal never takes what
  another's is paid from: there is no run on the manager.

  Holders of tokens are divided into groups that keep their tokens to themselves, or pay them to the
  house: the manager and whoever it pays out to.

  * `SameFor` -- two states among exact tokens that a group cannot tell apart;
  * `unwinding` -- the others' steps are not seen, its own answer alike;
  * `stakers_apart` -- in two runs with the same steps of its own (and of the administration), a
    group gets the same answers, and finds the same stakes, statuses, balances and allowances.
-/
import OcnRegistry.Library.Holdings
import OcnRegistry.Payments.Solvency

namespace Ocn

open Transaction Token

/-- **Who holds with whom**, and who is the house. -/
structure Holders (γ : Type) where
  of : Address → γ
  house : γ

namespace Holders

variable {γ : Type} {self : Address}

/-! ## 1. Steps of a group -/

section Steps

variable (H : Holders γ)

/-- The group a step belongs to; none for the administration and the passing of blocks. -/
def group : BankTx self → Option γ
  | .call _ (.pay party) _ => some (H.of party)
  | .call _ (.withdrawToRegistryOperator party) _ => some (H.of party)
  | .call _ _ _ => none
  | .token _ sender _ => some (H.of sender.address)
  | .mint _ recipient _ => some (H.of recipient)
  | .mine _ => none

/-- The step is the group's, or one that concerns everybody. -/
def concerns [DecidableEq γ] (g : γ) (t : BankTx self) : Bool :=
  (H.group t).all fun g' => decide (g' = g)

/-- **The step stays with its group**: stakes are paid from the group's own tokens, tokens stay in
    the group or go to the house, stakes are paid out to the house, in the same stablecoin. -/
def Stays : BankTx self → Prop
  | .call sender (.pay party) _ => H.of sender.address = H.of party
  | .call _ (.setOperator operatorAddress) _ => H.of operatorAddress = H.house
  | .call _ (.setStablecoinAddress _) _ => False
  | .token _ sender (.transfer recipient _) =>
      H.of recipient = H.of sender.address ∨ H.of recipient = H.house
  | .token _ sender (.transferFrom holder recipient _) =>
      H.of holder = H.of sender.address ∧
        (H.of recipient = H.of sender.address ∨ H.of recipient = H.house)
  | _ => True

def members (g : γ) : Set Address := fun a => H.of a = g

end Steps

end Holders

/-! ## 2. What a group sees of the manager -/

namespace OcnPaymentManager

/-- **Two storages that differ in others' stakes only.** -/
structure SameOn (p : Set Address) (st st' : OcnPaymentManager) : Prop where
  UPGRADER_ROLE : st.UPGRADER_ROLE = st'.UPGRADER_ROLE
  version : st.version = st'.version
  currentBaseContract : st.currentBaseContract = st'.currentBaseContract
  fundingYearlyAmount : st.fundingYearlyAmount = st'.fundingYearlyAmount
  euroStablecoin : st.euroStablecoin = st'.euroStablecoin
  operatorAddress : st.operatorAddress = st'.operatorAddress
  stakingPeriodInBlocks : st.stakingPeriodInBlocks = st'.stakingPeriodInBlocks
  stakingBlock : Set.EqOn st.stakingBlock st'.stakingBlock p
  stakedFunds : Set.EqOn st.stakedFunds st'.stakedFunds p
  members : st.members = st'.members

variable {p : Set Address} {st st' st'' : OcnPaymentManager} {self sender party : Address}
  {block amount : Nat} {answers : PaymentAnswers}

theorem SameOn.refl (p : Set Address) (st : OcnPaymentManager) : SameOn p st st :=
  ⟨rfl, rfl, rfl, rfl, rfl, rfl, rfl, Set.eqOn_refl _ _, Set.eqOn_refl _ _, rfl⟩

theorem SameOn.symm (h : SameOn p st st') : SameOn p st' st :=
  ⟨h.UPGRADER_ROLE.symm, h.version.symm, h.currentBaseContract.symm, h.fundingYearlyAmount.symm,
    h.euroStablecoin.symm, h.operatorAddress.symm, h.stakingPeriodInBlocks.symm,
    h.stakingBlock.symm, h.stakedFunds.symm, h.members.symm⟩

theorem SameOn.trans (h : SameOn p st st') (h' : SameOn p st' st'') : SameOn p st st'' :=
  ⟨h.UPGRADER_ROLE.trans h'.UPGRADER_ROLE, h.version.trans h'.version,
    h.currentBaseContract.trans h'.currentBaseContract,
    h.fundingYearlyAmount.trans h'.fundingYearlyAmount, h.euroStablecoin.trans h'.euroStablecoin,
    h.operatorAddress.trans h'.operatorAddress,
    h.stakingPeriodInBlocks.trans h'.stakingPeriodInBlocks, h.stakingBlock.trans h'.stakingBlock,
    h.stakedFunds.trans h'.stakedFunds, h.members.trans h'.members⟩

theorem SameOn.storeStake (h : SameOn p st st') :
    SameOn p (st.storeStake party amount block) (st'.storeStake party amount block) :=
  { h with
    stakedFunds := eqOn_update h.stakedFunds
    stakingBlock := eqOn_update h.stakingBlock }

theorem SameOn.clearStake (h : SameOn p st st') :
    SameOn p (st.clearStake party) (st'.clearStake party) :=
  { h with stakedFunds := eqOn_update h.stakedFunds }

theorem sameOn_storeStake_other (hp : party ∉ p) :
    SameOn p st (st.storeStake party amount block) :=
  { SameOn.refl p st with
    stakedFunds := eqOn_update_of_notMem hp
    stakingBlock := eqOn_update_of_notMem hp }

theorem sameOn_clearStake_other (hp : party ∉ p) : SameOn p st (st.clearStake party) :=
  { SameOn.refl p st with stakedFunds := eqOn_update_of_notMem hp }

/-! ## 3. The manager's functions, called by a group -/

theorem SameOn.alike_pay (h : SameOn p st st') (hp : party ∈ p) :
    Alike (SameOn p) (st.pay self block answers sender party)
      (st'.pay self block answers sender party) := by
  have hstake : st.stakedFunds party = st'.stakedFunds party := h.stakedFunds hp
  have hbegin : st.payBegin self answers.allowance sender party =
      st'.payBegin self answers.allowance sender party := by
    unfold payBegin
    rw [hstake, h.euroStablecoin, h.fundingYearlyAmount]
  have hrequest : st.payRequest self sender = st'.payRequest self sender := by
    unfold payRequest
    rw [h.euroStablecoin, h.fundingYearlyAmount]
  have hend : ∀ paid, Alike (SameOn p) (st.payEnd block sender party paid)
      (st'.payEnd block sender party paid) := by
    intro paid
    unfold payEnd
    rw [hstake, h.fundingYearlyAmount]
    exact Alike.guard fun _ => Alike.bind fun _ _ => .accepted _ h.storeStake
  unfold pay
  rw [hbegin, hrequest, h.euroStablecoin, h.fundingYearlyAmount]
  exact Alike.bind fun _ _ => Alike.bind fun paid _ =>
    (hend paid).andThen fun _ _ effects _ _ hs => .accepted _ hs

/-- Both withdrawals begin, or both are refused with one error. -/
theorem SameOn.withdrawBegin (h : SameOn p st st') (block : Nat) (hp : party ∈ p) :
    (∃ e, st.withdrawBegin block party = .error e ∧ st'.withdrawBegin block party = .error e) ∨
      (st.withdrawBegin block party = .ok (st.clearStake party) ∧
        st'.withdrawBegin block party = .ok (st'.clearStake party)) := by
  have hstake : st.stakedFunds party = st'.stakedFunds party := h.stakedFunds hp
  have hstart : st.stakingBlock party = st'.stakingBlock party := h.stakingBlock hp
  unfold OcnPaymentManager.withdrawBegin
  rw [hstake, hstart, h.operatorAddress, h.stakingPeriodInBlocks]
  by_cases hoperator : st'.operatorAddress = 0
  · exact .inl ⟨_, if_pos hoperator, if_pos hoperator⟩
  by_cases hnone : st'.stakedFunds party = 0
  · refine .inl ⟨.noFundsStaked, ?_, ?_⟩ <;> rw [if_neg hoperator, if_pos hnone]
  rw [if_neg hoperator, if_neg hnone, if_neg hoperator, if_neg hnone]
  cases checkedAdd (st'.stakingBlock party) st'.stakingPeriodInBlocks with
  | error e => exact .inl ⟨e, rfl, rfl⟩
  | ok due =>
      by_cases hdue : block < due
      · exact .inl ⟨.withdrawalNotAllowed, if_pos hdue, if_pos hdue⟩
      · exact .inr ⟨if_neg hdue, if_neg hdue⟩

theorem SameOn.alike_withdraw (h : SameOn p st st') (hp : party ∈ p) :
    Alike (SameOn p) (st.withdrawToRegistryOperator block answers party)
      (st'.withdrawToRegistryOperator block answers party) := by
  have hstake : st.stakedFunds party = st'.stakedFunds party := h.stakedFunds hp
  have hrequest : st.withdrawRequest party = st'.withdrawRequest party := by
    unfold withdrawRequest
    rw [hstake, h.euroStablecoin, h.operatorAddress]
  unfold withdrawToRegistryOperator
  rw [hrequest, hstake, h.euroStablecoin, h.operatorAddress]
  rcases h.withdrawBegin block hp with ⟨e, hbegin, hbegin'⟩ | ⟨hbegin, hbegin'⟩
  · rw [hbegin, hbegin']
    exact .refused e
  · rw [hbegin, hbegin']
    have hend : ∀ amount paid, Alike (SameOn p)
        ((st.clearStake party).withdrawEnd party amount paid)
        ((st'.clearStake party).withdrawEnd party amount paid) :=
      fun _ _ => Alike.guard fun _ => .accepted _ h.clearStake
    exact Alike.bind_ok (Alike.bind fun paid _ =>
      (hend _ paid).andThen fun _ _ effects _ _ hs => .accepted _ hs)

/-- **Every call**: those for a party, if it is of the group; the others in any case. -/
theorem SameOn.alike_exec (h : SameOn p st st') (self : Address) (block : Nat) (sender : Address)
    (answers : PaymentAnswers) (call : PaymentCall)
    (hpay : ∀ party, call = .pay party → party ∈ p)
    (hwithdraw : ∀ party, call = .withdrawToRegistryOperator party → party ∈ p) :
    Alike (SameOn p) (st.exec self block sender answers call)
      (st'.exec self block sender answers call) := by
  have hmembers : ∀ (r : Except Revert RoleMembers) (effects : List PaymentEffect),
      Alike (SameOn p) (do let members ← r; .ok ({ st with members := members }, effects))
        (do let members ← r; .ok ({ st' with members := members }, effects)) :=
    fun r effects => Alike.bind fun members _ => .accepted effects { h with members := rfl }
  unfold exec
  cases call with
  | pay party => exact h.alike_pay (hpay party rfl)
  | withdrawToRegistryOperator party => exact h.alike_withdraw (hwithdraw party rfl)
  | setOperator operatorAddress =>
      dsimp only [setOperator]
      rw [h.members]
      exact Alike.bind fun _ _ => .accepted _ { h with operatorAddress := rfl, members := rfl }
  | setFundingYearlyAmount amount =>
      dsimp only [setFundingYearlyAmount]
      rw [h.members]
      exact Alike.bind fun _ _ => Alike.bind fun _ _ =>
        .accepted _ { h with fundingYearlyAmount := rfl, members := rfl }
  | setStablecoinAddress euroStablecoin =>
      dsimp only [setStablecoinAddress]
      rw [h.members]
      exact Alike.bind fun _ _ => .accepted _ { h with euroStablecoin := rfl, members := rfl }
  | transferOwnership newOwner =>
      dsimp only [transferOwnership]
      rw [← h.members]
      exact hmembers _ _
  | upgradeToAndCall newImplementation =>
      dsimp only [upgradeToAndCall, authorizeUpgrade]
      rw [h.members, h.UPGRADER_ROLE, h.version]
      simp only [bind_assoc]
      refine Alike.bind fun _ _ => Alike.bind fun _ _ => Alike.bind_ok (Alike.bind fun _ _ => ?_)
      exact .accepted _
        { h with UPGRADER_ROLE := rfl, version := rfl, currentBaseContract := rfl, members := rfl }
  | grantRole role account =>
      dsimp only
      rw [← h.members]
      exact hmembers _ _
  | revokeRole role account =>
      dsimp only
      rw [← h.members]
      exact hmembers _ _
  | renounceRole role callerConfirmation =>
      dsimp only
      rw [← h.members]
      exact hmembers _ _

end OcnPaymentManager

/-! ## 4. Manager and tokens -/

namespace Holders

variable {γ : Type} {H : Holders γ} {self : Address} {g : γ} {B B' B'' : Bank} {t : BankTx self}

/-- **Two states the group cannot tell apart.** -/
structure SameFor (H : Holders γ) (g : γ) (B B' : Bank) : Prop where
  manager : B.manager.SameOn (H.members g) B'.manager
  block : B.block = B'.block
  tokens : ∀ token, (B.tokens token).SameOn (H.members g) (B'.tokens token)

theorem SameFor.refl (B : Bank) : H.SameFor g B B :=
  ⟨.refl _ _, rfl, fun _ => .refl _ _⟩

theorem SameFor.symm (h : H.SameFor g B B') : H.SameFor g B' B :=
  ⟨h.manager.symm, h.block.symm, fun token => (h.tokens token).symm⟩

theorem SameFor.trans (h : H.SameFor g B B') (h' : H.SameFor g B' B'') : H.SameFor g B B'' :=
  ⟨h.manager.trans h'.manager, h.block.trans h'.block,
    fun token => (h.tokens token).trans (h'.tokens token)⟩

/-- The ledgers of all tokens, seen by the group. -/
def SameTokens (H : Holders γ) (g : γ) (tokens tokens' : Address → Ledger Address) : Prop :=
  ∀ token, (tokens token).SameOn (H.members g) (tokens' token)

theorem SameTokens.update {tokens tokens' : Address → Ledger Address} {L L' : Ledger Address}
    {token : Address} (h : H.SameTokens g tokens tokens') (hL : L.SameOn (H.members g) L') :
    H.SameTokens g (Function.update tokens token L) (Function.update tokens' token L') := by
  intro T
  by_cases e : T = token
  · rw [e, Function.update_self, Function.update_self]
    exact hL
  · rw [Function.update_of_ne e, Function.update_of_ne e]
    exact h T

theorem sameTokens_update_other {tokens : Address → Ledger Address} {L : Ledger Address}
    {token : Address} (hL : (tokens token).SameOn (H.members g) L) :
    H.SameTokens g tokens (Function.update tokens token L) := by
  intro T
  by_cases e : T = token
  · rw [e, Function.update_self]
    exact hL
  · rw [Function.update_of_ne e]
    exact .refl _ _

/-! ## 5. What stays true -/

/-- **The house is in order**: the manager is solvent, has approved nobody, and pays out to the
    house. -/
structure InOrder (H : Holders γ) (contract : Address) (B : Bank) : Prop where
  solvent : B.Solvent contract
  nobody : B.ApprovesNobody contract
  operator : H.of B.manager.operatorAddress = H.house

theorem inOrder_start {D : BankDeployment} (h : H.of D.operator = H.house) :
    H.InOrder D.self D.bank :=
  ⟨D.solvent_bank, D.fresh, h⟩

/-- Only `setOperator` changes whom the manager pays out to. -/
theorem operator_step {ev : List PaymentEntry} (hs : H.Stays t)
    (h : H.of B.manager.operatorAddress = H.house)
    (hok : (Bank.machine self).exec B t = .ok (B', ev)) :
    H.of B'.manager.operatorAddress = H.house := by
  cases t with
  | call sender call answers =>
      obtain ⟨s, tokens, hcall, _, rfl⟩ := Bank.exec_call.mp hok
      obtain ⟨manager, effects, hc, rfl, _⟩ := PaymentState.exec_call.mp hcall
      cases hc with
      | operatorSet => exact hs
      | paid | withdrawn | fundingSet | stablecoinSet | upgraded | membersSet => exact h
  | token token sender request =>
      have hexec : Bank.exec self B (.token token sender request) = .ok (B', ev) := hok
      unfold Bank.exec at hexec
      dsimp only at hexec
      split at hexec
      · cases hexec
        exact h
      · cases hexec
  | mint =>
      cases hok
      exact h
  | mine blocks =>
      obtain ⟨⟨s, entries⟩, hmine, hr⟩ := bind_eq_ok.mp hok
      have hstep : (PaymentState.machine self).exec B.toPaymentState (.mine blocks) =
          .ok (s, entries) := hmine
      obtain ⟨_, rfl, _⟩ := PaymentState.exec_mine.mp hstep
      cases hr
      exact h

theorem not_strands (hs : H.Stays t) : ¬ Bank.StrandsStakes B t := by
  rintro ⟨⟨sender, token, answers, rfl, _⟩, _⟩
  exact hs

theorem inOrder_step (hI : H.InOrder self B) (hs : H.Stays t) :
    H.InOrder self ((Bank.machine self).step B t) where
  solvent := (Bank.solvent_step_iff hI.nobody hI.solvent t).mpr (not_strands hs)
  nobody := Bank.approvesNobody_step hI.nobody t
  operator := Machine.step_preserves (M := Bank.machine self)
    (I := fun B => H.of B.manager.operatorAddress = H.house) hI.operator
    fun _ _ hok => operator_step hs hI.operator hok

/-- A solvent manager covers every single stake. -/
theorem InOrder.covered (hI : H.InOrder self B) (party : Address) :
    B.manager.stakedFunds party ≤ (B.tokens B.manager.euroStablecoin).balance self :=
  le_trans (Finset.single_le_sum (fun _ _ => Nat.zero_le _) (Finset.mem_univ party)) hI.solvent

/-! ## 6. The others' steps -/

section Others

/-- A token's answer to an account of another group. -/
theorem sameOn_applyCall_other {token : Address} {sender : Caller self} {request : TokenCall}
    {L L' : Ledger Address} (hs : H.Stays (.token token sender request : BankTx self))
    (hg : g ≠ H.house) (hother : H.of sender.address ≠ g)
    (h : applyCall sender.address L request = some L') : L.SameOn (H.members g) L' := by
  cases request with
  | transfer recipient amount =>
      have hrecipient : H.of recipient ≠ g := by
        rcases hs with e | e
        · exact e ▸ hother
        · exact e ▸ hg.symm
      exact Ledger.sameOn_move_other hother hrecipient h
  | approve spender amount =>
      cases h
      exact Ledger.sameOn_approve_other hother
  | transferFrom holder recipient amount =>
      obtain ⟨hholder, hs⟩ := hs
      have hrecipient : H.of recipient ≠ g := by
        rcases hs with e | e
        · exact e ▸ hother
        · exact e ▸ hg.symm
      have hholder' : H.of holder ≠ g := hholder ▸ hother
      exact Ledger.sameOn_transferFrom_other hholder' hrecipient h

/-- **The others' steps are not seen.** -/
theorem sameFor_other {ev : List PaymentEntry} (hself : H.of self = H.house) (hg : g ≠ H.house)
    (hI : H.InOrder self B) (hs : H.Stays t) {g' : γ} (ht : H.group t = some g') (hne : g' ≠ g)
    (hok : (Bank.machine self).exec B t = .ok (B', ev)) : H.SameFor g B B' := by
  have hhouse : H.of self ≠ g := hself ▸ hg.symm
  cases t with
  | call sender call answers =>
      obtain ⟨s, tokens, hcall, hsettle, rfl⟩ := Bank.exec_call.mp hok
      obtain ⟨manager, effects, hc, rfl, rfl⟩ := PaymentState.exec_call.mp hcall
      cases hc with
      | paid party =>
          obtain rfl := Option.some.inj ht
          obtain ⟨L, hL, rfl⟩ := Bank.settle_request.mp hsettle
          have hsender : H.of sender.address ≠ g := hs ▸ hne
          exact ⟨OcnPaymentManager.sameOn_storeStake_other hne, rfl, sameTokens_update_other
            (Ledger.sameOn_transferFrom_other hsender hhouse hL)⟩
      | withdrawn party =>
          obtain rfl := Option.some.inj ht
          obtain ⟨L, hL, rfl⟩ := Bank.settle_request.mp hsettle
          have hoperator : H.of B.manager.operatorAddress ≠ g := hI.operator ▸ hg.symm
          exact ⟨OcnPaymentManager.sameOn_clearStake_other hne, rfl, sameTokens_update_other
            (Ledger.sameOn_move_other hhouse hoperator hL)⟩
      | operatorSet | fundingSet | stablecoinSet | upgraded => cases ht
      | membersSet _ r _ hrole =>
          cases call <;> cases hrole <;> cases ht
  | token token sender request =>
      obtain rfl := Option.some.inj ht
      have hexec : Bank.exec self B (.token token sender request) = .ok (B', ev) := hok
      unfold Bank.exec at hexec
      dsimp only at hexec
      split at hexec
      · rename_i L hL
        cases hexec
        exact ⟨.refl _ _, rfl,
          sameTokens_update_other (sameOn_applyCall_other hs hg hne hL)⟩
      · cases hexec
  | mint token recipient amount =>
      obtain rfl := Option.some.inj ht
      cases hok
      exact ⟨.refl _ _, rfl, sameTokens_update_other (Ledger.sameOn_mint_other hne)⟩
  | mine => cases ht

end Others

/-! ## 7. The group's own steps -/

section Own

/-- **What settles alike**: a request that is covered in both ledgers or in neither. -/
theorem rel_settle_request {tokens tokens' : Address → Ledger Address} {token : Address}
    {request : TokenCall} {event : PaymentEvent} {block : Nat} (h : H.SameTokens g tokens tokens')
    (hrel : Option.Rel (Ledger.SameOn (H.members g)) (applyCall self (tokens token) request)
      (applyCall self (tokens' token) request)) :
    Option.Rel (H.SameTokens g)
      (settle self tokens [⟨block, .call token request⟩, ⟨block, .log event⟩])
      (settle self tokens' [⟨block, .call token request⟩, ⟨block, .log event⟩]) := by
  show Option.Rel _ ((applyCall self (tokens token) request).bind _)
    ((applyCall self (tokens' token) request).bind _)
  generalize applyCall self (tokens token) request = x,
    applyCall self (tokens' token) request = y at hrel
  cases hrel with
  | none => exact .none
  | some hL => exact .some (h.update hL)

/-- **The tokens' answers to the manager**: what the group pays is covered by its own tokens, and
    what is paid out for it by the manager's balance. -/
theorem rel_settle (hI : H.InOrder self B) (hI' : H.InOrder self B')
    (h : H.SameFor g B B') {sender : Caller self} {call : PaymentCall} {answers : PaymentAnswers}
    {s : PaymentState} {ev : List PaymentEntry}
    (hs : H.Stays (.call sender call answers : BankTx self))
    (hmine : ∀ g', H.group (.call sender call answers : BankTx self) = some g' → g' = g)
    (hok : (PaymentState.machine self).exec B.toPaymentState (.call sender call answers) =
      .ok (s, ev)) :
    Option.Rel (H.SameTokens g) (settle self B.tokens ev) (settle self B'.tokens ev) := by
  obtain ⟨manager, effects, hc, rfl, rfl⟩ := PaymentState.exec_call.mp hok
  cases hc with
  | paid party =>
      have hsender : H.of sender.address = g := hs.trans (hmine _ rfl)
      exact rel_settle_request h.tokens ((h.tokens _).transferFrom hsender)
  | withdrawn party =>
      have hstake : B.manager.stakedFunds party = B'.manager.stakedFunds party :=
        h.manager.stakedFunds (hmine _ rfl)
      refine rel_settle_request h.tokens ((h.tokens _).move (iff_of_true (hI.covered party) ?_))
      rw [hstake, h.manager.euroStablecoin]
      exact hI'.covered party
  | operatorSet | fundingSet | stablecoinSet | upgraded => exact .some h.tokens
  | membersSet _ r =>
      have hlogs : ∀ e ∈ (OcnPaymentManager.roleEffects sender.address r).map
          (PaymentEntry.mk B.block), ∃ event, e.effect = .log event := fun e he => by
        obtain ⟨oldAdmin, newAdmin, heff⟩ :=
          PaymentState.quiet_roleEffects sender.address r B.block e he
        exact ⟨_, heff⟩
      rw [Bank.settle_logs hlogs, Bank.settle_logs hlogs]
      exact .some h.tokens

/-- The manager's part of a call. -/
theorem alike_state (h : H.SameFor g B B') {sender : Caller self} {call : PaymentCall}
    {answers : PaymentAnswers}
    (hmine : ∀ g', H.group (.call sender call answers : BankTx self) = some g' → g' = g) :
    Alike (fun s s' : PaymentState => s.manager.SameOn (H.members g) s'.manager ∧
        s.block = s'.block)
      (PaymentState.exec self B.toPaymentState (.call sender call answers))
      (PaymentState.exec self B'.toPaymentState (.call sender call answers)) := by
  have hcall := h.manager.alike_exec self B.block sender.address answers call
    (fun party e => hmine _ (by rw [e]; rfl)) fun party e => hmine _ (by rw [e]; rfl)
  unfold PaymentState.exec
  rw [← h.block]
  exact hcall.andThen fun _ _ _ _ _ hm => .accepted _ ⟨hm, rfl⟩

/-- **A call to the manager.** -/
theorem alike_call (hI : H.InOrder self B) (hI' : H.InOrder self B') (h : H.SameFor g B B')
    {sender : Caller self} {call : PaymentCall} {answers : PaymentAnswers}
    (hs : H.Stays (.call sender call answers : BankTx self))
    (hmine : ∀ g', H.group (.call sender call answers : BankTx self) = some g' → g' = g) :
    Alike (H.SameFor g) (Bank.exec self B (.call sender call answers))
      (Bank.exec self B' (.call sender call answers)) := by
  unfold Bank.exec
  refine (alike_state h hmine).andThen fun s s' ev hok _ hstate => ?_
  have hsettle := rel_settle hI hI' h hs hmine hok
  dsimp only
  generalize settle self B.tokens ev = x, settle self B'.tokens ev = y at hsettle
  cases hsettle with
  | none => exact .refused _
  | some htokens => exact .accepted _ ⟨hstate.1, hstate.2, htokens⟩

/-- A token's answer to an account of the group. -/
theorem rel_applyCall {token : Address} {sender : Caller self} {request : TokenCall}
    {L L' : Ledger Address} (hs : H.Stays (.token token sender request : BankTx self))
    (hsender : H.of sender.address = g) (h : L.SameOn (H.members g) L') :
    Option.Rel (Ledger.SameOn (H.members g)) (applyCall sender.address L request)
      (applyCall sender.address L' request) := by
  cases request with
  | transfer recipient amount => exact h.move_own hsender
  | approve spender amount => exact .some (h.approve hsender)
  | transferFrom holder recipient amount => exact h.transferFrom (hs.1.trans hsender)

/-- **The group's own steps answer alike**, and so do those that concern everybody. -/
theorem alike_own (hI : H.InOrder self B) (hI' : H.InOrder self B') (h : H.SameFor g B B')
    (hs : H.Stays t) (hmine : ∀ g', H.group t = some g' → g' = g) :
    Alike (H.SameFor g) (Bank.exec self B t) (Bank.exec self B' t) := by
  cases t with
  | call sender call answers => exact alike_call hI hI' h hs hmine
  | token token sender request =>
      have hrel := rel_applyCall hs (hmine _ rfl) (h.tokens token)
      unfold Bank.exec
      dsimp only
      generalize applyCall sender.address (B.tokens token) request = x,
        applyCall sender.address (B'.tokens token) request = y at hrel
      cases hrel with
      | none => exact .refused _
      | some hL => exact .accepted _ ⟨h.manager, h.block, SameTokens.update h.tokens hL⟩
  | mint token recipient amount =>
      have hrecipient : H.of recipient = g := hmine _ rfl
      exact .accepted _
        ⟨h.manager, h.block, SameTokens.update h.tokens ((h.tokens token).mint hrecipient)⟩
  | mine blocks =>
      unfold Bank.exec PaymentState.exec
      rw [h.block]
      simp only [bind_assoc]
      exact Alike.bind fun block _ => .accepted _ ⟨h.manager, rfl, h.tokens⟩

end Own

/-! ## 8. Stakers keep apart -/

section Apart

variable [DecidableEq γ]

/-- **Manager and tokens, to one group of holders.** -/
theorem unwinding (hself : H.of self = H.house) (hg : g ≠ H.house) :
    Machine.Unwinding (Bank.machine self) (H.InOrder self) (fun t => H.Stays t) (H.concerns g)
      (H.SameFor g) where
  equiv := ⟨SameFor.refl, SameFor.symm, SameFor.trans⟩
  keeps := fun _ _ hI hs => inOrder_step hI hs
  silent := fun B t hI hs hother => by
    obtain ⟨g', ht, hne⟩ := other_of_all hother
    exact Machine.step_preserves (M := Bank.machine self) (I := H.SameFor g B) (SameFor.refl B)
      fun _ _ hok => sameFor_other hself hg hI hs ht hne hok
  alike := fun _ _ _ hI hI' h hs hmine => alike_own hI hI' h hs fun _ => eq_of_all hmine

/-- **Stakers do not notice each other**: among exact tokens, in two runs whose steps each stay with
    one group of holders, and which agree on the steps of one group, not the house, and of the
    administration, in this order, these steps get the same answers, and the group finds the same
    payment status, staking block, stake, balances and allowances. So a withdrawal that succeeds
    when a group is alone succeeds whatever the others have paid and withdrawn before. -/
theorem stakers_apart (D : BankDeployment) (H : Holders γ) (g : γ) (hg : g ≠ H.house)
    (hself : H.of D.self = H.house) (hoperator : H.of D.operator = H.house)
    (ts us : List (BankTx D.self)) (hts : ∀ t ∈ ts, H.Stays t) (hus : ∀ t ∈ us, H.Stays t)
    (h : ts.filter (H.concerns g) = us.filter (H.concerns g)) :
    (Bank.machine D.self).answers (H.concerns g) D.bank ts =
      (Bank.machine D.self).answers (H.concerns g) D.bank us ∧
    ∀ a, H.of a = g →
      (D.bankRun ts).manager.getPaymentStatus a = (D.bankRun us).manager.getPaymentStatus a ∧
      (D.bankRun ts).manager.getPaymentBlock (D.bankRun ts).block a =
        (D.bankRun us).manager.getPaymentBlock (D.bankRun us).block a ∧
      (D.bankRun ts).manager.stakedFunds a = (D.bankRun us).manager.stakedFunds a ∧
      ∀ token,
        ((D.bankRun ts).tokens token).balance a = ((D.bankRun us).tokens token).balance a ∧
        ((D.bankRun ts).tokens token).allowance a =
          ((D.bankRun us).tokens token).allowance a := by
  obtain ⟨hanswers, hsame⟩ :=
    (unwinding hself hg).interleaved hts hus (inOrder_start hoperator) h
  refine ⟨hanswers, fun a ha => ?_⟩
  have hstake : (D.bankRun ts).manager.stakedFunds a = (D.bankRun us).manager.stakedFunds a :=
    hsame.manager.stakedFunds ha
  have hblock : (D.bankRun ts).manager.stakingBlock a = (D.bankRun us).manager.stakingBlock a :=
    hsame.manager.stakingBlock ha
  have hnow : (D.bankRun ts).block = (D.bankRun us).block := hsame.block
  refine ⟨?_, ?_, hstake, fun token => ⟨(hsame.tokens token).balance ha,
    (hsame.tokens token).allowance ha⟩⟩
  · unfold OcnPaymentManager.getPaymentStatus
    rw [hstake, hblock]
  · unfold OcnPaymentManager.getPaymentBlock
    rw [hblock, hnow]

end Apart

end Holders

namespace Sample

def rival : Caller bankDeployment.self := ⟨⟨0x14, by decide⟩, by decide⟩

/-- The payer and the party it pays for; a rival with its party; the house. -/
def holders : Holders Nat where
  of := fun a => if a = 0x13 ∨ a = 3 then 1 else if a = 0x14 ∨ a = 4 then 2 else 0
  house := 0

/-- The sample stake, withdrawn when its period has passed. -/
def stake : List (BankTx bankDeployment.self) :=
  [.call payer (.pay 3) willing, .mine 2102400,
    .call payer (.withdrawToRegistryOperator 3) willing]

/-- The same among the rival's steps, which pays a stake and withdraws it first. -/
def contested : List (BankTx bankDeployment.self) :=
  [.mint 0xE0 0x14 (100 * 10 ^ 18), .token 0xE0 rival (.approve 0x50 (100 * 10 ^ 18)),
    .call rival (.pay 4) willing, .call payer (.pay 3) willing, .mine 2102400,
    .call rival (.withdrawToRegistryOperator 4) willing,
    .call payer (.withdrawToRegistryOperator 3) willing]

theorem payer_holds : holders.of payer.address = holders.of 3 := by decide

theorem rival_holds : holders.of rival.address = holders.of 4 := by decide

theorem stays_stake : ∀ t ∈ stake, holders.Stays t := by
  unfold stake
  simp only [List.forall_mem_cons]
  exact ⟨payer_holds, trivial, trivial, fun _ h => absurd h List.not_mem_nil⟩

theorem stays_contested : ∀ t ∈ contested, holders.Stays t := by
  unfold contested
  simp only [List.forall_mem_cons]
  exact ⟨trivial, trivial, rival_holds, payer_holds, trivial, trivial, trivial,
    fun _ h => absurd h List.not_mem_nil⟩

end Sample

namespace Holders

/-- The sample stake is paid and withdrawn with the rival's as alone. -/
theorem stakers_apart_sample :
    (Bank.machine Sample.bankDeployment.self).answers (Sample.holders.concerns 1)
        Sample.bankDeployment.bank Sample.contested =
      (Bank.machine Sample.bankDeployment.self).answers (Sample.holders.concerns 1)
        Sample.bankDeployment.bank Sample.stake :=
  (stakers_apart Sample.bankDeployment Sample.holders 1 (by decide) (by decide) (by decide)
    Sample.contested Sample.stake Sample.stays_contested Sample.stays_stake rfl).1

end Holders

end Ocn
