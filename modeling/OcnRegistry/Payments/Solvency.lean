/-
  File:      OcnRegistry/Payments/Solvency.lean
  Subject:   SOLVENCY: the stakes of all parties against the tokens the manager holds.

  Every token here is an exact ledger: a `transfer` or `transferFrom` that it answers with true has
  moved the amount, and one that it cannot make reverts. It may refuse anything for reasons of its
  own (`answers`). Other accounts use the tokens as they like, and tokens are minted to anybody. The
  manager approves nobody, so only its own transfers take from its balance.

  `setStablecoinAddress` changes the token that outstanding stakes are paid back in. It neither
  moves tokens nor asks whether the manager has any of the new one.

  * `solvent_step_iff` -- a step keeps the manager solvent unless it strands the stakes;
  * `stakes_stranded` -- a run that does;
  * `solvency` -- the solvent runs, and what can be withdrawn in a solvent state.
-/
import OcnRegistry.Library.Token
import OcnRegistry.Payments.Run
import Mathlib.Algebra.Order.BigOperators.Group.Finset

namespace Ocn

open Transaction Token

noncomputable instance addressFintype : Fintype Address :=
  Fintype.ofEquiv (Fin (2 ^ 160)) ⟨BitVec.ofFin, BitVec.toFin, fun _ => rfl, fun _ => rfl⟩

/-! ## 1. The manager among exact tokens -/

/-- The manager, the block, and a ledger for every token. -/
structure Bank extends PaymentState where
  tokens : Address → Ledger Address

/-- A call to the manager, a call of another account to a token, new tokens, or new blocks. -/
inductive BankTx (self : Address) where
  | call (sender : Caller self) (call : PaymentCall) (answers : PaymentAnswers)
  | token (token : Address) (sender : Caller self) (request : TokenCall)
  | mint (token recipient : Address) (amount : Nat)
  | mine (blocks : Nat)

/-- What a call to a token does to its ledger. -/
def applyCall (sender : Address) (L : Ledger Address) : TokenCall → Option (Ledger Address)
  | .transfer recipient amount => L.move sender recipient amount
  | .approve spender amount => some (L.approve sender spender amount)
  | .transferFrom holder recipient amount =>
      L.transferFrom (2 ^ 256 - 1) sender holder recipient amount

/-- What the token calls of the manager do to the ledgers. -/
def settle (self : Address) (tokens : Address → Ledger Address) :
    List PaymentEntry → Option (Address → Ledger Address)
  | [] => some tokens
  | e :: es =>
      match e.effect with
      | .log _ => settle self tokens es
      | .call token request =>
          (applyCall self (tokens token) request).bind fun L =>
            settle self (Function.update tokens token L) es

namespace Bank

def exec (self : Address) (B : Bank) : BankTx self → Except Revert (Outcome Bank PaymentEntry)
  | .call sender call answers => do
      let (s, entries) ← PaymentState.exec self B.toPaymentState (.call sender call answers)
      match settle self B.tokens entries with
      | some tokens => .ok (⟨s, tokens⟩, entries)
      | none => .error (.external [])
  | .token token sender request =>
      match applyCall sender.address (B.tokens token) request with
      | some L => .ok ({ B with tokens := Function.update B.tokens token L }, [])
      | none => .error (.external [])
  | .mint token recipient amount =>
      .ok ({ B with
        tokens := Function.update B.tokens token ((B.tokens token).mint recipient amount) }, [])
  | .mine blocks => do
      let (s, entries) ← PaymentState.exec self B.toPaymentState (.mine blocks)
      .ok ({ B with toPaymentState := s }, entries)

/-- The machine of manager and tokens. -/
def machine (self : Address) : Machine Bank (BankTx self) Revert PaymentEntry := ⟨exec self⟩

/-- The stakes of all parties. -/
noncomputable def totalStaked (B : Bank) : Nat := ∑ party, B.manager.stakedFunds party

/-- What the manager holds of a token. -/
def holds (self : Address) (B : Bank) (token : Address) : Nat := (B.tokens token).balance self

/-- **Solvent**: the manager holds the stakes of all parties in the current stablecoin. -/
def Solvent (self : Address) (B : Bank) : Prop :=
  B.totalStaked ≤ B.holds self B.manager.euroStablecoin

/-- **The step strands the stakes**: an accepted `setStablecoinAddress` to a token of which the
    manager holds less than the stakes of all parties. -/
def StrandsStakes {self : Address} (B : Bank) (t : BankTx self) : Prop :=
  (∃ sender token answers, t = .call sender (.setStablecoinAddress token) answers ∧
    B.holds self token < B.totalStaked) ∧ (machine self).Accepts B t

/-- The manager has approved nobody, in no token. -/
def ApprovesNobody (self : Address) (B : Bank) : Prop :=
  ∀ token, (B.tokens token).ApprovesNobody self

/-! ## 2. What a step does -/

/-- The new ledgers leave the manager at least what it had, and no approval. -/
def Keeps (self : Address) (tokens tokens' : Address → Ledger Address) : Prop :=
  ∀ token, (tokens token).ApprovesNobody self →
    (tokens token).balance self ≤ (tokens' token).balance self ∧
      (tokens' token).ApprovesNobody self

theorem Keeps.refl (self : Address) (tokens : Address → Ledger Address) :
    Keeps self tokens tokens := fun _ h => ⟨Nat.le_refl _, h⟩

theorem keeps_update {self token : Address} {tokens : Address → Ledger Address}
    {L : Ledger Address} (h : (tokens token).ApprovesNobody self →
      (tokens token).balance self ≤ L.balance self ∧ L.ApprovesNobody self) :
    Keeps self tokens (Function.update tokens token L) := by
  intro T hT
  by_cases e : T = token
  · subst e
    rw [Function.update_self]
    exact h hT
  · rw [Function.update_of_ne e]
    exact ⟨Nat.le_refl _, hT⟩

/-- Another account's call to a token takes nothing from the manager. -/
theorem applyCall_keeps {self sender : Address} {L L' : Ledger Address} {request : TokenCall}
    (hne : self ≠ sender) (hL : L.ApprovesNobody self)
    (h : applyCall sender L request = some L') :
    L.balance self ≤ L'.balance self ∧ L'.ApprovesNobody self := by
  cases request with
  | transfer recipient amount =>
      refine ⟨Ledger.move_ge h hne, fun x => ?_⟩
      rw [(Ledger.move_spec h).2.1]
      exact hL x
  | approve spender amount =>
      cases h
      exact ⟨Nat.le_refl _, Ledger.approvesNobody_approve hL hne⟩
  | transferFrom holder recipient amount =>
      exact Ledger.transferFrom_keeps (by decide) hL h

/-- **The moves of manager and tokens.** -/
inductive Move (self : Address) (B : Bank) : BankTx self → Bank → Prop where
  | paid (sender : Caller self) (party : Address) (answers : PaymentAnswers) (L : Ledger Address)
      (hfree : B.manager.stakedFunds party = 0)
      (hmove : (B.tokens B.manager.euroStablecoin).transferFrom (2 ^ 256 - 1) self sender.address
        self B.manager.fundingYearlyAmount = some L) :
      Move self B (.call sender (.pay party) answers)
        ⟨⟨B.manager.storeStake party B.manager.fundingYearlyAmount B.block, B.block⟩,
          Function.update B.tokens B.manager.euroStablecoin L⟩
  | withdrawn (sender : Caller self) (party : Address) (answers : PaymentAnswers)
      (L : Ledger Address)
      (hmove : (B.tokens B.manager.euroStablecoin).move self B.manager.operatorAddress
        (B.manager.stakedFunds party) = some L) :
      Move self B (.call sender (.withdrawToRegistryOperator party) answers)
        ⟨⟨B.manager.clearStake party, B.block⟩,
          Function.update B.tokens B.manager.euroStablecoin L⟩
  | stablecoinSet (sender : Caller self) (token : Address) (answers : PaymentAnswers) :
      Move self B (.call sender (.setStablecoinAddress token) answers)
        ⟨⟨{ B.manager with euroStablecoin := token }, B.block⟩, B.tokens⟩
  | quiet (t : BankTx self) (B' : Bank)
      (hcall : ∀ sender token answers, t ≠ .call sender (.setStablecoinAddress token) answers)
      (hfunds : B'.manager.stakedFunds = B.manager.stakedFunds)
      (hstablecoin : B'.manager.euroStablecoin = B.manager.euroStablecoin)
      (htokens : Keeps self B.tokens B'.tokens) : Move self B t B'

variable {self : Address} {B B' : Bank} {t : BankTx self} {ev : List PaymentEntry}

theorem exec_call {sender : Caller self} {call : PaymentCall} {answers : PaymentAnswers} :
    (machine self).exec B (.call sender call answers) = .ok (B', ev) ↔
      ∃ s tokens, (PaymentState.machine self).exec B.toPaymentState (.call sender call answers) =
          .ok (s, ev) ∧ settle self B.tokens ev = some tokens ∧ B' = ⟨s, tokens⟩ := by
  refine ⟨fun hr => ?_, fun hr => ?_⟩
  · obtain ⟨⟨s, entries⟩, hok, hr⟩ := bind_eq_ok.mp hr
    dsimp only at hr
    split at hr
    · rename_i tokens hsettle
      cases hr
      exact ⟨s, tokens, hok, hsettle, rfl⟩
    · cases hr
  · obtain ⟨s, tokens, hok, hsettle, rfl⟩ := hr
    refine bind_eq_ok.mpr ⟨(s, ev), hok, ?_⟩
    simp only [hsettle]

theorem settle_logs {tokens : Address → Ledger Address} {entries : List PaymentEntry}
    (h : ∀ e ∈ entries, ∃ event, e.effect = .log event) :
    settle self tokens entries = some tokens := by
  induction entries with
  | nil => rfl
  | cons e es ih =>
      obtain ⟨event, he⟩ := h e List.mem_cons_self
      unfold settle
      rw [he]
      exact ih fun e he => h e (List.mem_cons_of_mem _ he)

theorem settle_request {tokens tokens' : Address → Ledger Address} {token : Address}
    {request : TokenCall} {event : PaymentEvent} {block : Nat} :
    settle self tokens [⟨block, .call token request⟩, ⟨block, .log event⟩] = some tokens' ↔
      ∃ L, applyCall self (tokens token) request = some L ∧
        tokens' = Function.update tokens token L := by
  refine ⟨fun h => ?_, fun h => ?_⟩
  · obtain ⟨L, hL, h⟩ := Option.bind_eq_some_iff.mp h
    cases h
    exact ⟨L, hL, rfl⟩
  · obtain ⟨L, hL, rfl⟩ := h
    exact Option.bind_eq_some_iff.mpr ⟨L, hL, rfl⟩

theorem move_of_exec (h : (machine self).exec B t = .ok (B', ev)) : Move self B t B' := by
  cases t with
  | call sender call answers =>
      obtain ⟨s, tokens, hok, hsettle, rfl⟩ := exec_call.mp h
      obtain ⟨manager, effects, hc, rfl, rfl⟩ := PaymentState.exec_call.mp hok
      cases hc with
      | paid party hfree _ _ _ =>
          obtain ⟨L, hL, rfl⟩ := settle_request.mp hsettle
          exact .paid sender party answers L hfree hL
      | withdrawn party _ _ _ _ _ =>
          obtain ⟨L, hL, rfl⟩ := settle_request.mp hsettle
          exact .withdrawn sender party answers L hL
      | stablecoinSet token _ =>
          cases hsettle
          exact .stablecoinSet sender token answers
      | operatorSet | fundingSet | upgraded =>
          cases hsettle
          exact .quiet _ _ (fun _ _ _ e => by cases e) rfl rfl (Keeps.refl self B.tokens)
      | membersSet _ r members hcall =>
          have hlogs : ∀ e ∈ (OcnPaymentManager.roleEffects sender.address r).map
              (PaymentEntry.mk B.block), ∃ event, e.effect = .log event := fun e he => by
            obtain ⟨oldAdmin, newAdmin, heff⟩ :=
              PaymentState.quiet_roleEffects sender.address r B.block e he
            exact ⟨_, heff⟩
          rw [settle_logs hlogs] at hsettle
          cases hsettle
          refine .quiet _ _ (fun _ _ _ e => ?_) rfl rfl (Keeps.refl self B.tokens)
          cases e
          cases hcall
  | token token sender request =>
      have hexec : exec self B (.token token sender request) = .ok (B', ev) := h
      unfold exec at hexec
      dsimp only at hexec
      split at hexec
      · rename_i L hL
        cases hexec
        exact .quiet _ _ (fun _ _ _ e => by cases e) rfl rfl
          (keeps_update fun hnobody => applyCall_keeps sender.outside.symm hnobody hL)
      · cases hexec
  | mint token recipient amount =>
      cases h
      exact .quiet _ _ (fun _ _ _ e => by cases e) rfl rfl
        (keeps_update fun hnobody => ⟨Ledger.mint_ge, hnobody⟩)
  | mine blocks =>
      obtain ⟨⟨s, entries⟩, hmine, hr⟩ := bind_eq_ok.mp h
      have hok : (PaymentState.machine self).exec B.toPaymentState (.mine blocks) =
          .ok (s, entries) := hmine
      obtain ⟨_, rfl, rfl⟩ := PaymentState.exec_mine.mp hok
      cases hr
      exact .quiet _ _ (fun _ _ _ e => by cases e) rfl rfl (Keeps.refl self B.tokens)

/-! ## 3. Solvency, step by step -/

theorem approvesNobody_step (h : B.ApprovesNobody self) (t : BankTx self) :
    ((machine self).step B t).ApprovesNobody self := by
  refine Machine.step_preserves h fun B' ev hok token => ?_
  cases move_of_exec hok with
  | paid sender party answers L _ hmove =>
      exact ((keeps_update fun hnobody =>
        Ledger.transferFrom_keeps (by decide) hnobody hmove) token (h token)).2
  | withdrawn sender party answers L hmove =>
      show (Function.update B.tokens B.manager.euroStablecoin L token).ApprovesNobody self
      by_cases e : token = B.manager.euroStablecoin
      · subst e
        rw [Function.update_self]
        intro x
        rw [(Ledger.move_spec hmove).2.1]
        exact h _ x
      · rw [Function.update_of_ne e]
        exact h token
  | stablecoinSet => exact h token
  | quiet _ _ _ _ _ htokens => exact (htokens token (h token)).2

/-- **A step keeps the manager solvent unless it strands the stakes.** -/
theorem solvent_step_iff (hnobody : B.ApprovesNobody self) (hs : B.Solvent self)
    (t : BankTx self) : ((machine self).step B t).Solvent self ↔ ¬ StrandsStakes B t := by
  cases hok : (machine self).exec B t with
  | error e =>
      rw [Machine.step_error hok]
      refine ⟨fun _ hstrands => ?_, fun _ => hs⟩
      obtain ⟨_, r, hr⟩ := hstrands
      rw [hok] at hr
      cases hr
  | ok r =>
      obtain ⟨B', ev⟩ := r
      rw [Machine.step_ok hok]
      cases move_of_exec hok with
      | paid sender party answers L hfree hmove =>
          refine ⟨fun _ ⟨⟨_, _, _, e, _⟩, _⟩ => (by cases e), fun _ => ?_⟩
          have htotal := sum_update B.manager.stakedFunds party B.manager.fundingYearlyAmount
          have hin := Ledger.transferFrom_in hmove sender.outside.symm
          show (∑ p, Function.update B.manager.stakedFunds party _ p) ≤
            (Function.update B.tokens _ L B.manager.euroStablecoin).balance self
          rw [Function.update_self, hin]
          rw [hfree] at htotal
          unfold Solvent totalStaked holds at hs
          omega
      | withdrawn sender party answers L hmove =>
          refine ⟨fun _ ⟨⟨_, _, _, e, _⟩, _⟩ => (by cases e), fun _ => ?_⟩
          have htotal := sum_update B.manager.stakedFunds party 0
          have hout := Ledger.move_out hmove
          show (∑ p, Function.update B.manager.stakedFunds party 0 p) ≤
            (Function.update B.tokens _ L B.manager.euroStablecoin).balance self
          rw [Function.update_self]
          unfold Solvent totalStaked holds at hs
          omega
      | stablecoinSet sender token answers =>
          refine ⟨fun h ⟨⟨_, _, _, e, hlt⟩, _⟩ => ?_, fun h => Nat.le_of_not_lt fun hlt => ?_⟩
          · cases e
            exact Nat.not_le_of_lt hlt h
          · exact h ⟨⟨sender, token, answers, rfl, hlt⟩, _, hok⟩
      | quiet _ _ hcall hfunds hstablecoin htokens =>
          refine ⟨fun _ ⟨⟨sender, token, answers, e, _⟩, _⟩ => hcall sender token answers e,
            fun _ => ?_⟩
          unfold Solvent totalStaked holds at hs ⊢
          rw [hfunds, hstablecoin]
          exact hs.trans (htokens _ (hnobody _)).1

end Bank

/-! ## 4. Withdrawing everything that is due -/

namespace Bank

variable {self : Address} {B : Bank}

/-- The party has a stake whose period has elapsed. -/
def Due (B : Bank) (party : Address) : Prop :=
  B.manager.stakedFunds party ≠ 0 ∧
    B.manager.stakingBlock party + B.manager.stakingPeriodInBlocks ≤ B.block

/-- A withdrawal from the party, asked for by this account. -/
def withdrawTx (answers : PaymentAnswers) (w : Caller self × Address) : BankTx self :=
  .call w.1 (.withdrawToRegistryOperator w.2) answers

/-- Where the token makes the transfers it can make, a due stake of a solvent manager can be
    withdrawn; the other due stakes stay due. -/
theorem withdraw_due {answers : PaymentAnswers}
    (hwilling : ∀ token recipient amount, answers.transfer token recipient amount = .ok true)
    (hs : B.Solvent self) (hoperator : B.manager.operatorAddress ≠ 0) (hblock : B.block < 2 ^ 256)
    (w : Caller self × Address) (hdue : B.Due w.2) :
    ∃ L, (machine self).exec B (withdrawTx answers w) =
      .ok (⟨⟨B.manager.clearStake w.2, B.block⟩,
          Function.update B.tokens B.manager.euroStablecoin L⟩,
        [⟨B.block, B.manager.withdrawRequest w.2⟩,
          ⟨B.block, .log (.stakeWithdrawn w.2 (B.manager.stakedFunds w.2))⟩]) := by
  have hcovered : B.manager.stakedFunds w.2 ≤ (B.tokens B.manager.euroStablecoin).balance self :=
    le_trans (Finset.single_le_sum (fun _ _ => Nat.zero_le _) (Finset.mem_univ w.2)) hs
  obtain ⟨L, hL⟩ := Ledger.exists_move B.manager.operatorAddress hcovered
  refine ⟨L, exec_call.mpr ⟨_, _, PaymentState.exec_call.mpr ⟨_, _,
    .withdrawn w.2 hoperator hdue.1 (hdue.2.trans_lt hblock) hdue.2 (hwilling _ _ _), rfl, rfl⟩,
    settle_request.mpr ⟨L, hL, rfl⟩, rfl⟩⟩

/-- **In any order**: the due stakes of a solvent manager can be withdrawn one after the other. -/
theorem withdraw_all {answers : PaymentAnswers}
    (hwilling : ∀ token recipient amount, answers.transfer token recipient amount = .ok true)
    (ws : List (Caller self × Address)) (hnodup : (ws.map Prod.snd).Nodup)
    (hnobody : B.ApprovesNobody self) (hs : B.Solvent self)
    (hoperator : B.manager.operatorAddress ≠ 0) (hblock : B.block < 2 ^ 256)
    (hdue : ∀ w ∈ ws, B.Due w.2) :
    (machine self).Along (fun B t => (machine self).Accepts B t) B
      (ws.map (withdrawTx answers)) := by
  induction ws generalizing B with
  | nil => trivial
  | cons w ws ih =>
      obtain ⟨L, hok⟩ := withdraw_due hwilling hs hoperator hblock w (hdue w List.mem_cons_self)
      obtain ⟨hfresh, hnodup⟩ := List.nodup_cons.mp hnodup
      have hs' := (solvent_step_iff hnobody hs (withdrawTx answers w)).mpr
        fun ⟨⟨_, _, _, e, _⟩, _⟩ => by cases e
      have hnobody' := approvesNobody_step hnobody (withdrawTx answers w)
      refine ⟨⟨_, hok⟩, ?_⟩
      rw [Machine.step_ok hok] at hs' hnobody' ⊢
      refine ih hnodup hnobody' hs' hoperator hblock fun v hv => ?_
      -- another party's stake is as it was
      have hne : v.2 ≠ w.2 := fun e => hfresh (e ▸ List.mem_map_of_mem hv)
      obtain ⟨hstake, hperiod⟩ := hdue v (List.mem_cons_of_mem _ hv)
      refine ⟨?_, hperiod⟩
      show Function.update B.manager.stakedFunds w.2 0 v.2 ≠ 0
      rwa [Function.update_of_ne hne]

end Bank

/-! ## 5. The runs -/

/-- A payment manager among tokens that exist already; being new, it has approved nobody. -/
structure BankDeployment extends PaymentDeployment where
  tokens : Address → Ledger Address
  fresh : ∀ token, (tokens token).ApprovesNobody self

namespace BankDeployment

def bank (D : BankDeployment) : Bank := ⟨D.start, D.tokens⟩

/-- **The reachable states among exact tokens.** -/
def bankRun (D : BankDeployment) (ts : List (BankTx D.self)) : Bank :=
  (Bank.machine D.self).run D.bank ts

theorem approvesNobody_bankRun (D : BankDeployment) (ts : List (BankTx D.self)) :
    (D.bankRun ts).ApprovesNobody D.self :=
  Machine.run_invariant_all (M := Bank.machine D.self)
    (fun _ t _ _ hI hok => Machine.step_ok hok ▸ Bank.approvesNobody_step hI t) ts D.fresh

/-- No stake is outstanding at the start. -/
theorem solvent_bank (D : BankDeployment) : D.bank.Solvent D.self := by
  have hzero : D.bank.totalStaked = 0 := Finset.sum_eq_zero fun _ _ => rfl
  unfold Bank.Solvent
  rw [hzero]
  exact Nat.zero_le _

end BankDeployment

/-- A step among exact tokens is a step of the manager, or one that leaves it alone. -/
theorem Bank.step_projects {self : Address} (B : Bank) (t : BankTx self) :
    ((machine self).step B t).toPaymentState = B.toPaymentState ∨
      ∃ u, ((machine self).step B t).toPaymentState =
        (PaymentState.machine self).step B.toPaymentState u := by
  rcases Machine.step_cases (machine self) B t with e | ⟨B', ev, hok, e⟩
  · exact Or.inl (congrArg Bank.toPaymentState e)
  rw [e]
  cases t with
  | call sender call answers =>
      obtain ⟨s, tokens, hcall, _, rfl⟩ := exec_call.mp hok
      exact Or.inr ⟨_, (Machine.step_ok hcall).symm⟩
  | token token sender request =>
      have hexec : exec self B (.token token sender request) = .ok (B', ev) := hok
      unfold exec at hexec
      dsimp only at hexec
      split at hexec
      · cases hexec
        exact Or.inl rfl
      · cases hexec
  | mint =>
      cases hok
      exact Or.inl rfl
  | mine blocks =>
      obtain ⟨⟨s, entries⟩, hmine, hr⟩ := bind_eq_ok.mp hok
      have hstep : (PaymentState.machine self).exec B.toPaymentState (.mine blocks) =
          .ok (s, entries) := hmine
      cases hr
      exact Or.inr ⟨_, (Machine.step_ok hstep).symm⟩

/-- **The manager's states among exact tokens are states of its own runs.** -/
theorem BankDeployment.run_of_bankRun (D : BankDeployment) (ts : List (BankTx D.self)) :
    ∃ us, (D.bankRun ts).toPaymentState = D.toPaymentDeployment.run us :=
  Machine.run_projects Bank.toPaymentState Bank.step_projects D.bank ts

namespace Sample

/-- The payer holds and allows a year's amount of the stablecoin; other tokens are empty. -/
def bankDeployment : BankDeployment where
  toPaymentDeployment := paymentDeployment
  tokens := fun token =>
    if token = 0xE0 then
      { balance := fun a => if a = 0x13 then 100 * 10 ^ 18 else 0
        allowance := fun owner _ => if owner = 0x13 then 100 * 10 ^ 18 else 0 }
    else { balance := fun _ => 0, allowance := fun _ _ => 0 }
  fresh := fun token spender => by
    split <;> rfl

/-- A stake is paid, another stablecoin is set, and the period passes. -/
def stranding : List (BankTx bankDeployment.self) :=
  [.call payer (.pay 3) willing, .call treasurer (.setStablecoinAddress 0xE1) willing,
    .mine 2102400]

end Sample

/-- **Stakes stranded**: the manager holds none of the new stablecoin, and a stake whose period has
    elapsed cannot be withdrawn although the token would make every transfer it can. -/
theorem stakes_stranded :
    ¬ (Sample.bankDeployment.bankRun Sample.stranding).Solvent Sample.bankDeployment.self ∧
      (Sample.bankDeployment.bankRun Sample.stranding).Due 3 ∧
      ¬ (Bank.machine Sample.bankDeployment.self).Accepts
        (Sample.bankDeployment.bankRun Sample.stranding)
        (Bank.withdrawTx Sample.willing (Sample.payer, 3)) := by
  refine ⟨fun h => ?_, ⟨by decide +kernel, by decide +kernel⟩, fun ⟨r, hr⟩ => ?_⟩
  · have hstake : (Sample.bankDeployment.bankRun Sample.stranding).manager.stakedFunds 3 ≤
        (Sample.bankDeployment.bankRun Sample.stranding).totalStaked :=
      Finset.single_le_sum (fun _ _ => Nat.zero_le _) (Finset.mem_univ 3)
    have hheld := hstake.trans h
    revert hheld
    decide +kernel
  · have hfails : ((Bank.machine Sample.bankDeployment.self).exec
        (Sample.bankDeployment.bankRun Sample.stranding)
        (Bank.withdrawTx Sample.willing (Sample.payer, 3))).toOption.isNone = true := by
      decide +kernel
    rw [hr] at hfails
    cases hfails

/-- **Solvency**: a run keeps the manager solvent in every state exactly if none of its steps
    strands the stakes. In a solvent state with an operator set, any stakes whose period has elapsed
    can be withdrawn one after the other, in any order and by any accounts, as long as the token
    makes the transfers it can make. -/
theorem solvency (D : BankDeployment) (ts : List (BankTx D.self)) :
    ((Bank.machine D.self).Throughout (Bank.Solvent D.self) D.bank ts ↔
      (Bank.machine D.self).Along (fun B t => ¬ Bank.StrandsStakes B t) D.bank ts) ∧
    ((D.bankRun ts).Solvent D.self → (D.bankRun ts).manager.operatorAddress ≠ 0 →
      ∀ answers : PaymentAnswers,
        (∀ token recipient amount, answers.transfer token recipient amount = .ok true) →
        ∀ ws : List (Caller D.self × Address), (ws.map Prod.snd).Nodup →
          (∀ w ∈ ws, (D.bankRun ts).Due w.2) →
          (Bank.machine D.self).Along (fun B t => (Bank.machine D.self).Accepts B t)
            (D.bankRun ts) (ws.map (Bank.withdrawTx answers))) := by
  refine ⟨?_, fun hs hoperator answers hwilling ws hnodup hdue => ?_⟩
  · exact Machine.throughout_iff_along (M := Bank.machine D.self) (J := Bank.ApprovesNobody D.self)
      (fun _ t hJ => Bank.approvesNobody_step hJ t)
      (fun _ t hJ hI => Bank.solvent_step_iff hJ hI t) ts D.fresh D.solvent_bank
  · obtain ⟨us, hus⟩ := D.run_of_bankRun ts
    have hblock : (D.bankRun ts).block < 2 ^ 256 := by
      rw [hus]
      exact D.block_run us
    exact Bank.withdraw_all hwilling ws hnodup (D.approvesNobody_bankRun ts) hs hoperator hblock
      hdue

namespace Sample

/-- A stake is paid and the period passes. -/
def staking : List (BankTx bankDeployment.self) :=
  [.call payer (.pay 3) willing, .mine 2102400]

end Sample

/-- The stake of a run that strands nothing: it is due, and can be withdrawn. -/
theorem solvency_staking :
    (Bank.machine Sample.bankDeployment.self).Accepts
      (Sample.bankDeployment.bankRun Sample.staking)
      (Bank.withdrawTx Sample.willing (Sample.payer, 3)) := by
  obtain ⟨hsolvent, hwithdraw⟩ := solvency Sample.bankDeployment Sample.staking
  have hend : (Sample.bankDeployment.bankRun Sample.staking).Solvent
      Sample.bankDeployment.self := by
    refine hsolvent.mpr ⟨?_, ?_, trivial⟩ Sample.staking [] (List.append_nil _).symm <;>
      exact fun ⟨⟨_, _, _, e, _⟩, _⟩ => by cases e
  have hdue : (Sample.bankDeployment.bankRun Sample.staking).Due 3 :=
    ⟨by decide +kernel, by decide +kernel⟩
  refine (hwithdraw hend (by decide +kernel) Sample.willing (fun _ _ _ => rfl)
    [(Sample.payer, 3)] (List.nodup_singleton _) fun w hw => ?_).1
  rw [List.mem_singleton.mp hw]
  exact hdue

end Ocn
