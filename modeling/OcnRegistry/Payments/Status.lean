/-
  File:      OcnRegistry/Payments/Status.lean
  Subject:   THE PAYMENT STATUS AND THE HISTORY OF A PARTY: what the two numbers it is read from
             remember.

  `getPaymentStatus` reads a stake and a staking block. They tell the three states of a party apart
  as long as payments are not of amount zero; a payment of nothing is remembered by the block alone
  and reads like a withdrawal ("has no staked funds but has made a payment before").

  * `status_of_writes` -- the status in every state, with call-backs, by the writes that stand;
  * `zero_payment_reads_insufficient` -- a payment of amount zero;
  * `payment_status` -- the status after every run, by the last operation on the party.
-/
import OcnRegistry.Payments.Reentrancy

namespace Ocn

open Transaction

/-! ## 1. Reading the two numbers -/

/-- Of three kinds, each with its own value, the value tells which one it is. -/
theorem value_tells_kind {α : Type} {x a b c : α} {P Q R : Prop} (h : P ∨ Q ∨ R) (hP : P → x = a)
    (hQ : Q → x = b) (hR : R → x = c) (hab : a ≠ b) (hac : a ≠ c) (hbc : b ≠ c) :
    (x = a ↔ P) ∧ (x = b ↔ Q) ∧ (x = c ↔ R) := by
  refine ⟨⟨fun e => ?_, hP⟩, ⟨fun e => ?_, hQ⟩, ⟨fun e => ?_, hR⟩⟩ <;> rcases h with p | q | r
  · exact p
  · exact absurd (e.symm.trans (hQ q)) hab
  · exact absurd (e.symm.trans (hR r)) hac
  · exact absurd ((hP p).symm.trans e) hab
  · exact q
  · exact absurd (e.symm.trans (hR r)) hbc
  · exact absurd ((hP p).symm.trans e) hac
  · exact absurd ((hQ q).symm.trans e) hbc
  · exact r

namespace OcnPaymentManager

variable {st : OcnPaymentManager} {party : Address}

/-- **The status is read from whether there is a stake and whether there is a staking block.** -/
theorem status_tells :
    (st.getPaymentStatus party = .pending ↔
      st.stakedFunds party = 0 ∧ st.stakingBlock party = 0) ∧
    (st.getPaymentStatus party = .paymentUpToDate ↔ st.stakedFunds party ≠ 0) ∧
    (st.getPaymentStatus party = .insufficientFunds ↔
      st.stakedFunds party = 0 ∧ st.stakingBlock party ≠ 0) := by
  unfold getPaymentStatus
  refine value_tells_kind ?_ (fun h => ?_) (fun h => ?_) (fun h => ?_) (by decide) (by decide)
    (by decide)
  · by_cases hstake : st.stakedFunds party = 0
    · by_cases hblock : st.stakingBlock party = 0
      · exact Or.inl ⟨hstake, hblock⟩
      · exact Or.inr (Or.inr ⟨hstake, hblock⟩)
    · exact Or.inr (Or.inl hstake)
  · rw [h.1, h.2]
    rfl
  · rw [if_pos (Nat.pos_of_ne_zero h)]
  · rw [h.1, if_pos (Nat.pos_of_ne_zero h.2)]
    rfl

end OcnPaymentManager

/-! ## 2. With call-backs -/

/-- What is counted in a stake was written as a payment. -/
theorem staked_of_mem_stakedSince {party : Address} {writes : List StakeWrite} {amount : Nat}
    (h : amount ∈ stakedSince party writes) : .staked party amount ∈ writes := by
  induction writes using List.reverseRecOn with
  | nil => cases h
  | append_singleton writes w ih =>
      rw [List.mem_append]
      cases w with
      | staked p n =>
          by_cases hp : p = party
          · subst hp
            rw [stakedSince_staked_self] at h
            rcases List.mem_append.mp h with h | h
            · exact Or.inl (ih h)
            · rw [List.mem_singleton.mp h]
              exact Or.inr List.mem_cons_self
          · rw [stakedSince_staked_ne _ _ hp] at h
            exact Or.inl (ih h)
      | withdrawn p =>
          by_cases hp : p = party
          · subst hp
            rw [stakedSince_withdrawn_self] at h
            cases h
          · rw [stakedSince_withdrawn_ne _ hp] at h
            exact Or.inl (ih h)

namespace CallState.Accounted

variable {s : CallState} {party : Address}

theorem stake_eq_zero (h : s.Accounted) : s.manager.stakedFunds party = 0 ↔
    ∀ amount ∈ stakedSince party s.writes, amount = 0 := by
  rw [h.stake party]
  exact List.sum_eq_zero_iff_forall_eq_nat

/-- A party with a stake has a staking block. -/
theorem begun_of_stake (h : s.Accounted) (hstake : s.manager.stakedFunds party ≠ 0) :
    s.manager.stakingBlock party ≠ 0 := by
  refine fun hblock => hstake (h.stake_eq_zero.mpr fun amount hmem => ?_)
  exact absurd hblock ((h.begun party).mpr ⟨amount, staked_of_mem_stakedSince hmem⟩)

end CallState.Accounted

/-- **The status by the writes that stand**: pending without a payment; up to date if since the
    last withdrawal an amount other than zero was paid; insufficient otherwise. -/
def StatusFollowsWrites (s : CallState) (party : Address) : Prop :=
  (s.manager.getPaymentStatus party = .pending ↔ ∀ amount, .staked party amount ∉ s.writes) ∧
  (s.manager.getPaymentStatus party = .paymentUpToDate ↔
    ∃ amount ∈ stakedSince party s.writes, amount ≠ 0) ∧
  (s.manager.getPaymentStatus party = .insufficientFunds ↔
    (∃ amount, .staked party amount ∈ s.writes) ∧
      ∀ amount ∈ stakedSince party s.writes, amount = 0)

theorem status_of_writes {s : CallState} (h : s.Accounted) (party : Address) :
    StatusFollowsWrites s party := by
  unfold StatusFollowsWrites
  rw [OcnPaymentManager.status_tells.1, OcnPaymentManager.status_tells.2.1,
    OcnPaymentManager.status_tells.2.2, ← h.begun party, ← h.stake_eq_zero]
  refine ⟨⟨fun hp => ?_, fun hnone => ?_⟩, ?_, and_comm⟩
  · intro amount hmem
    exact (h.begun party).mpr ⟨amount, hmem⟩ hp.2
  · have hblock : s.manager.stakingBlock party = 0 := by
      refine Classical.byContradiction fun hne => ?_
      obtain ⟨amount, hmem⟩ := (h.begun party).mp hne
      exact hnone amount hmem
    exact ⟨Classical.byContradiction fun hne => h.begun_of_stake hne hblock, hblock⟩
  · rw [ne_eq, h.stake_eq_zero]
    refine ⟨fun hn => ?_, fun hr hall => ?_⟩
    · obtain ⟨amount, hamount⟩ := not_forall.mp hn
      obtain ⟨hmem, ha⟩ := Classical.not_imp.mp hamount
      exact ⟨amount, hmem, ha⟩
    · obtain ⟨amount, hmem, ha⟩ := hr
      exact ha (hall amount hmem)

/-! ## 3. The operations on a party -/

namespace PaymentState

variable {self : Address} {s : PaymentState} {t : PaymentTx self} {party : Address}

/-- The step is a successful `pay` for the party. -/
def PaysFor (party : Address) (s : PaymentState) (t : PaymentTx self) : Prop :=
  (∃ sender answers, t = .call sender (.pay party) answers) ∧ (machine self).Accepts s t

/-- The step is a successful `withdrawToRegistryOperator` of the party's stake. -/
def WithdrawsFrom (party : Address) (s : PaymentState) (t : PaymentTx self) : Prop :=
  (∃ sender answers, t = .call sender (.withdrawToRegistryOperator party) answers) ∧
    (machine self).Accepts s t

/-- A successful operation on the party's stake. -/
def OperatesOn (party : Address) (s : PaymentState) (t : PaymentTx self) : Prop :=
  PaysFor party s t ∨ WithdrawsFrom party s t

theorem step_paysFor (h : PaysFor party s t) :
    ((machine self).step s t).manager.stakedFunds party = s.manager.fundingYearlyAmount ∧
      ((machine self).step s t).manager.stakingBlock party = s.block := by
  obtain ⟨⟨sender, answers, rfl⟩, ⟨s', ev⟩, hok⟩ := h
  rw [Machine.step_ok hok]
  obtain ⟨manager, effects, hc, rfl, _⟩ := exec_call.mp hok
  cases hc with
  | paid => exact ⟨Function.update_self _ _ _, Function.update_self _ _ _⟩
  | membersSet _ _ _ hcall => cases hcall

theorem step_withdrawsFrom (h : WithdrawsFrom party s t) :
    s.manager.stakedFunds party ≠ 0 ∧
      ((machine self).step s t).manager.stakedFunds party = 0 ∧
      ((machine self).step s t).manager.stakingBlock party = s.manager.stakingBlock party := by
  obtain ⟨⟨sender, answers, rfl⟩, ⟨s', ev⟩, hok⟩ := h
  rw [Machine.step_ok hok]
  obtain ⟨manager, effects, hc, rfl, _⟩ := exec_call.mp hok
  cases hc with
  | withdrawn _ _ hstake => exact ⟨hstake, Function.update_self _ _ _, rfl⟩
  | membersSet _ _ _ hcall => cases hcall

theorem step_not_operatesOn (h : ¬ OperatesOn party s t) :
    ((machine self).step s t).manager.stakedFunds party = s.manager.stakedFunds party ∧
      ((machine self).step s t).manager.stakingBlock party = s.manager.stakingBlock party := by
  rcases Machine.step_cases (machine self) s t with e | ⟨s', ev, hok, e⟩
  · rw [e]
    exact ⟨rfl, rfl⟩
  rw [e]
  cases move_of_exec hok with
  | paid sender p answers =>
      have hne : party ≠ p := fun e => h (Or.inl ⟨⟨sender, answers, by rw [e]⟩, _, hok⟩)
      exact ⟨Function.update_of_ne hne _ _, Function.update_of_ne hne _ _⟩
  | withdrawn sender p answers =>
      have hne : party ≠ p := fun e => h (Or.inr ⟨⟨sender, answers, by rw [e]⟩, _, hok⟩)
      exact ⟨Function.update_of_ne hne _ _, rfl⟩
  | quiet _ _ _ hfunds hstart => exact ⟨by rw [hfunds], by rw [hstart]⟩

/-- Stake and staking block stay as they are until the next operation on the party. -/
theorem run_not_operatesOn {ts : List (PaymentTx self)}
    (h : (machine self).Along (fun s t => ¬ OperatesOn party s t) s ts) :
    ((machine self).run s ts).manager.stakedFunds party = s.manager.stakedFunds party ∧
      ((machine self).run s ts).manager.stakingBlock party = s.manager.stakingBlock party := by
  induction ts generalizing s with
  | nil => exact ⟨rfl, rfl⟩
  | cons t ts ih =>
      obtain ⟨hfunds, hstart⟩ := step_not_operatesOn h.1
      obtain ⟨hfunds', hstart'⟩ := ih h.2
      exact ⟨hfunds'.trans hfunds, hstart'.trans hstart⟩

/-- Without a payment for the party there is no stake, and so no withdrawal either. -/
theorem not_operatesOn_of_never_paid {ts : List (PaymentTx self)}
    (h0 : s.manager.stakedFunds party = 0)
    (h : (machine self).Along (fun s t => ¬ PaysFor party s t) s ts) :
    (machine self).Along (fun s t => ¬ OperatesOn party s t) s ts := by
  induction ts generalizing s with
  | nil => trivial
  | cons t ts ih =>
      have ht : ¬ OperatesOn party s t := fun hop =>
        hop.elim h.1 fun hw => (step_withdrawsFrom hw).1 h0
      exact ⟨ht, ih ((step_not_operatesOn ht).1.trans h0) h.2⟩

end PaymentState

/-! ## 4. The status after a run -/

open PaymentState in
/-- **The last successful operation on the party** is one of kind `W`. -/
def LastOperation (D : PaymentDeployment) (ts : List (PaymentTx D.self)) (party : Address)
    (W : PaymentState → PaymentTx D.self → Prop) : Prop :=
  ∃ pre t post, ts = pre ++ t :: post ∧ OperatesOn party (D.run pre) t ∧ W (D.run pre) t ∧
    (machine D.self).Along (fun s t => ¬ OperatesOn party s t) (D.run (pre ++ [t])) post

namespace PaymentDeployment

variable (D : PaymentDeployment) (ts : List (PaymentTx D.self)) (party : Address)

/-- What the writes account for with call-backs, they account for without. -/
theorem exists_accounted : ∃ writes, CallState.Accounted ⟨D.run ts, writes⟩ := by
  obtain ⟨us, writes, hrun, _⟩ := NestedState.atomic_run D ts
  have hsound := NestedState.sound_run D us
  rw [hrun] at hsound
  exact ⟨writes, hsound⟩

variable {D ts party}

theorem pending_of_never_paid
    (h : (PaymentState.machine D.self).Along (fun s t => ¬ PaymentState.PaysFor party s t)
      D.start ts) : (D.run ts).manager.getPaymentStatus party = .pending := by
  obtain ⟨hfunds, hstart⟩ := PaymentState.run_not_operatesOn
    (PaymentState.not_operatesOn_of_never_paid (s := D.start) rfl h)
  exact OcnPaymentManager.status_tells.1.mpr ⟨hfunds, hstart⟩

/-- After an operation on the party the two numbers are what it left. -/
theorem numbers_of_last {pre post : List (PaymentTx D.self)} {t : PaymentTx D.self}
    (hpost : (PaymentState.machine D.self).Along
      (fun s t => ¬ PaymentState.OperatesOn party s t) (D.run (pre ++ [t])) post) :
    (D.run (pre ++ t :: post)).manager.stakedFunds party =
        ((PaymentState.machine D.self).step (D.run pre) t).manager.stakedFunds party ∧
      (D.run (pre ++ t :: post)).manager.stakingBlock party =
        ((PaymentState.machine D.self).step (D.run pre) t).manager.stakingBlock party := by
  rw [D.run_split, ← D.run_concat]
  exact PaymentState.run_not_operatesOn hpost

theorem upToDate_of_last (h : LastOperation D ts party fun s t =>
      PaymentState.PaysFor party s t ∧ s.manager.fundingYearlyAmount ≠ 0) :
    (D.run ts).manager.getPaymentStatus party = .paymentUpToDate := by
  obtain ⟨pre, t, post, rfl, _, ⟨hpay, hne⟩, hpost⟩ := h
  rw [OcnPaymentManager.status_tells.2.1, (numbers_of_last hpost).1,
    (PaymentState.step_paysFor hpay).1]
  exact hne

theorem insufficient_of_last (h : LastOperation D ts party fun s t =>
      PaymentState.WithdrawsFrom party s t ∨
        PaymentState.PaysFor party s t ∧ s.manager.fundingYearlyAmount = 0) :
    (D.run ts).manager.getPaymentStatus party = .insufficientFunds := by
  obtain ⟨pre, t, post, rfl, _, hW, hpost⟩ := h
  obtain ⟨hfunds, hstart⟩ := numbers_of_last hpost
  obtain ⟨writes, hacc⟩ := exists_accounted D pre
  rw [OcnPaymentManager.status_tells.2.2, hfunds, hstart]
  rcases hW with hwithdraw | ⟨hpay, hzero⟩
  · obtain ⟨hstake, hfunds', hstart'⟩ := PaymentState.step_withdrawsFrom hwithdraw
    rw [hfunds', hstart']
    exact ⟨rfl, hacc.begun_of_stake hstake⟩
  · obtain ⟨hfunds', hstart'⟩ := PaymentState.step_paysFor hpay
    rw [hfunds', hstart']
    exact ⟨hzero, Nat.ne_of_gt hacc.blockPos⟩

/-- Every run is of one of the three kinds. -/
theorem last_operation_cases (D : PaymentDeployment) (ts : List (PaymentTx D.self))
    (party : Address) :
    (PaymentState.machine D.self).Along (fun s t => ¬ PaymentState.PaysFor party s t) D.start ts ∨
      LastOperation D ts party (fun s t =>
        PaymentState.PaysFor party s t ∧ s.manager.fundingYearlyAmount ≠ 0) ∨
      LastOperation D ts party (fun s t => PaymentState.WithdrawsFrom party s t ∨
        PaymentState.PaysFor party s t ∧ s.manager.fundingYearlyAmount = 0) := by
  by_cases hnone : (PaymentState.machine D.self).Along
      (fun s t => ¬ PaymentState.OperatesOn party s t) D.start ts
  · exact Or.inl (Machine.along_mono (M := PaymentState.machine D.self)
      (fun _ _ h hp => h (Or.inl hp)) hnone)
  obtain ⟨pre, t, post, e, hop, hlast⟩ := Machine.exists_last hnone
  have hpost : (PaymentState.machine D.self).Along
      (fun s t => ¬ PaymentState.OperatesOn party s t) (D.run (pre ++ [t])) post := by
    rw [D.run_concat]
    exact hlast
  rcases hop with hpay | hwithdraw
  · by_cases hzero : (D.run pre).manager.fundingYearlyAmount = 0
    · exact Or.inr (Or.inr ⟨pre, t, post, e, Or.inl hpay, Or.inr ⟨hpay, hzero⟩, hpost⟩)
    · exact Or.inr (Or.inl ⟨pre, t, post, e, Or.inl hpay, ⟨hpay, hzero⟩, hpost⟩)
  · exact Or.inr (Or.inr ⟨pre, t, post, e, Or.inr hwithdraw, Or.inl hwithdraw, hpost⟩)

end PaymentDeployment

/-- **The status by the last operation alone**: pending without a payment, up to date after a
    payment, insufficient after a withdrawal. -/
def StatusFollowsOperations (D : PaymentDeployment) (ts : List (PaymentTx D.self))
    (party : Address) : Prop :=
  ((D.run ts).manager.getPaymentStatus party = .pending ↔
    (PaymentState.machine D.self).Along (fun s t => ¬ PaymentState.PaysFor party s t)
      D.start ts) ∧
  ((D.run ts).manager.getPaymentStatus party = .paymentUpToDate ↔
    LastOperation D ts party (PaymentState.PaysFor party)) ∧
  ((D.run ts).manager.getPaymentStatus party = .insufficientFunds ↔
    LastOperation D ts party (PaymentState.WithdrawsFrom party))

namespace Sample

/-- The yearly amount is set to zero, and somebody pays it for the party. -/
def zeroPayment : List (PaymentTx paymentDeployment.self) :=
  [payTx treasurer (.setFundingYearlyAmount 0), payTx payer (.pay 3)]

end Sample

/-- **A payment of amount zero**: it succeeds, it is the last operation on the party, and the
    status is that of a withdrawn stake. -/
theorem zero_payment_reads_insufficient :
    (Sample.paymentDeployment.run Sample.zeroPayment).manager.getPaymentStatus 3 =
        .insufficientFunds ∧
      LastOperation Sample.paymentDeployment Sample.zeroPayment 3 (PaymentState.PaysFor 3) ∧
      ¬ StatusFollowsOperations Sample.paymentDeployment Sample.zeroPayment 3 := by
  have hstatus : (Sample.paymentDeployment.run Sample.zeroPayment).manager.getPaymentStatus 3 =
      .insufficientFunds := by decide +kernel
  have hpays : PaymentState.PaysFor 3
      (Sample.paymentDeployment.run [Sample.payTx Sample.treasurer (.setFundingYearlyAmount 0)])
      (Sample.payTx Sample.payer (.pay 3)) := ⟨⟨Sample.payer, Sample.willing, rfl⟩, _, rfl⟩
  have hlast : LastOperation Sample.paymentDeployment Sample.zeroPayment 3
      (PaymentState.PaysFor 3) := ⟨_, _, [], rfl, Or.inl hpays, hpays, trivial⟩
  refine ⟨hstatus, hlast, fun h => ?_⟩
  have hup := h.2.1.mpr hlast
  rw [hstatus] at hup
  cases hup

/-- **The payment status**: after every run it is pending exactly if no payment for the party has
    succeeded, up to date exactly if the last successful operation on the party is a payment of a
    non-zero amount, and insufficient exactly if it is a withdrawal or a payment of nothing. With
    call-backs, it is read off the writes to the stake that stand. -/
theorem payment_status (D : PaymentDeployment) (party : Address) :
    (∀ ts : List (PaymentTx D.self),
      ((D.run ts).manager.getPaymentStatus party = .pending ↔
        (PaymentState.machine D.self).Along (fun s t => ¬ PaymentState.PaysFor party s t)
          D.start ts) ∧
      ((D.run ts).manager.getPaymentStatus party = .paymentUpToDate ↔
        LastOperation D ts party (fun s t =>
          PaymentState.PaysFor party s t ∧ s.manager.fundingYearlyAmount ≠ 0)) ∧
      ((D.run ts).manager.getPaymentStatus party = .insufficientFunds ↔
        LastOperation D ts party (fun s t => PaymentState.WithdrawsFrom party s t ∨
          PaymentState.PaysFor party s t ∧ s.manager.fundingYearlyAmount = 0))) ∧
    ∀ us : List (NestedStep D.self), StatusFollowsWrites (D.nestedRun us).now party := by
  refine ⟨fun ts => ?_, fun us => ?_⟩
  · exact value_tells_kind (PaymentDeployment.last_operation_cases D ts party)
      PaymentDeployment.pending_of_never_paid PaymentDeployment.upToDate_of_last
      PaymentDeployment.insufficient_of_last (by decide) (by decide) (by decide)
  · have hsound : (D.nestedRun us).Sound := NestedState.sound_run D us
    exact status_of_writes (Nesting.Sound.holds hsound) party

end Ocn
