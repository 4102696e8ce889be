/-
  File:      OcnRegistry/Network.lean
  Subject:   THE REGISTRY TOGETHER WITH ITS PAYMENT MANAGER, and the two views of a party.

  `setParty` copies the payment status into the party's record; `getPartyDetailsByAddress` reads
  that copy, `getPartyDetailsByOcpi` asks the manager. A step is a transaction of the registry or
  one of the manager, in any order; what the registry hears from its manager is what the manager's
  storage says. Calls run from their first to their last statement.

  * `status_copy_goes_stale` -- a party registers, a payment is made for it, the views differ;
  * `views_agree_iff` -- the views agree in every state of a run exactly when no step of it changes
    the payment status of a registered party or takes the key of a registered zero address.
-/
import OcnRegistry.Payments.Status
import OcnRegistry.Registry.Lookup

namespace Ocn

open Transaction

/-! ## 1. The network -/

/-- What the registry hears when its payment manager is the one at `contract`. -/
def PaymentState.answers (s : PaymentState) (contract : Address) (outside : External) :
    External :=
  { outside with
    getPaymentStatus := fun asked party =>
      if asked = contract then .ok (s.manager.getPaymentStatus party)
      else outside.getPaymentStatus asked party
    getPaymentBlock := fun asked party =>
      if asked = contract then .ok (s.manager.getPaymentBlock s.block party)
      else outside.getPaymentBlock asked party }

theorem PaymentState.answers_getPaymentStatus {s : PaymentState} {contract party : Address}
    {outside : External} : (s.answers contract outside).getPaymentStatus contract party =
      .ok (s.manager.getPaymentStatus party) := if_pos rfl

theorem PaymentState.answers_getPaymentBlock {s : PaymentState} {contract party : Address}
    {outside : External} : (s.answers contract outside).getPaymentBlock contract party =
      .ok (s.manager.getPaymentBlock s.block party) := if_pos rfl

structure Network where
  registry : OcnRegistry
  payments : PaymentState

/-- A transaction of the registry, with what the other contracts answer, or a step of the
    manager. -/
inductive NetworkTx (self : Address) where
  | registry (t : Tx)
  | payments (t : PaymentTx self)

inductive NetworkEvent where
  | registry (ev : Event)
  | payments (entry : PaymentEntry)
  deriving DecidableEq, Repr

namespace Network

variable {X : Crypto} {self : Address}

/-- The transaction the registry sees. -/
def registryTx (self : Address) (n : Network) (t : Tx) : Tx :=
  { t with answers := n.payments.answers self t.answers }

def exec (X : Crypto) (self : Address) (n : Network) :
    NetworkTx self → Except Revert (Outcome Network NetworkEvent)
  | .registry t => do
      let (registry, ev) ← OcnRegistry.exec X n.registry (n.registryTx self t)
      .ok ({ n with registry := registry }, ev.map .registry)
  | .payments t => do
      let (payments, ev) ← PaymentState.exec self n.payments t
      .ok ({ n with payments := payments }, ev.map .payments)

def machine (X : Crypto) (self : Address) : Machine Network (NetworkTx self) Revert NetworkEvent :=
  ⟨exec X self⟩

theorem step_registry (n : Network) (t : Tx) : (machine X self).step n (.registry t) =
    { n with registry := (OcnRegistry.machine X).step n.registry (n.registryTx self t) } :=
  Machine.step_of_part (M := machine X self) (N := OcnRegistry.machine X)
    (fun registry => { n with registry := registry }) (List.map .registry) rfl rfl

theorem step_payments (n : Network) (t : PaymentTx self) : (machine X self).step n (.payments t) =
    { n with payments := (PaymentState.machine self).step n.payments t } :=
  Machine.step_of_part (M := machine X self) (N := PaymentState.machine self)
    (fun payments => { n with payments := payments }) (List.map .payments) rfl rfl

end Network

/-- The payment manager, deployed first, and the registry that was given its address. -/
structure NetworkDeployment where
  payments : PaymentDeployment
  deployer : Account
  partyRegistrationValidator : Address

namespace NetworkDeployment

def registry (D : NetworkDeployment) : Deployment :=
  ⟨D.deployer, D.payments.self, D.partyRegistrationValidator⟩

def start (D : NetworkDeployment) : Network := ⟨D.registry.start, D.payments.start⟩

/-- **The reachable joint states.** -/
def run (D : NetworkDeployment) (X : Crypto) (ts : List (NetworkTx D.payments.self)) : Network :=
  (Network.machine X D.payments.self).run D.start ts

end NetworkDeployment

/-! ## 2. The view by key -/

namespace OcnRegistry

variable {X : Crypto} {st : OcnRegistry} {t : Tx} {s : PaymentState} {outside : External}

/-- **The view by key** is the view of the address the key answers with, with the live status. -/
theorem getPartyDetailsByOcpi_eq (countryCode : Bytes2) (partyId : Bytes3) :
    st.getPartyDetailsByOcpi (s.answers st.paymentManager outside) countryCode partyId =
      .ok ({ st.getPartyDetailsByAddress (st.uniqueParties countryCode partyId) with
              paymentStatus := s.manager.getPaymentStatus (st.uniqueParties countryCode partyId) },
        s.manager.stakingBlock (st.uniqueParties countryCode partyId)) := by
  unfold getPartyDetailsByOcpi
  dsimp only
  rw [PaymentState.answers_getPaymentStatus, PaymentState.answers_getPaymentBlock]
  rfl

/-- Nothing sets the payment manager after the constructor. -/
theorem paymentManager_step : ((machine X).step st t).paymentManager = st.paymentManager := by
  rcases Machine.step_cases (machine X) st t with e | ⟨st', ev, hok, e⟩
  · rw [e]
  rw [e]
  cases change_of_exec hok with
  | nodeSet | nodeDeleted | partySet | partyDeleted | membersSet | validatorSet => rfl

/-- A key is shown, and asked for, as it is. -/
def plainAsking : Asking where
  shown := fun _ => True
  askable := fun _ => True
  asked := id
  shown_asked := fun _ _ _ => trivial
  asked_asked := fun _ _ _ => rfl

/-- The transaction takes the key of the zero address, which is registered, for another owner. -/
def TakesZeroKey (st : OcnRegistry) (t : Tx) : Prop :=
  ∃ owner countryCode partyId operator, SetsParty st t owner countryCode partyId operator ∧
    owner ≠ 0 ∧ st.Registered 0 ∧ st.keyOf 0 = (countryCode, partyId)

theorem losesParty_plain : LosesParty plainAsking st t ↔ TakesZeroKey st t := by
  refine ⟨fun h => ?_, fun h => ?_⟩
  · obtain ⟨owner, countryCode, partyId, operator, hset, ⟨_, hno⟩ | ⟨hne, hr, _, hk⟩⟩ := h
    · exact absurd ⟨trivial, Or.inl rfl⟩ hno
    · exact ⟨owner, countryCode, partyId, operator, hset, hne, hr, hk⟩
  · obtain ⟨owner, countryCode, partyId, operator, hset, hne, hr, hk⟩ := h
    exact ⟨owner, countryCode, partyId, operator, hset, Or.inr ⟨hne, hr, trivial, hk⟩⟩

end OcnRegistry

/-! ## 3. The status changes -/

namespace PaymentState

variable {self : Address} {s : PaymentState} {t : PaymentTx self} {party : Address}

/-- The step changes the payment status of the party: a withdrawal does, and a payment does unless
    it is a payment of nothing after an earlier one. -/
def ChangesStatus (party : Address) (s : PaymentState) (t : PaymentTx self) : Prop :=
  WithdrawsFrom party s t ∨
    PaysFor party s t ∧ (s.manager.fundingYearlyAmount ≠ 0 ∨ s.manager.stakingBlock party = 0)

/-- A payment finds no stake. -/
theorem free_of_paysFor (h : PaysFor party s t) : s.manager.stakedFunds party = 0 := by
  obtain ⟨⟨sender, answers, rfl⟩, ⟨s', ev⟩, hok⟩ := h
  obtain ⟨manager, effects, hc, _, _⟩ := exec_call.mp hok
  cases hc with
  | paid _ hfree => exact hfree
  | membersSet _ _ _ hcall => cases hcall

theorem status_step_iff (hblock : 0 < s.block) :
    ((machine self).step s t).manager.getPaymentStatus party = s.manager.getPaymentStatus party ↔
      ¬ ChangesStatus party s t := by
  by_cases hwithdraw : WithdrawsFrom party s t
  · obtain ⟨hstake, hnone, _⟩ := step_withdrawsFrom hwithdraw
    refine iff_of_false (fun e => ?_) fun hn => hn (Or.inl hwithdraw)
    rw [OcnPaymentManager.status_tells.2.1.mpr hstake] at e
    exact OcnPaymentManager.status_tells.2.1.mp e hnone
  by_cases hpay : PaysFor party s t
  · obtain ⟨hfunds, hstart⟩ := step_paysFor hpay
    have hfree := free_of_paysFor hpay
    have hchanges : ChangesStatus party s t ↔
        (s.manager.fundingYearlyAmount ≠ 0 ∨ s.manager.stakingBlock party = 0) :=
      ⟨fun h => h.elim (fun hw => absurd hw hwithdraw) fun hp => hp.2,
        fun h => Or.inr ⟨hpay, h⟩⟩
    rw [hchanges]
    unfold OcnPaymentManager.getPaymentStatus
    rw [hfunds, hstart, hfree, if_neg (Nat.lt_irrefl 0), if_pos hblock]
    by_cases hzero : s.manager.fundingYearlyAmount = 0 <;>
      by_cases hbegun : s.manager.stakingBlock party = 0 <;>
      simp [hzero, hbegun, Nat.pos_of_ne_zero]
  · have hother : ¬ OperatesOn party s t := fun hop => hop.elim hpay hwithdraw
    obtain ⟨hfunds, hstart⟩ := step_not_operatesOn hother
    refine iff_of_true ?_ fun h => h.elim hwithdraw fun hp => hpay hp.1
    unfold OcnPaymentManager.getPaymentStatus
    rw [hfunds, hstart]

/-- Blocks pass and do not come back. -/
theorem block_le_step : s.block ≤ ((machine self).step s t).block := by
  rcases Machine.step_cases (machine self) s t with e | ⟨s', ev, hok, e⟩
  · rw [e]
  rw [e]
  cases move_of_exec hok with
  | paid => exact Nat.le_refl _
  | withdrawn => exact Nat.le_refl _
  | quiet _ _ _ _ _ _ hle => exact hle

end PaymentState

/-! ## 4. The two views -/

/-- **The views agree**: for every registered party, the view by its key returns the values of the
    view by its address. -/
def ViewsAgree (self : Address) (n : Network) : Prop :=
  ∀ a outside, n.registry.Registered a → ∃ stakingBlock,
    n.registry.getPartyDetailsByOcpi (n.payments.answers self outside)
        (n.registry.partyOf a).countryCode (n.registry.partyOf a).partyId =
      .ok (n.registry.getPartyDetailsByAddress a, stakingBlock)

namespace Network

open OcnRegistry

/-- The stored status of every registered party is the live one. -/
def StatusCurrent (n : Network) : Prop :=
  ∀ a, n.registry.Registered a →
    (n.registry.partyOf a).paymentStatus = n.payments.manager.getPaymentStatus a

/-- What holds in every reachable joint state. -/
structure Linked (contract : Address) (n : Network) : Prop where
  array : n.registry.ArraySound
  manager : n.registry.paymentManager = contract
  begun : 0 < n.payments.block

variable {X : Crypto} {self : Address} {n : Network}

theorem linked_step (h : Linked self n) (t : NetworkTx self) :
    Linked self ((machine X self).step n t) := by
  cases t with
  | registry t =>
      rw [step_registry]
      exact ⟨arraySound_step h.array, paymentManager_step.trans h.manager, h.begun⟩
  | payments t =>
      rw [step_payments]
      exact ⟨h.array, h.manager, Nat.lt_of_lt_of_le h.begun PaymentState.block_le_step⟩

/-- **In one state**: the views agree exactly when every party's key answers with it and its stored
    status is the live one. -/
theorem viewsAgree_iff (h : n.registry.paymentManager = self) :
    ViewsAgree self n ↔ PartiesFound plainAsking n.registry ∧ StatusCurrent n := by
  subst h
  refine ⟨fun hagree => ?_, fun hboth a outside ha => ?_⟩
  · have hviews : ∀ a, n.registry.Registered a →
        n.registry.uniqueParties (n.registry.partyOf a).countryCode
            (n.registry.partyOf a).partyId = a ∧
          n.payments.manager.getPaymentStatus a = (n.registry.partyOf a).paymentStatus := by
      intro a ha
      obtain ⟨stakingBlock, hview⟩ := hagree a ⟨fun _ _ => .error (.external []),
        fun _ _ => .error (.external []), fun _ _ => .error (.external [])⟩ ha
      rw [getPartyDetailsByOcpi_eq] at hview
      have hsame := congrArg Prod.fst (Except.ok.inj hview)
      have hfound := congrArg PartyView.partyAddress hsame
      have hstatus := congrArg PartyView.paymentStatus hsame
      dsimp only [getPartyDetailsByAddress] at hfound hstatus
      rw [hfound] at hstatus
      exact ⟨hfound, hstatus⟩
    exact ⟨fun a ha _ => ⟨trivial, (hviews a ha).1⟩, fun a ha => (hviews a ha).2.symm⟩
  · obtain ⟨hfound, hstatus⟩ := hboth
    have hkey : n.registry.uniqueParties (n.registry.partyOf a).countryCode
        (n.registry.partyOf a).partyId = a := (hfound a ha trivial).2
    refine ⟨n.payments.manager.stakingBlock a, ?_⟩
    rw [getPartyDetailsByOcpi_eq, hkey, ← hstatus a ha]
    rfl

/-- A transaction of the registry stores the live status. -/
theorem statusCurrent_step_registry (h : Linked self n) (hcurrent : StatusCurrent n) (t : Tx) :
    StatusCurrent ((machine X self).step n (.registry t)) := by
  rw [step_registry]
  refine (records_step_iff (t := n.registryTx self t)
    (P := fun a details => details.paymentStatus = n.payments.manager.getPaymentStatus a) h.array
    hcurrent).mpr fun owner details hstores => ?_
  obtain ⟨_, _, _, _, _, _, _, status, _, hadmits, rfl⟩ := hstores
  have hasked : (n.payments.answers self t.answers).getPaymentStatus n.registry.paymentManager
      owner = .ok status := hadmits.payment
  rw [h.manager, PaymentState.answers_getPaymentStatus] at hasked
  exact (Except.ok.inj hasked).symm

/-- The step makes the views differ: it changes the payment status of a registered party, or takes
    the key of the zero address, which is registered. -/
def SplitsViews (n : Network) : NetworkTx self → Prop
  | .registry t => TakesZeroKey n.registry (n.registryTx self t)
  | .payments t => ∃ a, n.registry.Registered a ∧ PaymentState.ChangesStatus a n.payments t

/-- **One step.** -/
theorem viewsAgree_step_iff (h : Linked self n) (hagree : ViewsAgree self n) (t : NetworkTx self) :
    ViewsAgree self ((machine X self).step n t) ↔ ¬ SplitsViews n t := by
  obtain ⟨hfound, hcurrent⟩ := (viewsAgree_iff h.manager).mp hagree
  rw [viewsAgree_iff (linked_step h t).manager]
  cases t with
  | registry t =>
      have hkept := statusCurrent_step_registry (X := X) h hcurrent t
      rw [step_registry] at hkept ⊢
      refine (and_iff_left hkept).trans ((found_step_iff h.array hfound).trans (not_congr ?_))
      exact losesParty_plain
  | payments t =>
      rw [step_payments]
      refine (and_iff_right hfound).trans ?_
      refine ⟨fun hkept hchange => ?_, fun hnone a ha => ?_⟩
      · obtain ⟨a, ha, hchange⟩ := hchange
        refine (PaymentState.status_step_iff h.begun).mp ?_ hchange
        exact (hkept a ha).symm.trans (hcurrent a ha)
      · have hsame := (PaymentState.status_step_iff (t := t) h.begun).mpr
          fun hchange => hnone ⟨a, ha, hchange⟩
        exact (hcurrent a ha).trans hsame.symm

end Network

namespace Sample

/-- The payment manager of the other runs, and the registry that asks it. -/
def network : NetworkDeployment := ⟨paymentDeployment, admin, 0x60⟩

/-- A party is registered, and somebody pays for it. -/
def paidParty : List (NetworkTx network.payments.self) :=
  [.registry (tx operator (.setNode domain)),
    .registry (tx party (register party 0x4445 0x4D5350)), .payments (payTx payer (.pay 3))]

end Sample

/-- **The copy goes stale**: after a payment for a registered party, the view by its address still
    says that none was made, and the view by its key says that it is up to date. -/
theorem status_copy_goes_stale :
    let n := Sample.network.run (Sample.crypto []) Sample.paidParty
    (n.registry.getPartyDetailsByAddress Sample.party.address).paymentStatus = .pending ∧
      n.payments.manager.getPaymentStatus Sample.party.address = .paymentUpToDate ∧
      ¬ ViewsAgree Sample.network.payments.self n := by
  intro n
  have hstored : (n.registry.getPartyDetailsByAddress Sample.party.address).paymentStatus =
      .pending := by decide +kernel
  have hlive : n.payments.manager.getPaymentStatus Sample.party.address = .paymentUpToDate := by
    decide +kernel
  have hmanager : n.registry.paymentManager = Sample.network.payments.self := rfl
  refine ⟨hstored, hlive, fun h => ?_⟩
  have hcurrent := ((Network.viewsAgree_iff hmanager).mp h).2 Sample.party.address
    (by decide +kernel)
  rw [hlive] at hcurrent
  exact absurd (hstored.symm.trans hcurrent) (by decide)

/-- **When the two views agree**: in every joint state of a run they return the same values for
    every registered party, exactly when no step of the run is a withdrawal of a registered party's
    stake, a payment for one that changes its status, or a registration that takes the key of the
    zero address while that is registered. -/
theorem views_agree_iff (X : Crypto) (D : NetworkDeployment)
    (ts : List (NetworkTx D.payments.self)) :
    (Network.machine X D.payments.self).Throughout (ViewsAgree D.payments.self) D.start ts ↔
      (Network.machine X D.payments.self).Along (fun n t => ¬ n.SplitsViews t) D.start ts := by
  have hstart : Network.Linked D.payments.self D.start :=
    ⟨OcnRegistry.arraySound_start D.registry, rfl, D.payments.blockPos⟩
  refine Machine.throughout_iff_along (M := Network.machine X D.payments.self)
    (J := Network.Linked D.payments.self) (fun _ t h => Network.linked_step h t)
    (fun _ t h hagree => Network.viewsAgree_step_iff h hagree t) ts hstart ?_
  intro a outside ha
  exact absurd ha (OcnRegistry.not_registered_start D.registry a)

end Ocn
