/-
  File:      OcnRegistry/Registry/Replay.lean
  Subject:   THE EVENTS TELL THE STORAGE: what somebody knows who sees the registry's events only.

  An observer keeps, without flags and indices, what the events announce: `OperatorUpdate` a domain,
  or with an empty one that there is none; `PartyUpdate` a whole record; `PartyDelete` that it is
  gone. `observe` is one event, and reads nothing of the contract.

  Two things are not in an event and have to be known from earlier ones: which domain a deleted node
  gives back, and whether a party that is updated has a place in `parties` already. Who holds which
  role is announced by the events of `AccessControl`, which are not among these.

  * `observed_step` -- a transaction's events take the observer from the storage before it to the
    storage after it;
  * `events_tell_storage` -- so the events of a run tell the storage it ends with, and runs with the
    same events answer every lookup alike.
-/
import OcnRegistry.Client.Nodes
import OcnRegistry.Registry.Queries

namespace Ocn

open Transaction

/-! ## 1. The observer -/

/-- What `PartyUpdate` announces of a party. -/
structure Announced where
  countryCode : Bytes2
  partyId : Bytes3
  roles : List Role
  name : Bytes
  url : Bytes
  paymentStatus : PaymentStatus
  cvStatus : CvStatus
  active : Bool
  operator : Address
  deriving DecidableEq, Repr

/-- **What the events say**: who runs which node and which domains are taken, who has ever run one,
    who is listed, whom a key answers with, the places of `getParties()`, and the validator. -/
structure Observer where
  nodes : Address → Bytes
  taken : Bytes → Bool
  operators : List Address
  listings : Address → Option Announced
  keys : Bytes2 × Bytes3 → Address
  places : List Address
  validator : Address

namespace Observer

/-- Before the first event. -/
def start (validator : Address) : Observer where
  nodes := fun _ => []
  taken := fun _ => false
  operators := []
  listings := fun _ => none
  keys := fun _ => 0
  places := []
  validator := validator

def nodeGone (o : Observer) (operator : Address) : Observer :=
  { o with
    nodes := Function.update o.nodes operator []
    taken := Function.update o.taken (o.nodes operator) false }

def nodeSeen (o : Observer) (operator : Address) (domain : Bytes) : Observer :=
  { o with
    nodes := Function.update o.nodes operator domain
    taken := Function.update o.taken domain true
    operators := if operator ∈ o.operators then o.operators else o.operators ++ [operator] }

def partySeen (o : Observer) (party : Address) (a : Announced) : Observer :=
  { o with
    listings := Function.update o.listings party (some a)
    keys := Function.update o.keys (a.countryCode, a.partyId) party
    places := if (o.listings party).isSome then o.places else o.places ++ [party] }

def partyGone (o : Observer) (party : Address) (key : Bytes2 × Bytes3) : Observer :=
  { o with
    listings := Function.update o.listings party none
    keys := Function.update o.keys key 0
    places := o.places.map fun p => if p = party then 0 else p }

/-- **One event.** -/
def observe (o : Observer) : Event → Observer
  | .ownershipTransferred _ _ => o
  | .partyRegistrationValidatorUpdated validator => { o with validator := validator }
  | .operatorUpdate operator domain =>
      if domain = [] then o.nodeGone operator else o.nodeSeen operator domain
  | .partyUpdate countryCode partyId partyAddress roles name url paymentStatus cvStatus active
      operatorAddress =>
      o.partySeen partyAddress ⟨countryCode, partyId, roles, name, url, paymentStatus, cvStatus,
        active, operatorAddress⟩
  | .partyDelete countryCode partyId partyAddress _ _ _ _ _ _ =>
      o.partyGone partyAddress (countryCode, partyId)

theorem observe_node_gone (o : Observer) (operator : Address) :
    o.observe (.operatorUpdate operator []) = o.nodeGone operator := by
  rw [observe, if_pos rfl]

theorem observe_node_seen (o : Observer) (operator : Address) {domain : Bytes} (h : domain ≠ []) :
    o.observe (.operatorUpdate operator domain) = o.nodeSeen operator domain := by
  rw [observe, if_neg h]

def observeAll (o : Observer) (events : List Event) : Observer := events.foldl observe o

/-- What the lookups are about: all but the validator. -/
def lookups (o : Observer) : Observer := { o with validator := 0 }

/-- The event is about a node or a party. -/
def Concerns : Event → Bool
  | .operatorUpdate .. => true
  | .partyUpdate .. => true
  | .partyDelete .. => true
  | .ownershipTransferred .. => false
  | .partyRegistrationValidatorUpdated .. => false

theorem lookups_observe (o : Observer) {e : Event} (h : Concerns e = true) :
    (o.observe e).lookups = o.lookups.observe e := by
  cases e with
  | operatorUpdate operator domain =>
      by_cases hd : domain = []
      · rw [hd, observe_node_gone, observe_node_gone]
        rfl
      · rw [observe_node_seen _ _ hd, observe_node_seen _ _ hd]
        rfl
  | partyUpdate => rfl
  | partyDelete => rfl
  | ownershipTransferred => cases h
  | partyRegistrationValidatorUpdated => cases h

theorem lookups_observe_other (o : Observer) {e : Event} (h : Concerns e = false) :
    (o.observe e).lookups = o.lookups := by
  cases e with
  | ownershipTransferred => rfl
  | partyRegistrationValidatorUpdated => rfl
  | operatorUpdate => cases h
  | partyUpdate => cases h
  | partyDelete => cases h

/-- **Only these events matter to the lookups.** -/
theorem lookups_observeAll (o : Observer) (events : List Event) :
    (o.observeAll events).lookups = o.lookups.observeAll (events.filter Concerns) := by
  induction events generalizing o with
  | nil => rfl
  | cons e events ih =>
      cases h : Concerns e with
      | true =>
          rw [List.filter_cons_of_pos h]
          show ((o.observe e).observeAll events).lookups =
            (o.lookups.observe e).observeAll (events.filter Concerns)
          rw [ih, lookups_observe o h]
      | false =>
          rw [List.filter_cons_of_neg (by rw [h]; exact Bool.false_ne_true)]
          show ((o.observe e).observeAll events).lookups = _
          rw [ih, lookups_observe_other o h]

end Observer

namespace OcnRegistry

/-- What the storage says, role members apart. -/
def announced (st : OcnRegistry) (a : Address) : Option Announced :=
  let details := st.partyOf a
  if st.operatorOf a = 0 then none
  else some ⟨details.countryCode, details.partyId, details.roles, details.name, details.url,
    details.paymentStatus, details.cvStatus, details.active, st.operatorOf a⟩

def observed (st : OcnRegistry) : Observer where
  nodes := st.nodeOf
  taken := st.uniqueDomains
  operators := st.operators
  listings := st.announced
  keys := fun k => st.uniqueParties k.1 k.2
  places := st.parties
  validator := st.partyRegistrationValidator

variable {X : Crypto} {st st' : OcnRegistry} {t : Tx} {ev : List Event}

/-! ## 2. One transaction -/

theorem announced_isSome (hI : st.ArraySound) (a : Address) :
    (st.announced a).isSome = st.uniquePartyAddresses a := by
  rw [Bool.eq_iff_iff, hI.flagged]
  unfold announced Registered
  split <;> simp_all

theorem announced_storeParty {owner operator : Address} {details : PartyDetails}
    (ho : operator ≠ 0) : (st.storeParty owner details operator).announced =
      Function.update st.announced owner (some ⟨details.countryCode, details.partyId,
        details.roles, details.name, details.url, details.paymentStatus, details.cvStatus,
        details.active, operator⟩) := by
  funext b
  unfold announced
  rw [storeParty_operatorOf, storeParty_partyOf]
  by_cases e : b = owner
  · subst e
    rw [Function.update_self, Function.update_self, Function.update_self, if_neg ho]
  · rw [Function.update_of_ne e, Function.update_of_ne e, Function.update_of_ne e]

theorem announced_clearParty (party : Address) :
    (st.clearParty party).announced = Function.update st.announced party none := by
  funext b
  unfold announced
  rw [clearParty_operatorOf, clearParty_partyOf]
  by_cases e : b = party
  · subst e
    rw [Function.update_self, Function.update_self, Function.update_self, if_pos rfl]
  · rw [Function.update_of_ne e, Function.update_of_ne e, Function.update_of_ne e]

/-- The key map as a map of pairs. -/
theorem keys_setUniqueParty (countryCode : Bytes2) (partyId : Bytes3) (owner : Address) :
    (fun k : Bytes2 × Bytes3 => st.setUniqueParty countryCode partyId owner k.1 k.2) =
      Function.update (fun k => st.uniqueParties k.1 k.2) (countryCode, partyId) owner := by
  funext k
  by_cases e : k = (countryCode, partyId)
  · subst e
    rw [Function.update_self]
    exact st.setUniqueParty_self countryCode partyId owner
  · rw [Function.update_of_ne e]
    exact st.setUniqueParty_ne owner e

theorem observed_storeNode (hI : st.NodeListSound) (operator : Address) (domain : Bytes) :
    (st.storeNode operator domain).observed = st.observed.nodeSeen operator domain := by
  have hlist : (if st.uniqueOperators operator then st.operators
      else st.operators ++ [operator]) =
      (if operator ∈ st.operators then st.operators else st.operators ++ [operator]) :=
    if_congr (hI.mem operator).symm rfl rfl
  show Observer.mk _ _ (if st.uniqueOperators operator then _ else _) _ _ _ _ = _
  rw [hlist]
  rfl

theorem observed_storeParty (hI : st.ArraySound) {owner operator : Address}
    {details : PartyDetails} (ho : operator ≠ 0) :
    (st.storeParty owner details operator).observed =
      st.observed.partySeen owner ⟨details.countryCode, details.partyId, details.roles,
        details.name, details.url, details.paymentStatus, details.cvStatus, details.active,
        operator⟩ := by
  have hplaces : (if st.uniquePartyAddresses owner then st.parties else st.parties ++ [owner]) =
      (if (st.announced owner).isSome then st.parties else st.parties ++ [owner]) := by
    rw [announced_isSome hI]
  show Observer.mk _ _ _ (announced _)
    (fun k => st.setUniqueParty details.countryCode details.partyId owner k.1 k.2)
    (if st.uniquePartyAddresses owner then _ else _) _ = _
  rw [announced_storeParty ho, keys_setUniqueParty, hplaces]
  rfl

theorem observed_clearParty (hI : st.ArraySound) {party : Address} (hr : st.Registered party) :
    (st.clearParty party).observed = st.observed.partyGone party (st.keyOf party) := by
  have hplaces : (st.clearParty party).parties =
      st.parties.map fun p => if p = party then 0 else p := by
    have hleave := hI.slots.leave_slots ((hI.flagged party).mpr hr)
    rwa [← slotTable_clearParty] at hleave
  show Observer.mk _ _ _ (announced _)
    (fun k => st.setUniqueParty (st.partyOf party).countryCode (st.partyOf party).partyId 0
      k.1 k.2) (st.clearParty party).parties _ = _
  rw [announced_clearParty, keys_setUniqueParty, hplaces]
  rfl

/-- **One transaction's events** take the observer from the storage before it to the one after. -/
theorem observed_exec (hA : st.ArraySound) (hN : st.NodeListSound)
    (h : exec X st t = .ok (st', ev)) : st'.observed = st.observed.observeAll ev := by
  cases change_of_exec h with
  | nodeSet operator domain _ hname =>
      rw [observed_storeNode hN]
      exact (st.observed.observe_node_seen operator hname).symm
  | nodeDeleted operator => exact (st.observed.observe_node_gone operator).symm
  | partySet _ _ _ _ _ _ _ _ _ _ ha => exact observed_storeParty hA ha.someOperator
  | partyDeleted party _ hlisted => exact observed_clearParty hA hlisted
  | membersSet members ev hask => cases hask <;> rfl
  | validatorSet => rfl

theorem observed_start (D : Deployment) :
    D.start.observed = Observer.start D.partyRegistrationValidator := by
  have hnone : D.start.announced = fun _ => none := by
    funext a
    unfold announced
    exact if_pos rfl
  unfold observed
  rw [hnone]
  rfl

/-! ## 3. What the lookups need -/

/-- Asked about any party, the two payment managers say the same. -/
def PaymentsAlike (answers answers' : External) (manager manager' : Address) : Prop :=
  ∀ party, answers'.getPaymentBlock manager' party = answers.getPaymentBlock manager party ∧
    answers'.getPaymentStatus manager' party = answers.getPaymentStatus manager party

/-- **The lookups answer alike**: the one that asks the payment manager where the payment managers
    do, the others always. -/
structure SameAnswers (st st' : OcnRegistry) : Prop where
  node : st'.getNode = st.getNode
  nodeOperators : st'.getNodeOperators = st.getNodeOperators
  operatorByAddress : st'.getOperatorByAddress = st.getOperatorByAddress
  operatorByOcpi : st'.getOperatorByOcpi = st.getOperatorByOcpi
  detailsByAddress : st'.getPartyDetailsByAddress = st.getPartyDetailsByAddress
  detailsByOcpi : ∀ answers answers',
    PaymentsAlike answers answers' st.paymentManager st'.paymentManager →
      st'.getPartyDetailsByOcpi answers' = st.getPartyDetailsByOcpi answers
  parties : st'.getParties = st.getParties
  partiesByOperator : st'.getPartiesByOperator = st.getPartiesByOperator
  partiesByRole : st'.getPartiesByRole = st.getPartiesByRole

/-- The operator and the record of an address, its place apart, from what was announced of it. -/
theorem announced_eq (hI : st.ArraySound) (hI' : st'.ArraySound) {a : Address}
    (h : st'.announced a = st.announced a) : st'.operatorOf a = st.operatorOf a ∧
      st'.getPartyDetailsByAddress a = st.getPartyDetailsByAddress a := by
  unfold announced at h
  by_cases ha : st.operatorOf a = 0
  · rw [if_pos ha] at h
    have ha' : st'.operatorOf a = 0 := by
      by_contra hne
      rw [if_neg hne] at h
      cases h
    have hblank := hI.blank a fun hr => hr ha
    have hblank' := hI'.blank a fun hr => hr ha'
    refine ⟨ha'.trans ha.symm, ?_⟩
    unfold getPartyDetailsByAddress
    rw [hblank, hblank', ha, ha']
  · rw [if_neg ha] at h
    have ha' : st'.operatorOf a ≠ 0 := by
      intro hz
      rw [if_pos hz] at h
      cases h
    rw [if_neg ha'] at h
    injection h with h
    injection h with hc hp hr hn hu hs _ hact ho
    refine ⟨ho, ?_⟩
    unfold getPartyDetailsByAddress
    dsimp only
    rw [hc, hp, hr, hn, hu, hs, hact, ho]

theorem sameAnswers_of_observed (hI : st.ArraySound) (hI' : st'.ArraySound)
    (h : st'.observed.lookups = st.observed.lookups) : SameAnswers st st' := by
  have hnodes : st'.nodeOf = st.nodeOf := congrArg Observer.nodes h
  have hkeys : st'.uniqueParties = st.uniqueParties := by
    funext countryCode partyId
    exact congrFun (congrArg Observer.keys h) (countryCode, partyId)
  have hplaces : st'.parties = st.parties := congrArg Observer.places h
  have hall := fun a => announced_eq hI hI' (congrFun (congrArg Observer.listings h) a)
  have hoperators : st'.operatorOf = st.operatorOf := funext fun a => (hall a).1
  have hdetails := fun a => (hall a).2
  have hroles : ∀ a, (st'.partyOf a).roles = (st.partyOf a).roles :=
    fun a => congrArg PartyView.roles (hdetails a)
  refine ⟨?_, congrArg Observer.operators h, ?_, ?_, funext hdetails, fun answers answers' hm => ?_,
    hplaces, ?_, ?_⟩
  · exact hnodes
  · funext a
    unfold getOperatorByAddress
    rw [hoperators, hnodes]
  · funext countryCode partyId
    unfold getOperatorByOcpi
    rw [hkeys, hoperators, hnodes]
  · funext countryCode partyId
    obtain ⟨hblock, hstatus⟩ := hm (st.uniqueParties countryCode partyId)
    unfold getPartyDetailsByOcpi
    have hview := hdetails (st.uniqueParties countryCode partyId)
    unfold getPartyDetailsByAddress at hview
    injection hview with _ hc hp hr _ ho hn hu hact
    simp only [hkeys, hblock, hstatus, hc, hp, hr, ho, hn, hu, hact]
  · funext operator
    unfold getPartiesByOperator filterParties
    rw [hplaces, hoperators]
  · funext role
    unfold getPartiesByRole filterParties
    rw [hplaces]
    simp only [hroles]

end OcnRegistry

/-! ## 4. A run -/

/-- The events of a run. -/
def Deployment.history (D : Deployment) (X : Crypto) (ts : List Tx) : List Event :=
  (OcnRegistry.machine X).history D.start ts

theorem observed_run (X : Crypto) (D : Deployment) (ts : List Tx) :
    (D.run X ts).observed =
      (Observer.start D.partyRegistrationValidator).observeAll (D.history X ts) := by
  have hall := Machine.history_invariant (M := OcnRegistry.machine X)
    (I := fun events st => st.ArraySound ∧ st.NodeListSound ∧
      st.observed = (Observer.start D.partyRegistrationValidator).observeAll events)
    (fun events st t st' ev hI hok => ?_) ts
    ⟨OcnRegistry.arraySound_start D, OcnRegistry.nodeListSound_start D,
      OcnRegistry.observed_start D⟩
  · exact hall.2.2
  · obtain ⟨hA, hN, hO⟩ := hI
    refine ⟨OcnRegistry.arraySound_exec hA hok, OcnRegistry.nodeListSound_exec hN hok, ?_⟩
    rw [OcnRegistry.observed_exec hA hN hok, hO]
    exact List.foldl_append.symm

/-- Runs whose events about nodes and parties are the same answer alike. -/
theorem sameAnswers_of_events {X X' : Crypto} {D D' : Deployment} {ts ts' : List Tx}
    (h : (D'.history X' ts').filter Observer.Concerns =
      (D.history X ts).filter Observer.Concerns) :
    (D.run X ts).SameAnswers (D'.run X' ts') := by
  refine OcnRegistry.sameAnswers_of_observed (OcnRegistry.arraySound_run X D ts)
    (OcnRegistry.arraySound_run X' D' ts') ?_
  rw [observed_run, observed_run, Observer.lookups_observeAll, Observer.lookups_observeAll, h]
  rfl

/-- **The events tell the storage**: after every run the storage, role members apart, is what an
    observer of its events knows; so two registries whose runs emitted the same events, whoever
    deployed them and by whatever calls, answer every lookup alike, if their payment managers give
    alike what the lookup by key asks of them. -/
theorem events_tell_storage (X : Crypto) (D : Deployment) (ts : List Tx) :
    (D.run X ts).observed =
      (Observer.start D.partyRegistrationValidator).observeAll (D.history X ts) ∧
    ∀ (X' : Crypto) (D' : Deployment) (ts' : List Tx),
      D'.history X' ts' = D.history X ts → (D.run X ts).SameAnswers (D'.run X' ts') := by
  refine ⟨observed_run X D ts, fun X' D' ts' hsame => sameAnswers_of_events ?_⟩
  rw [hsame]

end Ocn
