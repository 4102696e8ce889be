/-
  File:      OcnRegistry/Indexer/Schema.lean
  Subject:   THE SCHEMA OF THE SUBGRAPH: is what the handlers save what schema.graphql promises?

  The schema has three enums, and every party entity refers to an operator entity. A handler writes
  the names of enum values as texts; `getRole`, `getPaymentStatus` and `getCvStatus` answer
  `UNKNOWN` for a number they do not know, which no enum has. Every role and every certificate
  status has a name. The payment status `INACTIVE` has none: an entity that shows it is refused by
  the graph's node, which stops there.

  * `valid_feed` -- logs that show no `INACTIVE` leave valid entities, in any order;
  * `schema_valid` -- the entities are valid in every state of a run exactly when no registration of
    it hears `INACTIVE`, and always when the registry's payment manager is an `OcnPaymentManager`.
-/
import OcnRegistry.Indexer.Journal
import OcnRegistry.Network

namespace Ocn

open Transaction Packed

namespace Indexer

/-! ## 1. The schema -/

namespace Schema

/-- `enum Role`. -/
def role : List String := ["CPO", "EMSP", "NAP", "NSP", "OTHER", "SCSP", "HUB"]

/-- `enum PaymentStatus`. -/
def paymentStatus : List String := ["NOT_PAID", "PAID", "PENDING"]

/-- `enum CvStatus`. -/
def cvStatus : List String := ["NOT_VERIFIED", "VERIFIED", "PENDING"]

/-- The enum fields of a party entity and of the entities of party events. -/
structure Enums (roles : List String) (status cv : String) : Prop where
  roles : ∀ name ∈ roles, name ∈ role
  status : status ∈ paymentStatus
  cv : cv ∈ cvStatus

/-- **Entities as the schema types them**: enum fields have values of their enums, and a party
    refers to an operator that is there. -/
structure Valid (g : Subgraph) : Prop where
  partyUpdates : ∀ id e, g.partyUpdates id = some e → Enums e.roles e.paymentStatus e.cvStatus
  partyDeletes : ∀ id e, g.partyDeletes id = some e → Enums e.roles e.paymentStatus e.cvStatus
  parties : ∀ id p, g.parties id = some p → Enums p.roles p.paymentStatus p.cvStatus
  operators : ∀ id p, g.parties id = some p → (g.operators p.operator).isSome = true

theorem valid_empty : Valid Subgraph.empty :=
  ⟨fun _ _ h => (by cases h), fun _ _ h => (by cases h), fun _ _ h => (by cases h),
    fun _ _ h => (by cases h)⟩

/-! ## 2. Names -/

theorem getRole_mem (r : Role) : getRole (roleNumber r) ∈ role := by
  cases r <;> decide

theorem getCvStatus_mem (cv : CvStatus) : getCvStatus (cvStatusNumber cv) ∈ cvStatus := by
  cases cv <;> decide

/-- Every payment status has a name in the schema but `INACTIVE`. -/
theorem getPaymentStatus_mem_iff (status : PaymentStatus) :
    getPaymentStatus (paymentStatusNumber status) ∈ paymentStatus ↔ status ≠ .inactive := by
  cases status <;> decide

/-- **What an event's entity shows is valid** unless the payment status is `INACTIVE`. -/
theorem enums_iff (roles : List Role) (status : PaymentStatus) (cv : CvStatus) :
    Enums (roles.map fun r => getRole (roleNumber r))
        (getPaymentStatus (paymentStatusNumber status)) (getCvStatus (cvStatusNumber cv)) ↔
      status ≠ .inactive := by
  refine ⟨fun h => (getPaymentStatus_mem_iff status).mp h.status, fun h => ?_⟩
  refine ⟨fun name hname => ?_, (getPaymentStatus_mem_iff status).mpr h, getCvStatus_mem cv⟩
  obtain ⟨r, _, rfl⟩ := List.mem_map.mp hname
  exact getRole_mem r

/-! ## 3. Handlers -/

section Handlers

variable {B : LossyUtf8} {g : Subgraph}

/-- What all entities of a store have and a saved one has, all have afterwards. -/
theorem all_update {κ α : Type} [DecidableEq κ] {store : κ → Option α} {P : α → Prop}
    (h : ∀ id a, store id = some a → P a) {id : κ} {a : α} (ha : P a) :
    ∀ id' b, Function.update store id (some a) id' = some b → P b := by
  intro id' b hb
  by_cases e : id' = id
  · rw [e, Function.update_self] at hb
    exact Option.some.inj hb ▸ ha
  · rw [Function.update_of_ne e] at hb
    exact h id' b hb

/-- An entity that is there stays when another is saved. -/
theorem isSome_update {κ α : Type} [DecidableEq κ] {store : κ → Option α} {id id' : κ} {a : α}
    (h : (store id').isSome = true) : (Function.update store id (some a) id').isSome = true := by
  by_cases e : id' = id
  · rw [e, Function.update_self]
    rfl
  · rw [Function.update_of_ne e]
    exact h

theorem valid_operatorUpdate (hids : IdsKept g) (h : Valid g) (event : Origin) (operator : Address)
    (domain : Bytes) : Valid (handleOperatorUpdate B g event operator domain) where
  partyUpdates := h.partyUpdates
  partyDeletes := h.partyDeletes
  parties := h.parties
  operators := by
    intro id p hp
    rw [handleOperatorUpdate_operators hids]
    exact isSome_update (h.operators id p hp)

section PartyEvents

variable (event : Origin) (countryCode : Bytes2) (partyId : Bytes3) (partyAddress : Address)
  (roles : List Role) (name url : Bytes) {status : PaymentStatus} (cv : CvStatus) (active : Bool)

/-- The operator's entity is there after `handlePartyUpdate`, and so is every other that was. -/
theorem operators_partyUpdate {operatorAddress : Address} {id : String}
    (h : id = toHexString operatorAddress ∨ (g.operators id).isSome = true) :
    ((handlePartyUpdate B g event countryCode partyId partyAddress roles name url status cv active
      operatorAddress).operators id).isSome = true := by
  rw [handlePartyUpdate_operators]
  cases hload : g.operators (toHexString operatorAddress) with
  | some operator =>
      rcases h with rfl | h
      · dsimp only
        rw [hload]
        rfl
      · exact h
  | none =>
      dsimp only
      rcases h with rfl | h
      · rw [Function.update_self]
        rfl
      · exact isSome_update h

theorem valid_partyUpdate (hids : IdsKept g) (h : Valid g) (hs : status ≠ .inactive)
    (operatorAddress : Address) :
    Valid (handlePartyUpdate B g event countryCode partyId partyAddress roles name url status cv
      active operatorAddress) := by
  obtain ⟨_, _, hdeletes, hupdates⟩ := handlePartyUpdate_journal (B := B) g event countryCode
    partyId partyAddress roles name url status cv active operatorAddress
  have hnew := (enums_iff roles status cv).mpr hs
  refine ⟨?_, ?_, ?_, fun id p hp => operators_partyUpdate _ _ _ _ _ _ _ _ _ ?_⟩
  · rw [hupdates]
    exact all_update h.partyUpdates hnew
  · rw [hdeletes]
    exact h.partyDeletes
  · rw [handlePartyUpdate_parties hids]
    exact all_update h.parties hnew
  · -- the party refers to the operator of this event, or is one from before
    rw [handlePartyUpdate_parties hids] at hp
    exact all_update (P := fun p => p.operator = toHexString operatorAddress ∨
      (g.operators p.operator).isSome = true) (fun id p hp => .inr (h.operators id p hp))
      (.inl rfl) id p hp

theorem valid_partyDelete (hids : IdsKept g) (h : Valid g) (hs : status ≠ .inactive) :
    Valid (handlePartyDelete B g event countryCode partyId partyAddress roles name url status cv
      active) := by
  obtain ⟨_, _, hupdates, hdeletes⟩ := handlePartyDelete_journal (B := B) g event countryCode
    partyId partyAddress roles name url status cv active
  refine ⟨?_, ?_, ?_, ?_⟩
  · rw [hupdates]
    exact h.partyUpdates
  · rw [hdeletes]
    exact all_update h.partyDeletes ((enums_iff roles status cv).mpr hs)
  · rw [handlePartyDelete_parties hids]
    split
    · exact h.parties
    · rename_i party hload
      exact all_update h.parties (h.parties _ party hload)
  · rw [handlePartyDelete_parties hids, handlePartyDelete_operators]
    split
    · exact h.operators
    · rename_i party hload
      exact all_update h.operators (h.operators _ party hload)

end PartyEvents

/-- The payment status a party event shows. -/
def shown : Event → Option PaymentStatus
  | .partyUpdate _ _ _ _ _ _ status .. => some status
  | .partyDelete _ _ _ _ _ _ status .. => some status
  | _ => none

/-- **One event.** -/
theorem valid_handle (hids : IdsKept g) (h : Valid g) {log : Log}
    (hs : shown log.event ≠ some .inactive) : Valid (handle B g log) := by
  unfold handle
  cases hevent : log.event with
  | operatorUpdate operator domain => exact valid_operatorUpdate hids h _ operator domain
  | ownershipTransferred =>
      exact ⟨h.partyUpdates, h.partyDeletes, h.parties, h.operators⟩
  | partyUpdate countryCode partyId partyAddress roles name url status cv active operatorAddress =>
      rw [hevent] at hs
      exact valid_partyUpdate _ _ _ _ _ _ _ _ _ hids h (fun e => hs (congrArg some e)) _
  | partyDelete countryCode partyId partyAddress roles name url status cv active =>
      rw [hevent] at hs
      exact valid_partyDelete _ _ _ _ _ _ _ _ _ hids h fun e => hs (congrArg some e)
  | partyRegistrationValidatorUpdated => exact h

/-- **Any logs**, in any order: without `INACTIVE` the entities stay valid. -/
theorem valid_feed (hids : IdsKept g) (h : Valid g) {logs : List Log}
    (hs : ∀ log ∈ logs, shown log.event ≠ some .inactive) : Valid (logs.foldl (handle B) g) := by
  induction logs generalizing g with
  | nil => exact h
  | cons log logs ih =>
      exact ih (idsKept_handle hids log) (valid_handle hids h (hs log List.mem_cons_self))
        fun log' hlog' => hs log' (List.mem_cons_of_mem log hlog')

end Handlers

/-! ## 4. Runs -/

section Runs

variable {B : LossyUtf8} {X : Crypto} {s : Indexed} {t : MinedTx}

/-- The transaction registers a party and hears that its payment status is `INACTIVE`. -/
def HearsInactive (st : OcnRegistry) (t : Tx) : Prop :=
  ∃ countryCode partyId roles operator name url owner verifiedRoles,
    t.call = .setParty countryCode partyId roles operator name url ∧
    OcnRegistry.SetPartyAdmits st t.answers countryCode partyId roles operator owner verifiedRoles
      .inactive

/-- **The invariant of runs without `INACTIVE`**: no record has it either. -/
structure Shown (s : Indexed) : Prop where
  ids : IdsKept s.subgraph
  valid : Valid s.subgraph
  records : ∀ party, (s.registry.partyOf party).paymentStatus ≠ .inactive

theorem shown_start (D : Deployment) : Shown ⟨D.start, Subgraph.empty⟩ :=
  ⟨idsKept_empty, valid_empty, fun _ => PaymentStatus.noConfusion⟩

/-- Writing one record keeps the others. -/
theorem records_update {st : OcnRegistry} {party : Address} {details : PartyDetails}
    (h : ∀ a, (st.partyOf a).paymentStatus ≠ .inactive) (hd : details.paymentStatus ≠ .inactive)
    (a : Address) : (Function.update st.partyOf party details a).paymentStatus ≠ .inactive := by
  by_cases e : a = party
  · rw [e, Function.update_self]
    exact hd
  · rw [Function.update_of_ne e]
    exact h a

/-- The logs of one event. -/
theorem shown_logs {event : Event} (h : shown event ≠ some .inactive) :
    ∀ log ∈ t.logs [event], shown log.event ≠ some .inactive := by
  intro log hlog
  rw [List.mem_singleton.mp hlog]
  exact h

/-- **One step.** -/
theorem shown_step (hI : Shown s) (hC : ¬ HearsInactive s.registry t.tx) :
    Shown ((machine B X).step s t) := by
  refine Machine.step_preserves (M := machine B X) hI fun s' logs hok => ?_
  obtain ⟨registry, ev, hchange, rfl, _⟩ := exec_eq_ok.mp hok
  refine ⟨idsKept_feed hI.ids _, ?_, ?_⟩
  · refine valid_feed hI.ids hI.valid ?_
    cases hchange with
    | nodeSet | nodeDeleted | validatorSet => exact shown_logs nofun
    | partySet countryCode partyId roles operator name url owner verifiedRoles status hcall
        hadmits =>
        refine shown_logs fun e => hC ?_
        cases e
        exact ⟨countryCode, partyId, roles, operator, name, url, owner, verifiedRoles, hcall,
          hadmits⟩
    | partyDeleted party => exact shown_logs fun e => hI.records party (Option.some.inj e)
    | membersSet members ev hask =>
        cases hask with
        | transfer => exact shown_logs nofun
        | grant | revoke | renounce => exact fun _ h => absurd h List.not_mem_nil
  · dsimp only
    cases hchange with
    | nodeSet | nodeDeleted | validatorSet | membersSet => exact hI.records
    | partySet countryCode partyId roles operator name url owner verifiedRoles status hcall
        hadmits =>
        refine records_update hI.records fun e => hC ?_
        have hstatus : status = .inactive := e
        subst hstatus
        exact ⟨countryCode, partyId, roles, operator, name, url, owner, verifiedRoles, hcall,
          hadmits⟩
    | partyDeleted => exact records_update hI.records (by decide)

/-- A registration that hears `INACTIVE` leaves an entity the schema does not allow. -/
theorem not_valid_of_hearsInactive (h : HearsInactive s.registry t.tx) :
    ¬ Valid ((machine B X).step s t).subgraph := by
  obtain ⟨countryCode, partyId, roles, operator, name, url, owner, verifiedRoles, hcall, hadmits⟩ :=
    h
  rw [step_of_change (.partySet countryCode partyId roles operator name url owner verifiedRoles _
    hcall hadmits)]
  intro hvalid
  obtain ⟨_, _, _, hupdates⟩ := handlePartyUpdate_journal (B := B) s.subgraph (t.origin 0)
    countryCode partyId owner verifiedRoles name url .inactive .notVerified true operator
  have hentity := hvalid.partyUpdates (t.origin 0).entityId _
    ((congrFun hupdates _).trans (Function.update_self ..))
  exact (enums_iff verifiedRoles .inactive .notVerified).mp hentity rfl

/-- What an `OcnPaymentManager` answers is not `INACTIVE`. -/
theorem not_hearsInactive {p : PaymentState} {outside : External} {st : OcnRegistry} {tx : Tx}
    (h : tx.answers = p.answers st.paymentManager outside) : ¬ HearsInactive st tx := by
  intro hears
  obtain ⟨_, _, _, _, _, _, owner, _, _, hadmits⟩ := hears
  have hpayment := hadmits.payment
  rw [h, PaymentState.answers_getPaymentStatus] at hpayment
  injection hpayment with hstatus
  unfold OcnPaymentManager.getPaymentStatus at hstatus
  split_ifs at hstatus

end Runs

/-- **The entities are what the schema says** in every state of a run exactly when no registration
    of it hears that a party is `INACTIVE`; and in every run in which an `OcnPaymentManager` answers
    for the registry's payment manager, whatever its state and whatever the others answer. -/
theorem schema_valid (B : LossyUtf8) (X : Crypto) (D : Deployment) (ts : List MinedTx) :
    ((machine B X).Throughout (fun s => Valid s.subgraph) ⟨D.start, Subgraph.empty⟩ ts ↔
      (machine B X).Along (fun s t => ¬ HearsInactive s.registry t.tx)
        ⟨D.start, Subgraph.empty⟩ ts) ∧
    ((∀ t ∈ ts, ∃ (p : PaymentState) (outside : External),
        t.tx.answers = p.answers D.paymentManager outside) →
      (machine B X).Throughout (fun s => Valid s.subgraph) ⟨D.start, Subgraph.empty⟩ ts) := by
  refine ⟨?_, fun hanswers => ?_⟩
  · exact Machine.throughout_iff_along_of (K := Shown) (fun _ h => h.valid)
      (fun _ _ _ hvalid hears => not_valid_of_hearsInactive hears hvalid)
      (fun _ _ hI hC => shown_step hI hC) ts (shown_start D)
  · refine (Machine.throughout_iff_along_within (C := fun _ _ => True)
      (K := fun s => Shown s ∧ s.registry.paymentManager = D.paymentManager)
      (fun _ h => h.1.valid) (fun _ _ _ _ _ => trivial) (fun s t ht h _ => ?_) ts hanswers
      ⟨shown_start D, rfl⟩).mpr (Machine.along_of_forall fun _ _ _ => trivial)
    obtain ⟨p, outside, hp⟩ := ht
    rw [← h.2] at hp
    refine ⟨shown_step h.1 (not_hearsInactive hp), ?_⟩
    rw [registry_step, OcnRegistry.paymentManager_step]
    exact h.2

end Schema

end Indexer

end Ocn
