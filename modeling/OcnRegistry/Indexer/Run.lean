/-
  File:      OcnRegistry/Indexer/Run.lean
  Subject:   THE REGISTRY AND ITS SUBGRAPH: the events of every transaction, fed to the handlers in
             the order they were emitted.

  A mined transaction carries what the handlers read of a block. A transaction that reverts emits
  nothing. The machine runs the handlers after each transaction; `index_run` says that this is the
  registry's run and, beside it, one pass of the handlers over all its events.

  * `index_run` -- what the state of a run is made of;
  * `handleOperatorUpdate_operators`, `handlePartyUpdate_parties`, `handlePartyDelete_parties` --
    what the handlers write;
  * `partyStep` -- what a transaction does to the party tables and the party entities.
-/
import OcnRegistry.Indexer.Ids
import OcnRegistry.Registry.Slots

namespace Ocn

open Transaction Packed

namespace Indexer

/-! ## 1. The machine -/

/-- A transaction in its block; `logIndex` is that of its first event. -/
structure MinedTx where
  tx : Tx
  transactionHash : Bytes32
  logIndex : Nat
  blockNumber : Nat
  blockTimestamp : Nat

def MinedTx.origin (t : MinedTx) (i : Nat) : Origin :=
  ⟨t.transactionHash, t.logIndex + i, t.blockNumber, t.blockTimestamp⟩

/-- The events of the transaction, with their places. -/
def MinedTx.logs (t : MinedTx) (ev : List Event) : List Log :=
  ev.mapIdx fun i event => ⟨t.origin i, event⟩

structure Indexed where
  registry : OcnRegistry
  subgraph : Subgraph

def exec (B : LossyUtf8) (X : Crypto) (s : Indexed) (t : MinedTx) :
    Except Revert (Outcome Indexed Log) := do
  let (registry, ev) ← OcnRegistry.exec X s.registry t.tx
  .ok (⟨registry, (t.logs ev).foldl (handle B) s.subgraph⟩, t.logs ev)

def machine (B : LossyUtf8) (X : Crypto) : Machine Indexed MinedTx Revert Log := ⟨exec B X⟩

/-- **The states of registry and subgraph** after these transactions. -/
def run (B : LossyUtf8) (X : Crypto) (D : Deployment) (ts : List MinedTx) : Indexed :=
  (machine B X).run ⟨D.start, Subgraph.empty⟩ ts

variable {B : LossyUtf8} {X : Crypto} {s s' : Indexed} {t : MinedTx} {logs : List Log}

/-- **A transaction succeeds exactly with one of the registry's changes.** -/
theorem exec_eq_ok : (machine B X).exec s t = .ok (s', logs) ↔
    ∃ registry ev, OcnRegistry.Change X s.registry t.tx registry ev ∧
      s' = ⟨registry, (t.logs ev).foldl (handle B) s.subgraph⟩ ∧ logs = t.logs ev := by
  show exec B X s t = _ ↔ _
  unfold exec
  rw [bind_eq_ok]
  refine ⟨fun h => ?_, fun h => ?_⟩
  · obtain ⟨⟨registry, ev⟩, hok, h⟩ := h
    cases h
    exact ⟨registry, ev, OcnRegistry.change_of_exec hok, rfl, rfl⟩
  · obtain ⟨registry, ev, hchange, rfl, rfl⟩ := h
    exact ⟨(registry, ev), OcnRegistry.exec_of_change hchange, rfl⟩

theorem step_of_change {registry : OcnRegistry} {ev : List Event}
    (h : OcnRegistry.Change X s.registry t.tx registry ev) :
    (machine B X).step s t = ⟨registry, (t.logs ev).foldl (handle B) s.subgraph⟩ :=
  Machine.step_ok (M := machine B X) (exec_eq_ok.mpr ⟨registry, ev, h, rfl, rfl⟩)

theorem exec_error {e : Revert} (h : OcnRegistry.exec X s.registry t.tx = .error e) :
    (machine B X).exec s t = .error e := by
  show exec B X s t = _
  unfold exec
  rw [h]
  rfl

theorem map_event_logs (t : MinedTx) (ev : List Event) : (t.logs ev).map (·.event) = ev := by
  unfold MinedTx.logs
  refine List.ext_getElem (by simp) fun i hi hi' => ?_
  rw [List.getElem_map, List.getElem_mapIdx]

/-- The registry steps as it does alone. -/
theorem registry_step : ((machine B X).step s t).registry =
    (OcnRegistry.machine X).step s.registry t.tx := by
  cases h : OcnRegistry.exec X s.registry t.tx with
  | error e =>
      rw [Machine.step_error (exec_error h), Machine.step_error (M := OcnRegistry.machine X) h]
  | ok r =>
      obtain ⟨registry, ev⟩ := r
      rw [step_of_change (OcnRegistry.change_of_exec h),
        Machine.step_ok (M := OcnRegistry.machine X) h]

theorem registry_run (s : Indexed) (ts : List MinedTx) : ((machine B X).run s ts).registry =
    (OcnRegistry.machine X).run s.registry (ts.map (·.tx)) := by
  induction ts generalizing s with
  | nil => rfl
  | cons t ts ih =>
      rw [Machine.run_cons, ih, registry_step]
      rfl

/-- The registry of a run is the registry after the run's transactions. -/
theorem run_registry (B : LossyUtf8) (X : Crypto) (D : Deployment) (ts : List MinedTx) :
    (run B X D ts).registry = D.run X (ts.map (·.tx)) := registry_run ⟨D.start, Subgraph.empty⟩ ts

/-- A condition on the registry's steps, along a run of both. -/
theorem along_registry {C : OcnRegistry → Tx → Prop} (s : Indexed) (ts : List MinedTx) :
    (machine B X).Along (fun s t => C s.registry t.tx) s ts ↔
      (OcnRegistry.machine X).Along C s.registry (ts.map (·.tx)) := by
  induction ts generalizing s with
  | nil => exact Iff.rfl
  | cons t ts ih =>
      refine and_congr_right fun _ => (ih _).trans ?_
      rw [registry_step]

/-- **What the state is made of**: the registry after its run, and the subgraph after one pass of
    the handlers over the events of the run, which are those the registry emitted. -/
theorem index_run (B : LossyUtf8) (X : Crypto) (D : Deployment) (ts : List MinedTx) :
    (run B X D ts).registry = D.run X (ts.map (·.tx)) ∧
      (run B X D ts).subgraph =
        ((machine B X).history ⟨D.start, Subgraph.empty⟩ ts).foldl (handle B) Subgraph.empty ∧
      ((machine B X).history ⟨D.start, Subgraph.empty⟩ ts).map (·.event) =
        (OcnRegistry.machine X).history D.start (ts.map (·.tx)) := by
  refine ⟨run_registry B X D ts, ?_, ?_⟩
  · refine Machine.history_invariant (M := machine B X)
      (I := fun logs s => s.subgraph = logs.foldl (handle B) Subgraph.empty) ?_ ts rfl
    intro logs s t s' more hI hok
    obtain ⟨registry, ev, _, rfl, rfl⟩ := exec_eq_ok.mp hok
    rw [List.foldl_append, ← hI]
  · suffices hall : ∀ (ts : List MinedTx) (s : Indexed),
        ((machine B X).history s ts).map (·.event) =
          (OcnRegistry.machine X).history s.registry (ts.map (·.tx)) from hall ts _
    intro ts
    induction ts with
    | nil => exact fun _ => rfl
    | cons t ts ih =>
        intro s
        rw [Machine.history, List.map_append, ih, registry_step]
        refine congrArg (· ++ _) ?_
        cases h : OcnRegistry.exec X s.registry t.tx with
        | error e =>
            rw [Machine.emitted_error (exec_error h),
              Machine.emitted_error (M := OcnRegistry.machine X) h]
            rfl
        | ok r =>
            obtain ⟨registry, ev⟩ := r
            have hok : (machine B X).exec s t = .ok (_, _) :=
              exec_eq_ok.mpr ⟨registry, ev, OcnRegistry.change_of_exec h, rfl, rfl⟩
            rw [Machine.emitted_ok hok, Machine.emitted_ok (M := OcnRegistry.machine X) h]
            exact map_event_logs t ev

/-! ## 2. What the handlers write -/

section Handlers

variable {g : Subgraph} {event : Origin}

/-- Entities are kept under their ids. -/
structure IdsKept (g : Subgraph) : Prop where
  operators : ∀ id o, g.operators id = some o → o.id = id
  parties : ∀ id p, g.parties id = some p → p.id = id

theorem idsKept_empty : IdsKept Subgraph.empty :=
  ⟨fun _ _ h => (by cases h), fun _ _ h => (by cases h)⟩

/-- Saving an entity under its own id. -/
theorem update_keeps {α : Type} {store : String → Option α} {idOf : α → String}
    (h : ∀ id a, store id = some a → idOf a = id) (a : α) :
    ∀ id b, Function.update store (idOf a) (some a) id = some b → idOf b = id := by
  intro id b hb
  by_cases e : id = idOf a
  · rw [e, Function.update_self] at hb
    rw [← Option.some.inj hb, e]
  · rw [Function.update_of_ne e] at hb
    exact h id b hb

/-- What is loaded, or new, has the id it was asked for under. -/
theorem getD_id {α : Type} {store : String → Option α} {idOf : α → String} {id : String}
    (h : ∀ id a, store id = some a → idOf a = id) {new : α} (hnew : idOf new = id) :
    idOf ((store id).getD new) = id := by
  cases hload : store id with
  | none => exact hnew
  | some a => exact h id a hload

theorem handleOperatorUpdate_operators (h : IdsKept g) (operator : Address) (domain : Bytes) :
    (handleOperatorUpdate B g event operator domain).operators =
      Function.update g.operators (toHexString operator)
        (some ⟨toHexString operator, B.text domain⟩) := by
  have hid : ((g.operators (toHexString operator)).getD
      (Operator.new (toHexString operator))).id = toHexString operator :=
    getD_id h.operators rfl
  unfold handleOperatorUpdate
  dsimp only
  rw [hid]

variable {countryCode : Bytes2} {partyId : Bytes3} {partyAddress operatorAddress : Address}
  {roles : List Role} {name url : Bytes} {paymentStatus : PaymentStatus} {cvStatus : CvStatus}
  {active : Bool}

/-- The entity a `PartyUpdate` leaves. -/
def updatedParty (B : LossyUtf8) (g : Subgraph) (countryCode : Bytes2) (partyId : Bytes3)
    (partyAddress : Address) (roles : List Role) (name url : Bytes)
    (paymentStatus : PaymentStatus) (cvStatus : CvStatus) (active : Bool)
    (operatorAddress : Address) : Party where
  id := partyEntityId B countryCode partyId
  countryCode := B.toString (wordBytes 2 countryCode)
  partyId := B.toString (wordBytes 3 partyId)
  partyAddress := toHexString partyAddress
  roles := roles.map fun role => getRole (roleNumber role)
  name := B.text name
  url := B.text url
  paymentStatus := getPaymentStatus (paymentStatusNumber paymentStatus)
  cvStatus := getCvStatus (cvStatusNumber cvStatus)
  active := active
  deleted := ((g.parties (partyEntityId B countryCode partyId)).map (·.deleted)).getD false
  operator := toHexString operatorAddress

theorem handlePartyUpdate_parties (h : IdsKept g) :
    (handlePartyUpdate B g event countryCode partyId partyAddress roles name url paymentStatus
        cvStatus active operatorAddress).parties =
      Function.update g.parties (partyEntityId B countryCode partyId)
        (some (updatedParty B g countryCode partyId partyAddress roles name url paymentStatus
          cvStatus active operatorAddress)) := by
  unfold handlePartyUpdate updatedParty
  dsimp only [partyEvent]
  rw [show B.toString (wordBytes 2 countryCode) ++ "/" ++ B.toString (wordBytes 3 partyId) =
    partyEntityId B countryCode partyId from rfl]
  cases hload : g.parties (partyEntityId B countryCode partyId) with
  | none =>
      cases hoperator : g.operators (toHexString operatorAddress) with
      | none => rfl
      | some operator =>
          have hid := h.operators _ _ hoperator
          dsimp only [Party.new, Option.getD, Option.map]
          rw [hid]
  | some party =>
      have hpid := h.parties _ _ hload
      cases hoperator : g.operators (toHexString operatorAddress) with
      | none =>
          dsimp only [Operator.new, Option.getD, Option.map]
          rw [hpid]
      | some operator =>
          have hid := h.operators _ _ hoperator
          dsimp only [Option.getD, Option.map]
          rw [hid, hpid]

/-- The operator's entity is made if it is missing. -/
theorem handlePartyUpdate_operators :
    (handlePartyUpdate B g event countryCode partyId partyAddress roles name url paymentStatus
        cvStatus active operatorAddress).operators =
      match g.operators (toHexString operatorAddress) with
      | some _ => g.operators
      | none => Function.update g.operators (toHexString operatorAddress)
          (some ⟨toHexString operatorAddress, "unknown"⟩) := by
  unfold handlePartyUpdate
  dsimp only
  cases g.operators (toHexString operatorAddress) with
  | some operator => rfl
  | none => rfl

theorem handlePartyDelete_operators :
    (handlePartyDelete B g event countryCode partyId partyAddress roles name url paymentStatus
      cvStatus active).operators = g.operators := by
  unfold handlePartyDelete
  dsimp only
  split
  · rfl
  · rfl

/-- The flag of the entity under the id without a separator is set, if there is one. -/
theorem handlePartyDelete_parties (h : IdsKept g) :
    (handlePartyDelete B g event countryCode partyId partyAddress roles name url paymentStatus
        cvStatus active).parties =
      match g.parties (deletedId B countryCode partyId) with
      | none => g.parties
      | some party => Function.update g.parties (deletedId B countryCode partyId)
          (some { party with deleted := true }) := by
  unfold handlePartyDelete
  dsimp only [partyEvent]
  rw [show B.toString (wordBytes 2 countryCode) ++ B.toString (wordBytes 3 partyId) =
    deletedId B countryCode partyId from rfl]
  cases hload : g.parties (deletedId B countryCode partyId) with
  | none => rfl
  | some party =>
      dsimp only
      rw [h.parties _ _ hload]

theorem handlePartyDelete_of_ne (h : IdsKept g) {id : String}
    (hne : id ≠ deletedId B countryCode partyId) :
    (handlePartyDelete B g event countryCode partyId partyAddress roles name url paymentStatus
      cvStatus active).parties id = g.parties id := by
  rw [handlePartyDelete_parties h]
  split
  · rfl
  · exact Function.update_of_ne hne _ _

/-- **Every handler keeps entities under their ids.** -/
theorem idsKept_handle (h : IdsKept g) (log : Log) : IdsKept (handle B g log) := by
  unfold handle
  cases log.event with
  | operatorUpdate operator domain =>
      refine ⟨?_, h.parties⟩
      rw [handleOperatorUpdate_operators h]
      exact update_keeps h.operators ⟨toHexString operator, B.text domain⟩
  | ownershipTransferred => exact ⟨h.operators, h.parties⟩
  | partyUpdate countryCode partyId partyAddress roles name url paymentStatus cvStatus active
      operatorAddress =>
      constructor
      · rw [handlePartyUpdate_operators]
        split
        · exact h.operators
        · exact update_keeps h.operators ⟨toHexString operatorAddress, "unknown"⟩
      · rw [handlePartyUpdate_parties h]
        exact update_keeps h.parties (updatedParty B g countryCode partyId partyAddress roles name
          url paymentStatus cvStatus active operatorAddress)
  | partyDelete countryCode partyId =>
      constructor
      · rw [handlePartyDelete_operators]
        exact h.operators
      · rw [handlePartyDelete_parties h]
        split
        · exact h.parties
        · rename_i party hload
          have hid := h.parties _ _ hload
          rw [← hid]
          exact update_keeps h.parties { party with deleted := true }
  | partyRegistrationValidatorUpdated => exact h

theorem idsKept_feed (h : IdsKept g) (logs : List Log) : IdsKept (logs.foldl (handle B) g) := by
  induction logs generalizing g with
  | nil => exact h
  | cons log logs ih => exact ih (idsKept_handle h log)

end Handlers

/-! ## 3. What a transaction does to both -/

theorem idsKept_step (h : IdsKept s.subgraph) : IdsKept ((machine B X).step s t).subgraph := by
  refine Machine.step_preserves (M := machine B X) (I := fun s => IdsKept s.subgraph) h ?_
  intro s' logs hok
  obtain ⟨registry, ev, _, rfl, _⟩ := exec_eq_ok.mp hok
  exact idsKept_feed h _

/-- A property of the registry that its steps keep. -/
theorem registry_keeps {I : OcnRegistry → Prop}
    (h0 : I s.registry) (h : ∀ st' ev, OcnRegistry.exec X s.registry t.tx = .ok (st', ev) → I st') :
    I ((machine B X).step s t).registry := by
  rw [registry_step]
  exact Machine.step_preserves (M := OcnRegistry.machine X) h0 h

/-- Events of `AccessControl` change no operator and no party. -/
theorem feed_members {st : OcnRegistry} {members : RoleMembers} {ev : List Event} (g : Subgraph)
    (h : OcnRegistry.SetsMembers st t.tx members ev) :
    ((t.logs ev).foldl (handle B) g).operators = g.operators ∧
      ((t.logs ev).foldl (handle B) g).parties = g.parties := by
  cases h with
  | transfer => exact ⟨rfl, rfl⟩
  | grant => exact ⟨rfl, rfl⟩
  | revoke => exact ⟨rfl, rfl⟩
  | renounce => exact ⟨rfl, rfl⟩

/-- **What a transaction does to the party tables and the party entities.** -/
inductive PartyStep (B : LossyUtf8) (X : Crypto) (s : Indexed) (t : MinedTx) : Prop where
  | set (countryCode : Bytes2) (partyId : Bytes3) (name url : Bytes) (operator owner : Address)
      (verifiedRoles : List Role) (status : PaymentStatus)
      (hset : OcnRegistry.SetsParty s.registry t.tx owner countryCode partyId operator)
      (hregistry : ((machine B X).step s t).registry = s.registry.storeParty owner
        (s.registry.newDetails countryCode partyId owner verifiedRoles name url status) operator)
      (hparties : ((machine B X).step s t).subgraph.parties =
        Function.update s.subgraph.parties (partyEntityId B countryCode partyId)
          (some (updatedParty B s.subgraph countryCode partyId owner verifiedRoles name url status
            .notVerified true operator))) : PartyStep B X s t
  | removed (party : Address) (hdel : OcnRegistry.RemovesParty s.registry t.tx party)
      (hregistry : ((machine B X).step s t).registry = s.registry.clearParty party)
      (hparties : ∀ countryCode partyId, PlainKey countryCode partyId →
        ((machine B X).step s t).subgraph.parties (partyEntityId B countryCode partyId) =
          s.subgraph.parties (partyEntityId B countryCode partyId)) : PartyStep B X s t
  | same
      (hset : ∀ owner countryCode partyId operator,
        ¬ OcnRegistry.SetsParty s.registry t.tx owner countryCode partyId operator)
      (hdel : ∀ party, ¬ OcnRegistry.RemovesParty s.registry t.tx party)
      (hregistry : OcnRegistry.SameParties s.registry ((machine B X).step s t).registry)
      (hparties : ((machine B X).step s t).subgraph.parties = s.subgraph.parties) :
      PartyStep B X s t

theorem partyStep (hI : s.registry.ArraySound) (hids : IdsKept s.subgraph) :
    PartyStep B X s t := by
  cases OcnRegistry.partyStep (X := X) (t := t.tx) hI with
  | set countryCode partyId roles operator name url owner verifiedRoles status hcall hadmits =>
      have hstep := step_of_change (B := B) (X := X) (s := s) (t := t)
        (.partySet countryCode partyId roles operator name url owner verifiedRoles status hcall
          hadmits)
      refine .set countryCode partyId name url operator owner verifiedRoles status
        ⟨roles, name, url, verifiedRoles, status, hcall, hadmits⟩ ?_ ?_
      · rw [hstep]
      · rw [hstep]
        exact handlePartyUpdate_parties hids
  | removed party hdel =>
      have hindex : (s.registry.partyOf party).partyIndex < s.registry.parties.length :=
        hI.slots.slot_lt ((hI.flagged party).mpr hdel.2)
      have hstep := step_of_change (B := B) (X := X) (s := s) (t := t)
        (.partyDeleted party hdel.1 hdel.2 hindex)
      refine .removed party hdel ?_ fun countryCode partyId hplain => ?_
      · rw [hstep]
      · rw [hstep]
        exact handlePartyDelete_of_ne hids (deletedId_ne hplain).symm
  | same hset hdel hsame =>
      refine .same hset hdel ?_ ?_
      · rw [registry_step]
        exact hsame
      rcases Machine.step_cases (machine B X) s t with e | ⟨s', logs, hok, e⟩
      · rw [e]
      rw [e]
      obtain ⟨registry, ev, hchange, rfl, _⟩ := exec_eq_ok.mp hok
      cases hchange with
      | nodeSet => rfl
      | nodeDeleted => rfl
      | partySet countryCode partyId roles operator name url owner verifiedRoles status hcall
          hadmits =>
          exact absurd ⟨roles, name, url, verifiedRoles, status, hcall, hadmits⟩
            (hset owner countryCode partyId operator)
      | partyDeleted party hask hlisted => exact absurd ⟨hask, hlisted⟩ (hdel party)
      | membersSet members ev hask => exact (feed_members _ hask).2
      | validatorSet => rfl

/-- **What holds of every state of a run.** -/
structure Sound (s : Indexed) : Prop where
  array : s.registry.ArraySound
  ids : IdsKept s.subgraph

theorem sound_start (D : Deployment) : Sound ⟨D.start, Subgraph.empty⟩ :=
  ⟨OcnRegistry.arraySound_start D, idsKept_empty⟩

theorem sound_step (hI : Sound s) : Sound ((machine B X).step s t) :=
  ⟨registry_keeps hI.array fun _ _ hok => OcnRegistry.arraySound_exec hI.array hok,
    idsKept_step hI.ids⟩

end Indexer

/-! ## 4. A decoder and blocks to run examples on -/

namespace Sample

/-- Bytes that are no text are one replacement character. -/
def lossyUtf8 : Indexer.LossyUtf8 where
  lossy := fun bytes => (Utf8.decode bytes).getD (String.singleton (Char.ofNat 0xFFFD))
  valid := by
    intro text
    rw [Utf8.decode_eq_some.mpr rfl, Option.getD_some]
  invalid := by
    intro bytes h
    rw [h, Option.getD_none, String.toList_singleton]
    exact List.mem_singleton_self _
  text := fun bytes => (Utf8.decode bytes).getD (String.singleton (Char.ofNat 0xFFFD))
  text_eq := fun _ _ => rfl

def mined (tx : Tx) : Indexer.MinedTx := ⟨tx, 0, 0, 0, 0⟩

end Sample

end Ocn
