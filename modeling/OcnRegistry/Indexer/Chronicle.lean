/-
  File:      OcnRegistry/Indexer/Chronicle.lean
  Subject:   WHAT THE JOURNAL TELLS: the events of the registry, and with them its answers.

  The journal has texts where the events have bytes, addresses, roles and numbers. Of a plain key
  nothing is lost, nor of a domain, a name or a url that is a text without NUL characters
  (Indexer/Ids.lean), and of the rest never. So an entity tells the event it was made of, the order
  of blocks and logs puts the events of a journal in the one order they can have happened in, and
  the registry can be played back from them (Registry/Replay.lean).

  * `partyEvent_tells` -- the entity of a party event with a plain key and texts tells the event;
  * `logs_of_journal` -- equal journals are of equal logs, in the same order;
  * `journal_answers` -- so two registries whose subgraphs keep the same journal answer every lookup
    alike.
-/
import OcnRegistry.Indexer.Journal
import OcnRegistry.Registry.Replay
import Mathlib.Data.List.Sort

namespace Ocn

open Transaction Packed

namespace Indexer

/-! ## 1. An entity tells its event -/

theorem getRole_injective : Function.Injective fun role => getRole (roleNumber role) := by
  intro r r'
  cases r <;> cases r' <;> decide

theorem getPaymentStatus_injective :
    Function.Injective fun status => getPaymentStatus (paymentStatusNumber status) := by
  intro s s'
  cases s <;> cases s' <;> decide

theorem getCvStatus_injective :
    Function.Injective fun status => getCvStatus (cvStatusNumber status) := by
  intro s s'
  cases s <;> cases s' <;> decide

/-- Two logs with one id, from one block, and with the same event are one. -/
theorem log_eq {a b : ChainLog} (ha : a.logIndex < 2 ^ 32) (hb : b.logIndex < 2 ^ 32)
    (hid : a.entityId = b.entityId) (hblock : a.blockNumber = b.blockNumber)
    (htime : a.blockTimestamp = b.blockTimestamp) (hevent : a.event = b.event) : a = b := by
  obtain ⟨⟨hash, index, block, time⟩, event⟩ := a
  obtain ⟨⟨hash', index', block', time'⟩, event'⟩ := b
  obtain ⟨hhash, hindex⟩ := Prod.mk.inj (entityId_injective ha hb hid)
  dsimp only at hhash hindex hblock htime hevent
  rw [hhash, hindex, hblock, htime, hevent]

/-- The key of a party event. -/
def eventKey : Event → Option (Bytes2 × Bytes3)
  | .partyUpdate countryCode partyId .. => some (countryCode, partyId)
  | .partyDelete countryCode partyId .. => some (countryCode, partyId)
  | _ => none

/-- The domain of a node's event, the name and the url of a party's. -/
def eventTexts : Event → List Bytes
  | .operatorUpdate _ domain => [domain]
  | .partyUpdate _ _ _ _ name url .. => [name, url]
  | .partyDelete _ _ _ _ name url .. => [name, url]
  | _ => []

section Tells

variable {B : LossyUtf8} {a b : ChainLog}

/-- The log is about a plain key, if it is about a key. -/
def ChainLog.Plain (log : ChainLog) : Prop :=
  ∀ e k, log.event = .registry e → eventKey e = some k → PlainKey k.1 k.2

/-- What the log says in texts is texts without NUL characters. -/
def ChainLog.Legible (log : ChainLog) : Prop :=
  ∀ e, log.event = .registry e → ∀ bytes ∈ eventTexts e, IsPlainText bytes

/-- The name and the url of a legible party event. -/
theorem ChainLog.Legible.pair {log : ChainLog} {e : Event} {name url : Bytes}
    (h : log.Legible) (hevent : log.event = .registry e) (htexts : eventTexts e = [name, url]) :
    IsPlainText name ∧ IsPlainText url := by
  have hall := h e hevent
  rw [htexts, List.forall_mem_cons, List.forall_mem_singleton] at hall
  exact hall

/-- **The entity of a party event tells the event**, if the key and the texts are plain. -/
theorem partyEvent_tells {o o' : Origin} {countryCode countryCode' : Bytes2}
    {partyId partyId' : Bytes3} {party party' : Address} {roles roles' : List Role}
    {name name' url url' : Bytes} {status status' : PaymentStatus} {cv cv' : CvStatus}
    {active active' : Bool} (hplain : PlainKey countryCode partyId)
    (htexts : IsPlainText name ∧ IsPlainText url) (htexts' : IsPlainText name' ∧ IsPlainText url')
    (h : partyEvent B o' countryCode' partyId' party' roles' name' url' status' cv' active' =
      partyEvent B o countryCode partyId party roles name url status cv active) :
    (o'.entityId = o.entityId ∧ o'.blockNumber = o.blockNumber ∧
      o'.blockTimestamp = o.blockTimestamp) ∧
    countryCode' = countryCode ∧ partyId' = partyId ∧ party' = party ∧ roles' = roles ∧
      name' = name ∧ url' = url ∧ status' = status ∧ cv' = cv ∧ active' = active := by
  injection h with hid hc hp ha hr hn hu hs hv hact hblock htime
  exact ⟨⟨hid, hblock, htime⟩, hplain.1.unique hc, hplain.2.unique hp, toHexString_injective ha,
    List.map_injective_iff.mpr getRole_injective hr, htexts.1.unique htexts'.1 hn,
    htexts.2.unique htexts'.2 hu, getPaymentStatus_injective hs, getCvStatus_injective hv, hact⟩

theorem operatorUpdateOf_tells (ha : a.logIndex < 2 ^ 32) (hb : b.logIndex < 2 ^ 32)
    (hla : a.Legible) (hlb : b.Legible) {e : OperatorUpdate} (hea : operatorUpdateOf B a = some e)
    (heb : operatorUpdateOf B b = some e) : a = b := by
  unfold operatorUpdateOf at hea heb
  split at hea
  · rename_i operator domain heventa
    split at heb
    · rename_i operator' domain' heventb
      rw [← heb] at hea
      injection hea with hea
      injection hea with hid hop hdomain hblock htime
      have htext := hla _ heventa domain List.mem_cons_self
      have htext' := hlb _ heventb domain' List.mem_cons_self
      refine log_eq ha hb hid hblock htime ?_
      rw [heventa, heventb, hop, htext'.unique htext hdomain]
    · cases heb
  · cases hea

theorem partyUpdateOf_tells (ha : a.logIndex < 2 ^ 32) (hb : b.logIndex < 2 ^ 32)
    (hplain : a.Plain) (hla : a.Legible) (hlb : b.Legible) {e : PartyUpdate}
    (hea : partyUpdateOf B a = some e) (heb : partyUpdateOf B b = some e) : a = b := by
  unfold partyUpdateOf at hea heb
  split at hea
  · rename_i heventa
    split at heb
    · rename_i heventb
      rw [← hea] at heb
      injection heb with heb
      injection heb with hparty hop
      obtain ⟨⟨hid, hblock, htime⟩, rfl, rfl, rfl, rfl, rfl, rfl, rfl, rfl, rfl⟩ :=
        partyEvent_tells (hplain _ _ heventa rfl) (hla.pair heventa rfl) (hlb.pair heventb rfl)
          hparty
      refine log_eq ha hb hid.symm hblock.symm htime.symm ?_
      rw [heventa, heventb, hop]
    · cases heb
  · cases hea

theorem partyDeleteOf_tells (ha : a.logIndex < 2 ^ 32) (hb : b.logIndex < 2 ^ 32)
    (hplain : a.Plain) (hla : a.Legible) (hlb : b.Legible) {e : PartyDelete}
    (hea : partyDeleteOf B a = some e) (heb : partyDeleteOf B b = some e) : a = b := by
  unfold partyDeleteOf at hea heb
  split at hea
  · rename_i heventa
    split at heb
    · rename_i heventb
      rw [← hea] at heb
      injection heb with heb
      injection heb with hparty
      obtain ⟨⟨hid, hblock, htime⟩, rfl, rfl, rfl, rfl, rfl, rfl, rfl, rfl, rfl⟩ :=
        partyEvent_tells (hplain _ _ heventa rfl) (hla.pair heventa rfl) (hlb.pair heventb rfl)
          hparty
      refine log_eq ha hb hid.symm hblock.symm htime.symm ?_
      rw [heventa, heventb]
    · cases heb
  · cases hea

end Tells

/-! ## 2. The logs of the registry -/

/-- A log of the registry among the logs of the chain. -/
def Log.onChain (log : Log) : ChainLog := ⟨log.toOrigin, .registry log.event⟩

theorem onChain_injective : Function.Injective Log.onChain := by
  rintro ⟨o, e⟩ ⟨o', e'⟩ h
  injection h with ho he
  injection he with he
  dsimp only at ho he
  rw [ho, he]

/-- The order of a chain: by block, and by number in it. -/
def Before (a b : Log) : Prop :=
  a.blockNumber < b.blockNumber ∨ a.blockNumber = b.blockNumber ∧ a.logIndex < b.logIndex

instance : DecidableRel Before := fun a b =>
  inferInstanceAs (Decidable (a.blockNumber < b.blockNumber ∨
    a.blockNumber = b.blockNumber ∧ a.logIndex < b.logIndex))

instance : Std.Irrefl Before :=
  ⟨fun _ h => h.elim (Nat.lt_irrefl _) fun h => Nat.lt_irrefl _ h.2⟩

instance : Std.Antisymm Before := by
  refine ⟨fun a b hab hba => ?_⟩
  unfold Before at hab hba
  omega

/-- **The logs of a run in their order**, at places of their own. -/
structure Chronicle (logs : List Log) : Prop where
  placed : Placed (logs.map Log.onChain)
  ordered : logs.Pairwise Before

/-- Every party event is about a plain key. -/
def PlainLogs (logs : List Log) : Prop :=
  ∀ log ∈ logs, ∀ k, eventKey log.event = some k → PlainKey k.1 k.2

/-- Every domain, name and url in the logs is a text without NUL characters. -/
def LegibleLogs (logs : List Log) : Prop :=
  ∀ log ∈ logs, ∀ bytes ∈ eventTexts log.event, IsPlainText bytes

/-- **The journals agree** on the entities of operators and parties. -/
structure SameJournal (g g' : Subgraph) : Prop where
  operatorUpdates : g'.operatorUpdates = g.operatorUpdates
  partyUpdates : g'.partyUpdates = g.partyUpdates
  partyDeletes : g'.partyDeletes = g.partyDeletes

/-- Logs are as plain and as legible on the chain. -/
theorem PlainLogs.onChain {logs : List Log} (h : PlainLogs logs) :
    ∀ w ∈ logs.map Log.onChain, w.Plain := by
  intro w hw e k hevent hk
  obtain ⟨log, hlog, rfl⟩ := List.mem_map.mp hw
  cases hevent
  exact h log hlog k hk

theorem LegibleLogs.onChain {logs : List Log} (h : LegibleLogs logs) :
    ∀ w ∈ logs.map Log.onChain, w.Legible := by
  intro w hw e hevent bytes hbytes
  obtain ⟨log, hlog, rfl⟩ := List.mem_map.mp hw
  cases hevent
  exact h log hlog bytes hbytes

theorem feed_onChain (B : LossyUtf8) (logs : List Log) :
    (feed B (logs.map Log.onChain)).subgraph = logs.foldl (handle B) Subgraph.empty := by
  suffices hall : ∀ g : Store, ((logs.map Log.onChain).foldl (handleChain B) g).subgraph =
      logs.foldl (handle B) g.subgraph from hall Store.empty
  induction logs with
  | nil => exact fun _ => rfl
  | cons log logs ih => exact fun g => ih _

/-! ## 3. Equal journals -/

section Equal

variable {B : LossyUtf8} {logs logs' : List Log}

/-- A log about a node or a party is in the one list if it is in the other. -/
theorem mem_iff_of_journal (h : Chronicle logs) (h' : Chronicle logs') (hplain : PlainLogs logs)
    (htexts : LegibleLogs logs) (htexts' : LegibleLogs logs')
    (hsame : SameJournal (logs.foldl (handle B) Subgraph.empty)
      (logs'.foldl (handle B) Subgraph.empty)) {log : Log}
    (hlog : Observer.Concerns log.event = true) : log ∈ logs ↔ log ∈ logs' := by
  have hJ := journalOf_feed B h.placed
  have hJ' := journalOf_feed B h'.placed
  have hchain : ∀ l : List Log, log.onChain ∈ l.map Log.onChain ↔ log ∈ l := fun l =>
    List.mem_map_of_injective onChain_injective
  have hfits := h.placed.fits
  have hfits' := h'.placed.fits
  have hkey := hplain.onChain
  have hread := htexts.onChain
  have hread' := htexts'.onChain
  rw [← hchain logs, ← hchain logs']
  have hU := hJ.operatorUpdates
  have hU' := hJ'.operatorUpdates
  have hP := hJ.partyUpdates
  have hP' := hJ'.partyUpdates
  have hD := hJ.partyDeletes
  have hD' := hJ'.partyDeletes
  rw [feed_onChain] at hU hU' hP hP' hD hD'
  rw [hsame.operatorUpdates] at hU'
  rw [hsame.partyUpdates] at hP'
  rw [hsame.partyDeletes] at hD'
  obtain ⟨origin, event⟩ := log
  cases event with
  | operatorUpdate =>
      exact hU.tells hU' (fun w hw w' hw' e he he' =>
        operatorUpdateOf_tells (hfits w hw) (hfits' w' hw') (hread w hw) (hread' w' hw') he he') rfl
  | partyUpdate =>
      exact hP.tells hP' (fun w hw w' hw' e he he' =>
        partyUpdateOf_tells (hfits w hw) (hfits' w' hw') (hkey w hw) (hread w hw) (hread' w' hw') he
          he') rfl
  | partyDelete =>
      exact hD.tells hD' (fun w hw w' hw' e he he' =>
        partyDeleteOf_tells (hfits w hw) (hfits' w' hw') (hkey w hw) (hread w hw) (hread' w' hw') he
          he') rfl
  | ownershipTransferred => cases hlog
  | partyRegistrationValidatorUpdated => cases hlog

/-- **Equal journals are of equal logs**, in the same order. -/
theorem logs_of_journal (h : Chronicle logs) (h' : Chronicle logs') (hplain : PlainLogs logs)
    (htexts : LegibleLogs logs) (htexts' : LegibleLogs logs')
    (hsame : SameJournal (logs.foldl (handle B) Subgraph.empty)
      (logs'.foldl (handle B) Subgraph.empty)) :
    logs.filter (fun log => Observer.Concerns log.event) =
      logs'.filter fun log => Observer.Concerns log.event := by
  refine (h.ordered.sublist List.filter_sublist).eq_of_mem_iff
    (h'.ordered.sublist List.filter_sublist) fun log => ?_
  rw [List.mem_filter, List.mem_filter]
  exact and_congr_left fun hlog => mem_iff_of_journal h h' hplain htexts htexts' hsame hlog

end Equal

/-! ## 4. The answers -/

/-- The logs of a run. -/
def logsOf (B : LossyUtf8) (X : Crypto) (D : Deployment) (ts : List MinedTx) : List Log :=
  (machine B X).history ⟨D.start, Subgraph.empty⟩ ts

/-- **The journal answers what the registry answers**: two registries, deployed and called by whom
    ever, whose subgraphs keep the same entities of events answer every lookup alike, if the logs
    are at places of their own, in their order, those of the first about plain keys, and all
    domains, names and urls texts without NUL characters; the lookup by key, as far as the payment
    managers answer alike. -/
theorem journal_answers (B : LossyUtf8) (X X' : Crypto) (D D' : Deployment) (ts ts' : List MinedTx)
    (h : Chronicle (logsOf B X D ts)) (h' : Chronicle (logsOf B X' D' ts'))
    (hplain : PlainLogs (logsOf B X D ts)) (htexts : LegibleLogs (logsOf B X D ts))
    (htexts' : LegibleLogs (logsOf B X' D' ts'))
    (hsame : SameJournal (run B X D ts).subgraph (run B X' D' ts').subgraph) :
    (run B X D ts).registry.SameAnswers (run B X' D' ts').registry := by
  obtain ⟨hregistry, hsubgraph, hevents⟩ := index_run B X D ts
  obtain ⟨hregistry', hsubgraph', hevents'⟩ := index_run B X' D' ts'
  rw [hsubgraph, hsubgraph'] at hsame
  have hlogs := logs_of_journal h h' hplain htexts htexts' hsame
  rw [hregistry, hregistry']
  refine sameAnswers_of_events ?_
  unfold Deployment.history
  rw [← hevents, ← hevents', List.filter_map, List.filter_map]
  exact congrArg (List.map _) hlogs.symm

end Indexer

namespace Sample

/-- A node is set and a party registers; in the second run a stranger asks for the domain too. -/
def publishedOnce : List Indexer.MinedTx :=
  [⟨tx operator (.setNode domain), 7, 0, 10, 100⟩,
    ⟨tx party (register party 0x4445 0x4D5350), 8, 0, 11, 112⟩]

def publishedAmidst : List Indexer.MinedTx :=
  [⟨tx operator (.setNode domain), 7, 0, 10, 100⟩, ⟨tx stranger (.setNode domain), 9, 0, 11, 112⟩,
    ⟨tx party (register party 0x4445 0x4D5350), 8, 0, 11, 112⟩]

end Sample

namespace Indexer

/-- A refused transaction leaves no trace, and both registries answer alike. -/
theorem journal_answers_sample :
    let X := Sample.crypto []
    let D := Sample.deployment
    (run Sample.lossyUtf8 X D Sample.publishedOnce).registry.SameAnswers
      (run Sample.lossyUtf8 X D Sample.publishedAmidst).registry := by
  intro X D
  have hsame : logsOf Sample.lossyUtf8 X D Sample.publishedAmidst =
      logsOf Sample.lossyUtf8 X D Sample.publishedOnce := by decide +kernel
  have hplaced : Placed ((logsOf Sample.lossyUtf8 X D Sample.publishedOnce).map Log.onChain) :=
    ⟨by decide +kernel, by decide +kernel⟩
  have hchronicle : Chronicle (logsOf Sample.lossyUtf8 X D Sample.publishedOnce) :=
    ⟨hplaced, by decide +kernel⟩
  have hplain : PlainLogs (logsOf Sample.lossyUtf8 X D Sample.publishedOnce) := by
    have hkeys : (logsOf Sample.lossyUtf8 X D Sample.publishedOnce).filterMap
        (fun log => eventKey log.event) = [(0x4445, 0x4D5350)] := by decide +kernel
    intro log hlog k hk
    have hmem : k ∈ (logsOf Sample.lossyUtf8 X D Sample.publishedOnce).filterMap
        (fun log => eventKey log.event) := List.mem_filterMap.mpr ⟨log, hlog, hk⟩
    rw [hkeys, List.mem_singleton] at hmem
    rw [hmem]
    decide
  have htexts : LegibleLogs (logsOf Sample.lossyUtf8 X D Sample.publishedOnce) := by
    have hall : (logsOf Sample.lossyUtf8 X D Sample.publishedOnce).flatMap
        (fun log => eventTexts log.event) = [Sample.domain, utf8 "Company", utf8 ""] := by
      decide +kernel
    have hplainTexts : ∀ bytes ∈ [Sample.domain, utf8 "Company", utf8 ""], IsPlainText bytes := by
      simp only [List.forall_mem_cons, List.not_mem_nil, false_imp_iff, implies_true, and_true]
      exact ⟨⟨⟨_, rfl⟩, by decide⟩, ⟨⟨_, rfl⟩, by decide⟩, ⟨⟨_, rfl⟩, by decide⟩⟩
    intro log hlog bytes hbytes
    exact hplainTexts bytes (hall ▸ List.mem_flatMap.mpr ⟨log, hlog, hbytes⟩)
  refine journal_answers Sample.lossyUtf8 X X D D _ _ hchronicle (hsame ▸ hchronicle) hplain htexts
    (hsame ▸ htexts) ?_
  obtain ⟨_, hsubgraph, _⟩ := index_run Sample.lossyUtf8 X D Sample.publishedOnce
  obtain ⟨_, hsubgraph', _⟩ := index_run Sample.lossyUtf8 X D Sample.publishedAmidst
  have hequal : (run Sample.lossyUtf8 X D Sample.publishedAmidst).subgraph =
      (run Sample.lossyUtf8 X D Sample.publishedOnce).subgraph := by
    rw [hsubgraph, hsubgraph']
    exact congrArg (List.foldl _ _) hsame
  rw [hequal]
  exact ⟨rfl, rfl, rfl⟩

end Indexer

end Ocn
