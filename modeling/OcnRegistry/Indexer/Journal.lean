/-
  File:      OcnRegistry/Indexer/Journal.lean
  Subject:   THE JOURNAL OF THE SUBGRAPH: one entity for each event, of every contract it watches.

  Besides the entities of operators and parties the subgraph keeps, under the transaction's hash
  and the number of the log, what each event said. Here are the handlers that do only this, of
  erc-1967-proxy.ts, euro-stable-coin.ts, ocn-governor.ts and ocn-certificate-verifier.ts, and those
  of `AccessControl` in ocn-registry-oli.ts. They differ in the entity type; an entity has the
  parameters of its event, which are kept together here, a `string` decoded and all else as it
  came, and where it comes from. Entities of certificates keep the block's number only.

  The schema calls these entities immutable: the graph's node refuses to save one a second time.

  * `entityId_injective` -- the id tells transaction and number of the log;
  * `journal_exact` -- logs at different places are all kept, with what they said as the subgraph
    decodes it, each once, and under ids that no entity of any type had before.
-/
import OcnRegistry.Library.Journal
import OcnRegistry.Indexer.Mirror

namespace Ocn

open Packed

namespace Indexer

/-! ## 1. The other contracts' events -/

/-- The events of the other data sources, and of `AccessControl`. A `string` of an event is bytes
    on the chain and a text in an entity. -/
inductive SourceEvent (Text : Type) where
  | roleAdminChanged (role previousAdminRole newAdminRole : Bytes32)
  | roleGranted (role : Bytes32) (account sender : Address)
  | roleRevoked (role : Bytes32) (account sender : Address)
  | upgraded (implementation : Address)
  | approval (owner spender : Address) (value : Nat)
  | transfer (holder recipient : Address) (value : Nat)
  | eip712DomainChanged
  | proposalCanceled (proposalId : Nat)
  | proposalCreated (proposalId : Nat) (proposer : Address) (targets : List Address)
      (values : List Nat) (signatures : List Text) (calldatas : List Bytes)
      (voteStart voteEnd : Nat) (description : Text)
  | proposalExecuted (proposalId : Nat)
  | proposalQueued (proposalId etaSeconds : Nat)
  | proposalThresholdSet (oldProposalThreshold newProposalThreshold : Nat)
  | quorumNumeratorUpdated (oldQuorumNumerator newQuorumNumerator : Nat)
  | timelockChange (oldTimelock newTimelock : Address)
  | voteCast (voter : Address) (proposalId support weight : Nat) (reason : Text)
  | voteCastWithParams (voter : Address) (proposalId support weight : Nat) (reason : Text)
      (params : Bytes)
  | votingDelaySet (oldVotingDelay newVotingDelay : Nat)
  | votingPeriodSet (oldVotingPeriod newVotingPeriod : Nat)
  | empVerified (signer : Address) (identifier name marktfunktion lieferant bilanzkreis : Text)
      (owner : Address) (vatid billingAddress billingCity billingPostalCode billingCountry
      billingEmail : Text)
  | cpoVerified (signer : Address) (identifier name : Text) (owner : Address)
  | otherVerified (signer : Address) (identifier name : Text) (owner : Address)
  deriving DecidableEq, Repr

/-- The entity types of these events. -/
inductive EntityType where
  | RoleAdminChanged | RoleGranted | RoleRevoked | Upgraded | Approval | Transfer
  | EIP712DomainChanged | ProposalCanceled | ProposalCreated | ProposalExecuted | ProposalQueued
  | ProposalThresholdSet | QuorumNumeratorUpdated | TimelockChange | VoteCast | VoteCastWithParams
  | VotingDelaySet | VotingPeriodSet | EMPVerified | CPOVerified | OtherVerified
  deriving DecidableEq, Repr

/-- What the graph keeps of an event: its parameters and where it comes from. -/
structure EventEntity where
  id : Bytes
  params : SourceEvent String
  blockNumber : Nat
  /-- `blockTimestamp` and `transactionHash`, for the types that have them. -/
  stamp : Option (Nat × Bytes32)
  deriving DecidableEq

/-- The entities of these types, by type and id. -/
abbrev Journals := EntityType → Bytes → Option EventEntity

section Handlers

variable (B : LossyUtf8) (g : Journals) (event : Origin)

/-- `new`, the assignments and `save` of a handler. -/
def saveEntity (type : EntityType) (entity : EventEntity) : Journals :=
  Function.update g type (Function.update (g type) entity.id (some entity))

def saveEvent (type : EntityType) (params : SourceEvent String) : Journals :=
  saveEntity g type ⟨event.entityId, params, event.blockNumber,
    some (event.blockTimestamp, event.transactionHash)⟩

def saveCertificate (type : EntityType) (params : SourceEvent String) : Journals :=
  saveEntity g type ⟨event.entityId, params, event.blockNumber, none⟩

/-! ## 2. The handlers -/

def handleRoleAdminChanged (role previousAdminRole newAdminRole : Bytes32) : Journals :=
  saveEvent g event .RoleAdminChanged (.roleAdminChanged role previousAdminRole newAdminRole)

def handleRoleGranted (role : Bytes32) (account sender : Address) : Journals :=
  saveEvent g event .RoleGranted (.roleGranted role account sender)

def handleRoleRevoked (role : Bytes32) (account sender : Address) : Journals :=
  saveEvent g event .RoleRevoked (.roleRevoked role account sender)

def handleUpgraded (implementation : Address) : Journals :=
  saveEvent g event .Upgraded (.upgraded implementation)

def handleApproval (owner spender : Address) (value : Nat) : Journals :=
  saveEvent g event .Approval (.approval owner spender value)

def handleTransfer (holder recipient : Address) (value : Nat) : Journals :=
  saveEvent g event .Transfer (.transfer holder recipient value)

def handleEIP712DomainChanged : Journals :=
  saveEvent g event .EIP712DomainChanged .eip712DomainChanged

def handleProposalCanceled (proposalId : Nat) : Journals :=
  saveEvent g event .ProposalCanceled (.proposalCanceled proposalId)

def handleProposalCreated (proposalId : Nat) (proposer : Address) (targets : List Address)
    (values : List Nat) (signatures calldatas : List Bytes) (voteStart voteEnd : Nat)
    (description : Bytes) : Journals :=
  saveEvent g event .ProposalCreated (.proposalCreated proposalId proposer targets values
    (signatures.map B.text) calldatas voteStart voteEnd (B.text description))

def handleProposalExecuted (proposalId : Nat) : Journals :=
  saveEvent g event .ProposalExecuted (.proposalExecuted proposalId)

def handleProposalQueued (proposalId etaSeconds : Nat) : Journals :=
  saveEvent g event .ProposalQueued (.proposalQueued proposalId etaSeconds)

def handleProposalThresholdSet (oldProposalThreshold newProposalThreshold : Nat) : Journals :=
  saveEvent g event .ProposalThresholdSet
    (.proposalThresholdSet oldProposalThreshold newProposalThreshold)

def handleQuorumNumeratorUpdated (oldQuorumNumerator newQuorumNumerator : Nat) : Journals :=
  saveEvent g event .QuorumNumeratorUpdated
    (.quorumNumeratorUpdated oldQuorumNumerator newQuorumNumerator)

def handleTimelockChange (oldTimelock newTimelock : Address) : Journals :=
  saveEvent g event .TimelockChange (.timelockChange oldTimelock newTimelock)

def handleVoteCast (voter : Address) (proposalId support weight : Nat) (reason : Bytes) :
    Journals :=
  saveEvent g event .VoteCast (.voteCast voter proposalId support weight (B.text reason))

def handleVoteCastWithParams (voter : Address) (proposalId support weight : Nat)
    (reason params : Bytes) : Journals :=
  saveEvent g event .VoteCastWithParams
    (.voteCastWithParams voter proposalId support weight (B.text reason) params)

def handleVotingDelaySet (oldVotingDelay newVotingDelay : Nat) : Journals :=
  saveEvent g event .VotingDelaySet (.votingDelaySet oldVotingDelay newVotingDelay)

def handleVotingPeriodSet (oldVotingPeriod newVotingPeriod : Nat) : Journals :=
  saveEvent g event .VotingPeriodSet (.votingPeriodSet oldVotingPeriod newVotingPeriod)

def handleEMPVerified (signer : Address)
    (identifier name marktfunktion lieferant bilanzkreis : Bytes) (owner : Address)
    (vatid billingAddress billingCity billingPostalCode billingCountry billingEmail : Bytes) :
    Journals :=
  saveCertificate g event .EMPVerified (.empVerified signer (B.text identifier) (B.text name)
    (B.text marktfunktion) (B.text lieferant) (B.text bilanzkreis) owner (B.text vatid)
    (B.text billingAddress) (B.text billingCity) (B.text billingPostalCode)
    (B.text billingCountry) (B.text billingEmail))

def handleCPOVerified (signer : Address) (identifier name : Bytes) (owner : Address) : Journals :=
  saveCertificate g event .CPOVerified (.cpoVerified signer (B.text identifier) (B.text name) owner)

def handleOtherVerified (signer : Address) (identifier name : Bytes) (owner : Address) :
    Journals :=
  saveCertificate g event .OtherVerified
    (.otherVerified signer (B.text identifier) (B.text name) owner)

/-- The handler of an event, as the manifest names it. -/
def handleSource : SourceEvent Bytes → Journals
  | .roleAdminChanged role previous new => handleRoleAdminChanged g event role previous new
  | .roleGranted role account sender => handleRoleGranted g event role account sender
  | .roleRevoked role account sender => handleRoleRevoked g event role account sender
  | .upgraded implementation => handleUpgraded g event implementation
  | .approval owner spender value => handleApproval g event owner spender value
  | .transfer holder recipient value => handleTransfer g event holder recipient value
  | .eip712DomainChanged => handleEIP712DomainChanged g event
  | .proposalCanceled proposalId => handleProposalCanceled g event proposalId
  | .proposalCreated proposalId proposer targets values signatures calldatas voteStart voteEnd
      description =>
      handleProposalCreated B g event proposalId proposer targets values signatures calldatas
        voteStart voteEnd description
  | .proposalExecuted proposalId => handleProposalExecuted g event proposalId
  | .proposalQueued proposalId etaSeconds => handleProposalQueued g event proposalId etaSeconds
  | .proposalThresholdSet old new => handleProposalThresholdSet g event old new
  | .quorumNumeratorUpdated old new => handleQuorumNumeratorUpdated g event old new
  | .timelockChange old new => handleTimelockChange g event old new
  | .voteCast voter proposalId support weight reason =>
      handleVoteCast B g event voter proposalId support weight reason
  | .voteCastWithParams voter proposalId support weight reason params =>
      handleVoteCastWithParams B g event voter proposalId support weight reason params
  | .votingDelaySet old new => handleVotingDelaySet g event old new
  | .votingPeriodSet old new => handleVotingPeriodSet g event old new
  | .empVerified signer identifier name marktfunktion lieferant bilanzkreis owner vatid
      billingAddress billingCity billingPostalCode billingCountry billingEmail =>
      handleEMPVerified B g event signer identifier name marktfunktion lieferant bilanzkreis owner
        vatid billingAddress billingCity billingPostalCode billingCountry billingEmail
  | .cpoVerified signer identifier name owner =>
      handleCPOVerified B g event signer identifier name owner
  | .otherVerified signer identifier name owner =>
      handleOtherVerified B g event signer identifier name owner

end Handlers

/-! ## 3. One store for all data sources -/

structure Store where
  subgraph : Subgraph
  journals : Journals

def Store.empty : Store := ⟨Subgraph.empty, fun _ _ => none⟩

inductive ChainEvent where
  | registry (event : Event)
  | source (event : SourceEvent Bytes)
  deriving DecidableEq, Repr

/-- An event of any of the contracts as it was emitted. -/
structure ChainLog extends Origin where
  event : ChainEvent
  deriving DecidableEq, Repr

def ChainLog.entityId (log : ChainLog) : Bytes := log.toOrigin.entityId

/-- Where a log is: no two logs of a chain are at one place. -/
def ChainLog.place (log : ChainLog) : Bytes32 × Nat := (log.transactionHash, log.logIndex)

def handleChain (B : LossyUtf8) (g : Store) (log : ChainLog) : Store :=
  match log.event with
  | .registry event => { g with subgraph := handle B g.subgraph ⟨log.toOrigin, event⟩ }
  | .source event => { g with journals := handleSource B g.journals log.toOrigin event }

def feed (B : LossyUtf8) (logs : List ChainLog) : Store := logs.foldl (handleChain B) Store.empty

/-- **The logs of a chain**: no two at one place, and every number fits its 32 bits. -/
structure Placed (logs : List ChainLog) : Prop where
  apart : (logs.map ChainLog.place).Nodup
  fits : ∀ log ∈ logs, log.logIndex < 2 ^ 32

/-! ## 4. Ids -/

/-- **The id tells the place.** -/
theorem entityId_injective {a b : Origin} (ha : a.logIndex < 2 ^ 32) (hb : b.logIndex < 2 ^ 32)
    (h : a.entityId = b.entityId) :
    (a.transactionHash, a.logIndex) = (b.transactionHash, b.logIndex) := by
  unfold Origin.entityId concatI32 at h
  obtain ⟨hhash, hindex⟩ := word_append_injective h
  have hword := congrArg BitVec.toNat (wordBytes_injective 4 (List.reverse_injective hindex))
  rw [BitVec.toNat_ofNat, BitVec.toNat_ofNat, Nat.mod_eq_of_lt ha, Nat.mod_eq_of_lt hb] at hword
  rw [hhash, hword]

theorem Placed.ids {logs : List ChainLog} (h : Placed logs) :
    (logs.map ChainLog.entityId).Nodup := by
  have hapart := List.pairwise_map.mp h.apart
  refine List.pairwise_map.mpr (hapart.imp_of_mem fun ha hb hne e => hne ?_)
  exact entityId_injective (h.fits _ ha) (h.fits _ hb) e

/-! ## 5. Entries -/

section Entries

variable (B : LossyUtf8) (log : ChainLog)

def operatorUpdateOf : Option OperatorUpdate :=
  match log.event with
  | .registry (.operatorUpdate operator domain) =>
      some ⟨log.entityId, operator, B.text domain, log.blockNumber, log.blockTimestamp,
        log.transactionHash⟩
  | _ => none

def ownershipTransferredOf : Option OwnershipTransferred :=
  match log.event with
  | .registry (.ownershipTransferred oldAdmin newAdmin) =>
      some ⟨log.entityId, oldAdmin, newAdmin, log.blockNumber, log.blockTimestamp,
        log.transactionHash⟩
  | _ => none

def partyUpdateOf : Option PartyUpdate :=
  match log.event with
  | .registry (.partyUpdate countryCode partyId partyAddress roles name url paymentStatus cvStatus
      active operatorAddress) =>
      some ⟨partyEvent B log.toOrigin countryCode partyId partyAddress roles name url paymentStatus
        cvStatus active, operatorAddress⟩
  | _ => none

def partyDeleteOf : Option PartyDelete :=
  match log.event with
  | .registry (.partyDelete countryCode partyId partyAddress roles name url paymentStatus cvStatus
      active) =>
      some ⟨partyEvent B log.toOrigin countryCode partyId partyAddress roles name url paymentStatus
        cvStatus active⟩
  | _ => none

end Entries

/-- The event with its texts shown in another way. -/
def SourceEvent.map {Text Text' : Type} (f : Text → Text') : SourceEvent Text → SourceEvent Text'
  | .roleAdminChanged role previous new => .roleAdminChanged role previous new
  | .roleGranted role account sender => .roleGranted role account sender
  | .roleRevoked role account sender => .roleRevoked role account sender
  | .upgraded implementation => .upgraded implementation
  | .approval owner spender value => .approval owner spender value
  | .transfer holder recipient value => .transfer holder recipient value
  | .eip712DomainChanged => .eip712DomainChanged
  | .proposalCanceled proposalId => .proposalCanceled proposalId
  | .proposalCreated proposalId proposer targets values signatures calldatas voteStart voteEnd
      description =>
      .proposalCreated proposalId proposer targets values (signatures.map f) calldatas voteStart
        voteEnd (f description)
  | .proposalExecuted proposalId => .proposalExecuted proposalId
  | .proposalQueued proposalId etaSeconds => .proposalQueued proposalId etaSeconds
  | .proposalThresholdSet old new => .proposalThresholdSet old new
  | .quorumNumeratorUpdated old new => .quorumNumeratorUpdated old new
  | .timelockChange old new => .timelockChange old new
  | .voteCast voter proposalId support weight reason =>
      .voteCast voter proposalId support weight (f reason)
  | .voteCastWithParams voter proposalId support weight reason params =>
      .voteCastWithParams voter proposalId support weight (f reason) params
  | .votingDelaySet old new => .votingDelaySet old new
  | .votingPeriodSet old new => .votingPeriodSet old new
  | .empVerified signer identifier name marktfunktion lieferant bilanzkreis owner vatid
      billingAddress billingCity billingPostalCode billingCountry billingEmail =>
      .empVerified signer (f identifier) (f name) (f marktfunktion) (f lieferant) (f bilanzkreis)
        owner (f vatid) (f billingAddress) (f billingCity) (f billingPostalCode) (f billingCountry)
        (f billingEmail)
  | .cpoVerified signer identifier name owner =>
      .cpoVerified signer (f identifier) (f name) owner
  | .otherVerified signer identifier name owner =>
      .otherVerified signer (f identifier) (f name) owner

/-- The entity type of an event. -/
def SourceEvent.entityType {Text : Type} : SourceEvent Text → EntityType
  | .roleAdminChanged .. => .RoleAdminChanged
  | .roleGranted .. => .RoleGranted
  | .roleRevoked .. => .RoleRevoked
  | .upgraded .. => .Upgraded
  | .approval .. => .Approval
  | .transfer .. => .Transfer
  | .eip712DomainChanged => .EIP712DomainChanged
  | .proposalCanceled .. => .ProposalCanceled
  | .proposalCreated .. => .ProposalCreated
  | .proposalExecuted .. => .ProposalExecuted
  | .proposalQueued .. => .ProposalQueued
  | .proposalThresholdSet .. => .ProposalThresholdSet
  | .quorumNumeratorUpdated .. => .QuorumNumeratorUpdated
  | .timelockChange .. => .TimelockChange
  | .voteCast .. => .VoteCast
  | .voteCastWithParams .. => .VoteCastWithParams
  | .votingDelaySet .. => .VotingDelaySet
  | .votingPeriodSet .. => .VotingPeriodSet
  | .empVerified .. => .EMPVerified
  | .cpoVerified .. => .CPOVerified
  | .otherVerified .. => .OtherVerified

/-- Entities of certificates have no time and no transaction. -/
def EntityType.stamp (type : EntityType) (event : Origin) : Option (Nat × Bytes32) :=
  if type = .EMPVerified ∨ type = .CPOVerified ∨ type = .OtherVerified then none
  else some (event.blockTimestamp, event.transactionHash)

def sourceEntityOf (B : LossyUtf8) (type : EntityType) (log : ChainLog) : Option EventEntity :=
  match log.event with
  | .source params =>
      if params.entityType = type then
        some ⟨log.entityId, params.map B.text, log.blockNumber, type.stamp log.toOrigin⟩
      else none
  | .registry _ => none

/-- **One entity, under the event's type**, with the event's texts decoded. -/
theorem handleSource_eq (B : LossyUtf8) (g : Journals) (event : Origin)
    (params : SourceEvent Bytes) :
    handleSource B g event params = saveEntity g params.entityType
      ⟨event.entityId, params.map B.text, event.blockNumber, params.entityType.stamp event⟩ := by
  cases params <;> rfl

/-! ## 6. What each handler saves -/

section Saves

variable {B : LossyUtf8}

/-- `handlePartyUpdate` saves its entity once, whatever else it writes. -/
theorem handlePartyUpdate_journal (g : Subgraph) (event : Origin) (countryCode : Bytes2)
    (partyId : Bytes3) (partyAddress : Address) (roles : List Role) (name url : Bytes)
    (paymentStatus : PaymentStatus) (cvStatus : CvStatus) (active : Bool)
    (operatorAddress : Address) :
    let g' := handlePartyUpdate B g event countryCode partyId partyAddress roles name url
      paymentStatus cvStatus active operatorAddress
    g'.operatorUpdates = g.operatorUpdates ∧ g'.ownershipTransfers = g.ownershipTransfers ∧
      g'.partyDeletes = g.partyDeletes ∧
      g'.partyUpdates = Function.update g.partyUpdates event.entityId
        (some ⟨partyEvent B event countryCode partyId partyAddress roles name url paymentStatus
          cvStatus active, operatorAddress⟩) := by
  unfold handlePartyUpdate
  dsimp only [partyEvent]
  cases g.operators (toHexString operatorAddress) with
  | none => exact ⟨rfl, rfl, rfl, rfl⟩
  | some operator => exact ⟨rfl, rfl, rfl, rfl⟩

theorem handlePartyDelete_journal (g : Subgraph) (event : Origin) (countryCode : Bytes2)
    (partyId : Bytes3) (partyAddress : Address) (roles : List Role) (name url : Bytes)
    (paymentStatus : PaymentStatus) (cvStatus : CvStatus) (active : Bool) :
    let g' := handlePartyDelete B g event countryCode partyId partyAddress roles name url
      paymentStatus cvStatus active
    g'.operatorUpdates = g.operatorUpdates ∧ g'.ownershipTransfers = g.ownershipTransfers ∧
      g'.partyUpdates = g.partyUpdates ∧
      g'.partyDeletes = Function.update g.partyDeletes event.entityId
        (some ⟨partyEvent B event countryCode partyId partyAddress roles name url paymentStatus
          cvStatus active⟩) := by
  unfold handlePartyDelete
  dsimp only [partyEvent]
  cases g.parties (B.toString (wordBytes 2 countryCode) ++ B.toString (wordBytes 3 partyId)) with
  | none => exact ⟨rfl, rfl, rfl, rfl⟩
  | some party => exact ⟨rfl, rfl, rfl, rfl⟩

theorem saves_operatorUpdates : Journal.Saves ChainLog.entityId (operatorUpdateOf B)
    (handleChain B) fun g => g.subgraph.operatorUpdates := by
  rintro g ⟨origin, event⟩
  cases event with
  | source => rfl
  | registry event =>
      cases event with
      | operatorUpdate | ownershipTransferred | partyRegistrationValidatorUpdated => rfl
      | partyUpdate => exact (handlePartyUpdate_journal ..).1
      | partyDelete => exact (handlePartyDelete_journal ..).1

theorem saves_ownershipTransfers : Journal.Saves ChainLog.entityId ownershipTransferredOf
    (handleChain B) fun g => g.subgraph.ownershipTransfers := by
  rintro g ⟨origin, event⟩
  cases event with
  | source => rfl
  | registry event =>
      cases event with
      | operatorUpdate | ownershipTransferred | partyRegistrationValidatorUpdated => rfl
      | partyUpdate => exact (handlePartyUpdate_journal ..).2.1
      | partyDelete => exact (handlePartyDelete_journal ..).2.1

theorem saves_partyUpdates : Journal.Saves ChainLog.entityId (partyUpdateOf B) (handleChain B)
    fun g => g.subgraph.partyUpdates := by
  rintro g ⟨origin, event⟩
  cases event with
  | source => rfl
  | registry event =>
      cases event with
      | operatorUpdate | ownershipTransferred | partyRegistrationValidatorUpdated => rfl
      | partyUpdate => exact (handlePartyUpdate_journal ..).2.2.2
      | partyDelete => exact (handlePartyDelete_journal ..).2.2.1

theorem saves_partyDeletes : Journal.Saves ChainLog.entityId (partyDeleteOf B) (handleChain B)
    fun g => g.subgraph.partyDeletes := by
  rintro g ⟨origin, event⟩
  cases event with
  | source => rfl
  | registry event =>
      cases event with
      | operatorUpdate | ownershipTransferred | partyRegistrationValidatorUpdated => rfl
      | partyUpdate => exact (handlePartyUpdate_journal ..).2.2.1
      | partyDelete => exact (handlePartyDelete_journal ..).2.2.2

theorem saves_source (type : EntityType) : Journal.Saves ChainLog.entityId (sourceEntityOf B type)
    (handleChain B) fun g => g.journals type := by
  rintro g ⟨origin, event⟩
  cases event with
  | registry => rfl
  | source params =>
      show handleSource B g.journals origin params type = _
      rw [handleSource_eq]
      unfold saveEntity sourceEntityOf
      dsimp only
      by_cases h : params.entityType = type
      · subst h
        rw [if_pos rfl, Function.update_self]
        rfl
      · rw [if_neg h, Function.update_of_ne (Ne.symm h)]
        rfl

end Saves

/-! ## 7. The journal -/

/-- **The journal is the logs**: each type's entities are those of the type's logs, and no
    others. -/
structure JournalOf (B : LossyUtf8) (logs : List ChainLog) (g : Store) : Prop where
  operatorUpdates :
    Journal.Holds ChainLog.entityId (operatorUpdateOf B) logs g.subgraph.operatorUpdates
  ownershipTransfers :
    Journal.Holds ChainLog.entityId ownershipTransferredOf logs g.subgraph.ownershipTransfers
  partyUpdates : Journal.Holds ChainLog.entityId (partyUpdateOf B) logs g.subgraph.partyUpdates
  partyDeletes : Journal.Holds ChainLog.entityId (partyDeleteOf B) logs g.subgraph.partyDeletes
  sources : ∀ type,
    Journal.Holds ChainLog.entityId (sourceEntityOf B type) logs (g.journals type)

/-- No entity of any type has this id. -/
structure IdFree (g : Store) (id : Bytes) : Prop where
  operatorUpdates : g.subgraph.operatorUpdates id = none
  ownershipTransfers : g.subgraph.ownershipTransfers id = none
  partyUpdates : g.subgraph.partyUpdates id = none
  partyDeletes : g.subgraph.partyDeletes id = none
  sources : ∀ type, g.journals type id = none

theorem journalOf_feed (B : LossyUtf8) {logs : List ChainLog} (h : Placed logs) :
    JournalOf B logs (feed B logs) where
  operatorUpdates := Journal.holds_run saves_operatorUpdates (fun _ => rfl) logs h.ids
  ownershipTransfers := Journal.holds_run saves_ownershipTransfers (fun _ => rfl) logs h.ids
  partyUpdates := Journal.holds_run saves_partyUpdates (fun _ => rfl) logs h.ids
  partyDeletes := Journal.holds_run saves_partyDeletes (fun _ => rfl) logs h.ids
  sources := fun type => Journal.holds_run (saves_source type) (fun _ => rfl) logs h.ids

theorem idFree_before (B : LossyUtf8) {pre post : List ChainLog} {log : ChainLog}
    (h : Placed (pre ++ log :: post)) : IdFree (feed B pre) log.entityId where
  operatorUpdates := Journal.free_before saves_operatorUpdates (fun _ => rfl) h.ids
  ownershipTransfers := Journal.free_before saves_ownershipTransfers (fun _ => rfl) h.ids
  partyUpdates := Journal.free_before saves_partyUpdates (fun _ => rfl) h.ids
  partyDeletes := Journal.free_before saves_partyDeletes (fun _ => rfl) h.ids
  sources := fun type => Journal.free_before (saves_source type) (fun _ => rfl) h.ids

/-- **The journal is exact**: after any logs of the watched contracts, at places of their own, the
    entities of each type are those of the logs of that type, with what they said and their texts as
    the subgraph decodes them, and no others; and when a log came, no entity of any type had its
    id. -/
theorem journal_exact (B : LossyUtf8) (logs : List ChainLog) (h : Placed logs) :
    JournalOf B logs (feed B logs) ∧
      ∀ pre log post, logs = pre ++ log :: post → IdFree (feed B pre) log.entityId := by
  refine ⟨journalOf_feed B h, fun pre log post e => ?_⟩
  rw [e] at h
  exact idFree_before B h

end Indexer

namespace Sample

/-- A node, a transfer of tokens in the same transaction, and a vote. -/
def chainLogs : List Indexer.ChainLog :=
  [⟨⟨7, 0, 10, 100⟩, .registry (.operatorUpdate operator.address domain)⟩,
    ⟨⟨7, 1, 10, 100⟩, .source (.transfer party.address 0x50 100)⟩,
    ⟨⟨8, 0, 11, 112⟩, .source (.voteCast stranger.address 1 1 5 [])⟩]

end Sample

namespace Indexer

/-- The transfer and the vote are found under their types, and the transfer is no vote. -/
theorem journal_exact_sample :
    let g := feed Sample.lossyUtf8 Sample.chainLogs
    let id := Origin.entityId ⟨7, 1, 10, 100⟩
    g.journals .Transfer id =
        some ⟨id, .transfer Sample.party.address 0x50 100, 10, some (100, 7)⟩ ∧
      g.journals .VoteCast id = none := by
  intro g id
  have hplaced : Placed Sample.chainLogs := ⟨by decide, by decide⟩
  obtain ⟨hJ, _⟩ := journal_exact Sample.lossyUtf8 Sample.chainLogs hplaced
  refine ⟨(hJ.sources .Transfer id _).mpr ⟨_, List.mem_cons_of_mem _ List.mem_cons_self, rfl, rfl⟩,
    ?_⟩
  cases hvote : g.journals .VoteCast id with
  | none => rfl
  | some entity =>
      obtain ⟨log, hlog, hid, hentity⟩ := (hJ.sources .VoteCast id entity).mp hvote
      have hplace := entityId_injective (hplaced.fits log hlog) (by decide) hid
      have hall : ∀ log ∈ Sample.chainLogs, log.place = (7, 1) →
          sourceEntityOf Sample.lossyUtf8 .VoteCast log = none := by decide
      rw [hall log hlog hplace] at hentity
      cases hentity

end Indexer

end Ocn
