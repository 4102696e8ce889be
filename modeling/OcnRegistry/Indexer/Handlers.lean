/-
  File:      OcnRegistry/Indexer/Handlers.lean
  Subject:   THE SUBGRAPH: its entities and the handlers of the registry's events. Translated from
             thegraph-indexer/ocn-registry-oli/src/ocn-registry-oli.ts, function by function; no
             invariant here.

  A store of entities is a function from ids; `load` reads it and `save` writes it, and the store
  takes an entity as it is. Left out: the certificate entities, which no handler creates, and the
  events of `AccessControl`, whose handlers write neither operators nor parties.

  How bytes become texts is a parameter. A `string` of an event reaches its handler decoded from
  UTF-8, with the replacement character for what is no text; `Bytes.toString` of the graph library
  decodes in the same way and trims trailing NUL characters. What the store does with a NUL
  character inside of a text is left open.
-/
import OcnRegistry.Library.Utf8
import OcnRegistry.Registry.Contract
import Mathlib.Data.List.DropRight

namespace Ocn

open Packed

namespace Indexer

/-! ## 1. The graph library -/

/-- **UTF-8 decoding that never fails**: texts as they are, and a replacement character in
    what is no text. `text` is a `string` of an event as an entity keeps it. -/
structure LossyUtf8 where
  lossy : Bytes → String
  valid : ∀ text, lossy (Utf8.encode text) = text
  invalid : ∀ bytes, Utf8.decode bytes = none → Char.ofNat 0xFFFD ∈ (lossy bytes).toList
  text : Bytes → String
  text_eq : ∀ bytes, Char.ofNat 0 ∉ (lossy bytes).toList → text bytes = lossy bytes

/-- `Bytes.toString`. -/
def LossyUtf8.toString (B : LossyUtf8) (bytes : Bytes) : String :=
  String.ofList ((B.lossy bytes).toList.rdropWhile fun c => c = Char.ofNat 0)

/-- The digit of a number below 16. -/
def hexDigit (n : Nat) : Char := "0123456789abcdef".toList.getD n 'f'

def byteHex (b : Byte) : List Char := [hexDigit (b.toNat / 16), hexDigit (b.toNat % 16)]

/-- `Address.toHexString`. -/
def toHexString (a : Address) : String :=
  "0x" ++ String.ofList ((wordBytes 20 a).flatMap byteHex)

/-- `Bytes.concatI32`: the four bytes of the number, least significant first. -/
def concatI32 (bytes : Bytes) (n : Nat) : Bytes :=
  bytes ++ (wordBytes 4 (BitVec.ofNat 32 n)).reverse

/-! ## 2. Names -/

/-- The number of a role in an event. -/
def roleNumber : Role → Nat
  | .cpo => 0
  | .emsp => 1
  | .nap => 2
  | .nsp => 3
  | .other => 4
  | .scsp => 5
  | .hub => 6

def paymentStatusNumber : PaymentStatus → Nat
  | .pending => 0
  | .paymentUpToDate => 1
  | .insufficientFunds => 2
  | .inactive => 3

def cvStatusNumber : CvStatus → Nat
  | .notVerified => 0
  | .approved => 1
  | .failed => 2

def getPaymentStatus (status : Nat) : String :=
  if status = 0 then "NOT_PAID"
  else if status = 1 then "PAID"
  else if status = 2 then "PENDING"
  else "UNKNOWN"

def getCvStatus (status : Nat) : String :=
  if status = 0 then "NOT_VERIFIED"
  else if status = 1 then "VERIFIED"
  else if status = 2 then "PENDING"
  else "UNKNOWN"

def getRole (role : Nat) : String :=
  if role = 0 then "CPO"
  else if role = 1 then "EMSP"
  else if role = 2 then "NAP"
  else if role = 3 then "NSP"
  else if role = 4 then "OTHER"
  else if role = 5 then "SCSP"
  else if role = 6 then "HUB"
  else "UNKNOWN"

/-! ## 3. Entities -/

/-- What a handler reads of an event besides its parameters. -/
structure Origin where
  transactionHash : Bytes32
  logIndex : Nat
  blockNumber : Nat
  blockTimestamp : Nat
  deriving DecidableEq, Repr

/-- An event as it was emitted. -/
structure Log extends Origin where
  event : Event
  deriving DecidableEq, Repr

/-- The id of the entity of one event. -/
def Origin.entityId (event : Origin) : Bytes :=
  concatI32 (wordBytes 32 event.transactionHash) event.logIndex

structure OperatorUpdate where
  id : Bytes
  operator : Address
  domain : String
  blockNumber : Nat
  blockTimestamp : Nat
  transactionHash : Bytes32

structure OwnershipTransferred where
  id : Bytes
  oldAdmin : Address
  newAdmin : Address
  blockNumber : Nat
  blockTimestamp : Nat
  transactionHash : Bytes32

/-- The fields both party events have. -/
structure PartyEvent where
  id : Bytes
  countryCode : String
  partyId : String
  partyAddress : String
  roles : List String
  name : String
  url : String
  paymentStatus : String
  cvStatus : String
  active : Bool
  blockNumber : Nat
  blockTimestamp : Nat
  transactionHash : Bytes32

structure PartyDelete extends PartyEvent

structure PartyUpdate extends PartyEvent where
  operatorAddress : Address

structure Operator where
  id : String
  domain : String
  deriving DecidableEq

structure Party where
  id : String
  countryCode : String
  partyId : String
  partyAddress : String
  roles : List String
  name : String
  url : String
  paymentStatus : String
  cvStatus : String
  active : Bool
  deleted : Bool
  operator : String
  deriving DecidableEq

/-- `new Operator`, before its field is set. -/
def Operator.new (id : String) : Operator where
  id := id
  domain := ""

/-- `new Party`, before its fields are set. -/
def Party.new (id : String) : Party where
  id := id
  countryCode := ""
  partyId := ""
  partyAddress := ""
  roles := []
  name := ""
  url := ""
  paymentStatus := ""
  cvStatus := ""
  active := false
  deleted := false
  operator := ""

/-- **The entities of the subgraph**, by their ids. -/
structure Subgraph where
  operatorUpdates : Bytes → Option OperatorUpdate
  ownershipTransfers : Bytes → Option OwnershipTransferred
  partyDeletes : Bytes → Option PartyDelete
  partyUpdates : Bytes → Option PartyUpdate
  operators : String → Option Operator
  parties : String → Option Party

def Subgraph.empty : Subgraph where
  operatorUpdates := fun _ => none
  ownershipTransfers := fun _ => none
  partyDeletes := fun _ => none
  partyUpdates := fun _ => none
  operators := fun _ => none
  parties := fun _ => none

/-! ## 4. Handlers -/

section Handlers

variable (B : LossyUtf8) (g : Subgraph) (event : Origin)

def handleOperatorUpdate (operator : Address) (domain : Bytes) : Subgraph :=
  let entity : OperatorUpdate :=
    { id := event.entityId
      operator := operator
      domain := B.text domain
      blockNumber := event.blockNumber
      blockTimestamp := event.blockTimestamp
      transactionHash := event.transactionHash }
  let g := { g with operatorUpdates := Function.update g.operatorUpdates entity.id (some entity) }
  let operator := (g.operators (toHexString entity.operator)).getD
    (Operator.new (toHexString entity.operator))
  let operator := { operator with domain := entity.domain }
  { g with operators := Function.update g.operators operator.id (some operator) }

def handleOwnershipTransferred (oldAdmin newAdmin : Address) : Subgraph :=
  let entity : OwnershipTransferred :=
    { id := event.entityId
      oldAdmin := oldAdmin
      newAdmin := newAdmin
      blockNumber := event.blockNumber
      blockTimestamp := event.blockTimestamp
      transactionHash := event.transactionHash }
  { g with
    ownershipTransfers := Function.update g.ownershipTransfers entity.id (some entity) }

variable (countryCode : Bytes2) (partyId : Bytes3) (partyAddress : Address) (roles : List Role)
  (name url : Bytes) (paymentStatus : PaymentStatus) (cvStatus : CvStatus) (active : Bool)

def partyEvent : PartyEvent where
  id := event.entityId
  countryCode := B.toString (wordBytes 2 countryCode)
  partyId := B.toString (wordBytes 3 partyId)
  partyAddress := toHexString partyAddress
  roles := roles.map fun role => getRole (roleNumber role)
  name := B.text name
  url := B.text url
  paymentStatus := getPaymentStatus (paymentStatusNumber paymentStatus)
  cvStatus := getCvStatus (cvStatusNumber cvStatus)
  active := active
  blockNumber := event.blockNumber
  blockTimestamp := event.blockTimestamp
  transactionHash := event.transactionHash

/-- The id here is the key without a separator. -/
def handlePartyDelete : Subgraph :=
  let entity : PartyDelete :=
    ⟨partyEvent B event countryCode partyId partyAddress roles name url paymentStatus cvStatus
      active⟩
  let g := { g with partyDeletes := Function.update g.partyDeletes entity.id (some entity) }
  let id := entity.countryCode ++ entity.partyId
  match g.parties id with
  | none => g
  | some party =>
      let party := { party with deleted := true }
      { g with parties := Function.update g.parties party.id (some party) }

/-- `deleted` is written for a new entity only. -/
def handlePartyUpdate (operatorAddress : Address) : Subgraph :=
  let entity : PartyUpdate :=
    ⟨partyEvent B event countryCode partyId partyAddress roles name url paymentStatus cvStatus
      active, operatorAddress⟩
  let g := { g with partyUpdates := Function.update g.partyUpdates entity.id (some entity) }
  let id := entity.countryCode ++ "/" ++ entity.partyId
  let party := (g.parties id).getD { Party.new id with deleted := false }
  let party := { party with
    countryCode := entity.countryCode
    partyId := entity.partyId
    partyAddress := entity.partyAddress
    roles := entity.roles
    name := entity.name
    url := entity.url
    paymentStatus := entity.paymentStatus
    cvStatus := entity.cvStatus
    active := entity.active }
  let operatorId := toHexString entity.operatorAddress
  let (operator, g) :=
    match g.operators operatorId with
    | some operator => (operator, g)
    | none =>
        let operator := { Operator.new operatorId with domain := "unknown" }
        (operator, { g with operators := Function.update g.operators operator.id (some operator) })
  let party := { party with operator := operator.id }
  { g with parties := Function.update g.parties party.id (some party) }

/-- The handler of an event, if the manifest names one. -/
def handle (log : Log) : Subgraph :=
  match log.event with
  | .operatorUpdate operator domain => handleOperatorUpdate B g log.toOrigin operator domain
  | .ownershipTransferred oldAdmin newAdmin =>
      handleOwnershipTransferred g log.toOrigin oldAdmin newAdmin
  | .partyUpdate countryCode partyId partyAddress roles name url paymentStatus cvStatus active
      operatorAddress =>
      handlePartyUpdate B g log.toOrigin countryCode partyId partyAddress roles name url
        paymentStatus cvStatus active operatorAddress
  | .partyDelete countryCode partyId partyAddress roles name url paymentStatus cvStatus active =>
      handlePartyDelete B g log.toOrigin countryCode partyId partyAddress roles name url
        paymentStatus cvStatus active
  | .partyRegistrationValidatorUpdated _ => g

end Handlers

end Indexer

end Ocn
