/-
  File:      OcnRegistry/Registry/Contract.lean
  Subject:   THE CONTRACT `OcnRegistry`: storage, events, functions. Translated from
             contracts/OcnRegistry.sol, function by function; no invariant here.

  The storage record has the source's fields. A private function of the source that is overloaded
  with a public one carries the suffix `Internal`. What a function reads outside the contract (the
  validator, the payment manager) is the argument `answers`. Answers are all that matters of these
  calls: `validateRegistration` is called before the first write, and `getPaymentStatus` and
  `getPaymentBlock` are `view` calls, which write nothing; a revert undoes what was written before.
-/
import OcnRegistry.AccessControl
import Mathlib.Logic.Function.Basic

namespace Ocn

/-! ## 1. Storage -/

/-- `struct PartyDetails`. -/
structure PartyDetails where
  countryCode : Bytes2
  partyId : Bytes3
  roles : List Role
  name : Bytes
  url : Bytes
  paymentStatus : PaymentStatus
  cvStatus : CvStatus
  active : Bool
  partyIndex : Nat
  deriving DecidableEq, Repr

/-- The record of an address that was never written, and what `delete partyOf[a]` leaves. -/
def PartyDetails.zero : PartyDetails where
  countryCode := 0
  partyId := 0
  roles := []
  name := []
  url := []
  paymentStatus := .pending
  cvStatus := .notVerified
  active := false
  partyIndex := 0

/-- **The storage of `OcnRegistry`.** -/
structure OcnRegistry where
  nodeOf : Address → Bytes
  uniqueDomains : Bytes → Bool
  uniqueOperators : Address → Bool
  operators : List Address
  uniqueParties : Bytes2 → Bytes3 → Address
  uniquePartyAddresses : Address → Bool
  partyOf : Address → PartyDetails
  operatorOf : Address → Address
  parties : List Address
  paymentManager : Address
  partyRegistrationValidator : Address
  members : RoleMembers

/-- `prefix`, set once by the constructor. -/
def signedMessagePrefix : Bytes := utf8 "\u0019Ethereum Signed Message:\n32"

inductive Event where
  | ownershipTransferred (oldAdmin newAdmin : Address)
  | partyRegistrationValidatorUpdated (validator : Address)
  | operatorUpdate (operator : Address) (domain : Bytes)
  | partyUpdate (countryCode : Bytes2) (partyId : Bytes3) (partyAddress : Address)
      (roles : List Role) (name url : Bytes) (paymentStatus : PaymentStatus)
      (cvStatus : CvStatus) (active : Bool) (operatorAddress : Address)
  | partyDelete (countryCode : Bytes2) (partyId : Bytes3) (partyAddress : Address)
      (roles : List Role) (name url : Bytes) (paymentStatus : PaymentStatus)
      (cvStatus : CvStatus) (active : Bool)
  deriving DecidableEq, Repr

/-- **What the registry hears from other contracts during one transaction**: at each address, the
    answer of `validateRegistration`, `getPaymentStatus` and `getPaymentBlock`. -/
structure External where
  validateRegistration : Address → List RoleDetails → Except Revert (Address × List Role)
  getPaymentStatus : Address → Address → Except Revert PaymentStatus
  getPaymentBlock : Address → Address → Except Revert (Nat × Nat)

namespace OcnRegistry

/-- The constructor. -/
def construct (deployer : Account) (paymentManager partyRegistrationValidator : Address) :
    OcnRegistry where
  nodeOf := fun _ => []
  uniqueDomains := fun _ => false
  uniqueOperators := fun _ => false
  operators := []
  uniqueParties := fun _ _ => 0
  uniquePartyAddresses := fun _ => false
  partyOf := fun _ => PartyDetails.zero
  operatorOf := fun _ => 0
  parties := []
  paymentManager := paymentManager
  partyRegistrationValidator := partyRegistrationValidator
  members := RoleMembers.setRole (fun _ _ => false) DEFAULT_ADMIN_ROLE deployer.address true

variable (st : OcnRegistry)

/-! ## 2. Nodes -/

/-- The writes of `setNode`, once its checks have passed. -/
def storeNode (operator : Address) (domain : Bytes) : OcnRegistry :=
  { st with
    uniqueDomains := Function.update st.uniqueDomains domain true
    operators := if st.uniqueOperators operator then st.operators else st.operators ++ [operator]
    uniqueOperators := Function.update st.uniqueOperators operator true
    nodeOf := Function.update st.nodeOf operator domain }

/-- `setNode(address operator, string domain)`, private. -/
def setNodeInternal (operator : Address) (domain : Bytes) :
    Except Revert (Outcome OcnRegistry Event) :=
  if domain.length = 0 then
    .error (.emptyDomainName "Cannot set empty domain name. Use deleteNode method instead.")
  else if st.uniqueDomains domain = true then
    .error (.domainNameAlreadyRegistered "Domain name already registered.")
  else
    .ok (st.storeNode operator domain, [.operatorUpdate operator domain])

/-- `setNode(string domain)`. -/
def setNode (sender : Address) (domain : Bytes) : Except Revert (Outcome OcnRegistry Event) :=
  st.setNodeInternal sender domain

/-- The digest `setNodeRaw` recovers the signer from. -/
def setNodeDigest (X : Crypto) (operator : Address) (domain : Bytes) : X.Digest :=
  X.keccak256 (signedMessagePrefix ++ X.digestBytes (X.keccak256 (packAddress operator ++ domain)))

def setNodeRaw (X : Crypto) (operator : Address) (domain : Bytes) (v : BitVec 8) (r s : Bytes32) :
    Except Revert (Outcome OcnRegistry Event) :=
  let signer := X.ecrecover (setNodeDigest X operator domain) v r s
  st.setNodeInternal signer domain

/-- The writes of `deleteNode`, once its check has passed. -/
def clearNode (operator : Address) : OcnRegistry :=
  { st with
    uniqueDomains := Function.update st.uniqueDomains (st.nodeOf operator) false
    nodeOf := Function.update st.nodeOf operator [] }

/-- `deleteNode(address operator)`, private. -/
def deleteNodeInternal (operator : Address) : Except Revert (Outcome OcnRegistry Event) :=
  let domain := st.nodeOf operator
  if domain.length = 0 then
    .error (.emptyDomainName "Cannot delete node that does not exist.")
  else
    .ok (st.clearNode operator, [.operatorUpdate operator []])

/-- `deleteNode()`. -/
def deleteNode (sender : Address) : Except Revert (Outcome OcnRegistry Event) :=
  st.deleteNodeInternal sender

/-- The digest `deleteNodeRaw` recovers the signer from. -/
def deleteNodeDigest (X : Crypto) (operator : Address) : X.Digest :=
  X.keccak256 (signedMessagePrefix ++ X.digestBytes (X.keccak256 (packAddress operator)))

def deleteNodeRaw (X : Crypto) (operator : Address) (v : BitVec 8) (r s : Bytes32) :
    Except Revert (Outcome OcnRegistry Event) :=
  let signer := X.ecrecover (deleteNodeDigest X operator) v r s
  st.deleteNodeInternal signer

def getNode (operator : Address) : Bytes := st.nodeOf operator

def getNodeOperators : List Address := st.operators

/-! ## 3. Parties -/

/-- `uniqueParties[countryCode][partyId] = owner`. -/
def setUniqueParty (countryCode : Bytes2) (partyId : Bytes3) (owner : Address) :
    Bytes2 → Bytes3 → Address :=
  Function.update st.uniqueParties countryCode
    (Function.update (st.uniqueParties countryCode) partyId owner)

/-- The record `setParty` writes. A party that is not listed gets the index after the last one. -/
def newDetails (countryCode : Bytes2) (partyId : Bytes3) (credentialOwner : Address)
    (verifiedRoles : List Role) (name url : Bytes) (paymentStatus : PaymentStatus) :
    PartyDetails where
  countryCode := countryCode
  partyId := partyId
  roles := verifiedRoles
  name := name
  url := url
  paymentStatus := paymentStatus
  cvStatus := .notVerified
  active := true
  partyIndex :=
    if st.uniquePartyAddresses credentialOwner then (st.partyOf credentialOwner).partyIndex
    else st.parties.length

/-- The writes of `setParty`, once its checks and calls have passed. -/
def storeParty (credentialOwner : Address) (details : PartyDetails) (operator : Address) :
    OcnRegistry :=
  { st with
    uniqueParties := st.setUniqueParty details.countryCode details.partyId credentialOwner
    parties :=
      if st.uniquePartyAddresses credentialOwner then st.parties
      else st.parties ++ [credentialOwner]
    uniquePartyAddresses := Function.update st.uniquePartyAddresses credentialOwner true
    partyOf := Function.update st.partyOf credentialOwner details
    operatorOf := Function.update st.operatorOf credentialOwner operator }

def setParty (answers : External) (countryCode : Bytes2) (partyId : Bytes3)
    (roles : List RoleDetails) (operator : Address) (name url : Bytes) :
    Except Revert (Outcome OcnRegistry Event) :=
  if countryCode = 0 then
    .error (.emptyCountryCode "Cannot set empty country_code. Use deleteParty method instead.")
  else if partyId = 0 then
    .error (.emptyPartyId "Cannot set empty party_id. Use deleteParty method instead.")
  else if roles.length = 0 then
    .error (.noRolesProvided "No roles provided.")
  else if operator = 0 then
    .error (.emptyOperator "Cannot set empty operator. Use deleteParty method instead.")
  else do
    let (credentialOwner, verifiedRoles) ←
      answers.validateRegistration st.partyRegistrationValidator roles
    let registeredParty := st.uniqueParties countryCode partyId
    if registeredParty ≠ 0 ∧ registeredParty ≠ credentialOwner then
      .error (.partyAlreadyRegistered
        "Party with country_code/party_id already registered under different address.")
    else if (st.nodeOf operator).length = 0 then
      .error (.partyNotRegistered "Provided operator not registered.")
    else do
      let paymentStatus ← answers.getPaymentStatus st.paymentManager credentialOwner
      let details :=
        st.newDetails countryCode partyId credentialOwner verifiedRoles name url paymentStatus
      .ok (st.storeParty credentialOwner details operator,
        [.partyUpdate details.countryCode details.partyId credentialOwner details.roles
          details.name details.url details.paymentStatus details.cvStatus details.active operator])

/-- The writes of `deleteParty`, once its checks have passed. -/
def clearParty (party : Address) : OcnRegistry :=
  let details := st.partyOf party
  { st with
    operatorOf := Function.update st.operatorOf party 0
    uniqueParties := st.setUniqueParty details.countryCode details.partyId 0
    partyOf := Function.update st.partyOf party PartyDetails.zero
    parties := st.parties.set details.partyIndex 0
    uniquePartyAddresses := Function.update st.uniquePartyAddresses party false }

/-- `deleteParty(address party)`, private. An index past the array panics. -/
def deletePartyInternal (party : Address) : Except Revert (Outcome OcnRegistry Event) :=
  if st.operatorOf party = 0 then
    .error (.partyNotRegistered
      "Cannot delete party that does not exist. No operator found for given party.")
  else
    let details := st.partyOf party
    if details.partyIndex < st.parties.length then
      .ok (st.clearParty party,
        [.partyDelete details.countryCode details.partyId party details.roles details.name
          details.url details.paymentStatus details.cvStatus details.active])
    else .error (.panic 0x32)

/-- `deleteParty()`. -/
def deleteParty (sender : Address) : Except Revert (Outcome OcnRegistry Event) :=
  st.deletePartyInternal sender

/-! ## 4. Administration -/

def transferOwnership (sender newOwner : Address) : Except Revert (Outcome OcnRegistry Event) := do
  let members ← st.members.transferOwnership sender newOwner
  .ok ({ st with members := members }, [.ownershipTransferred sender newOwner])

def adminDeleteOperator (sender operator : Address) :
    Except Revert (Outcome OcnRegistry Event) := do
  st.members.onlyRole DEFAULT_ADMIN_ROLE sender
  st.deleteNodeInternal operator

def adminDeleteParty (sender : Address) (countryCode : Bytes2) (partyId : Bytes3) :
    Except Revert (Outcome OcnRegistry Event) := do
  st.members.onlyRole DEFAULT_ADMIN_ROLE sender
  let party := st.uniqueParties countryCode partyId
  st.deletePartyInternal party

def setPartyRegistrationValidator (sender validator : Address) :
    Except Revert (Outcome OcnRegistry Event) := do
  st.members.onlyRole DEFAULT_ADMIN_ROLE sender
  if validator = 0 then
    .error (.error "Invalid party registration validator")
  else
    .ok ({ st with partyRegistrationValidator := validator },
      [.partyRegistrationValidatorUpdated validator])

/-! ## 5. Lookups -/

def getOperatorByAddress (party : Address) : Address × Bytes :=
  let operator := st.operatorOf party
  (operator, st.nodeOf operator)

def getOperatorByOcpi (countryCode : Bytes2) (partyId : Bytes3) : Address × Bytes :=
  let party := st.uniqueParties countryCode partyId
  let operator := st.operatorOf party
  (operator, st.nodeOf operator)

theorem getOperatorByAddress_eq (party : Address) :
    st.getOperatorByAddress party = (st.operatorOf party, st.nodeOf (st.operatorOf party)) := rfl

theorem getOperatorByOcpi_eq (countryCode : Bytes2) (partyId : Bytes3) :
    st.getOperatorByOcpi countryCode partyId =
      st.getOperatorByAddress (st.uniqueParties countryCode partyId) := rfl

/-- The values both detail lookups return. -/
structure PartyView where
  partyAddress : Address
  countryCode : Bytes2
  partyId : Bytes3
  roles : List Role
  paymentStatus : PaymentStatus
  operatorAddress : Address
  name : Bytes
  url : Bytes
  active : Bool
  deriving DecidableEq, Repr

def getPartyDetailsByAddress (partyAddress : Address) : PartyView :=
  let details := st.partyOf partyAddress
  { partyAddress := partyAddress
    countryCode := details.countryCode
    partyId := details.partyId
    roles := details.roles
    paymentStatus := details.paymentStatus
    operatorAddress := st.operatorOf partyAddress
    name := details.name
    url := details.url
    active := details.active }

/-- The view and the staking block. -/
def getPartyDetailsByOcpi (answers : External) (countryCode : Bytes2) (partyId : Bytes3) :
    Except Revert (PartyView × Nat) := do
  let partyAddress := st.uniqueParties countryCode partyId
  let (stakingBlock, _) ← answers.getPaymentBlock st.paymentManager partyAddress
  let details := st.partyOf partyAddress
  let paymentStatus ← answers.getPaymentStatus st.paymentManager partyAddress
  .ok ({ partyAddress := partyAddress
         countryCode := details.countryCode
         partyId := details.partyId
         roles := details.roles
         paymentStatus := paymentStatus
         operatorAddress := st.operatorOf partyAddress
         name := details.name
         url := details.url
         active := details.active }, stakingBlock)

def getPartiesCount : Nat := st.parties.length

def getParties : List Address := st.parties

/-- `filteredParties[count] = party; count++;` -/
def writeHit (filteredParties : List Address) (count : Nat) (party : Address) :
    Except Revert (List Address × Nat) := do
  let filteredParties ← assigned filteredParties count party
  let count ← checkedIncr (2 ^ 32) count
  .ok (filteredParties, count)

/-- The first loop of both filters, from index `i` on: the parties that pass the test are written
    one after the other; `i` and `count` are `uint32`. -/
def filterFrom (test : Address → Except Revert Bool) :
    List Address → Nat → List Address → Nat → Except Revert (List Address × Nat)
  | [], _, filteredParties, count => .ok (filteredParties, count)
  | party :: rest, i, filteredParties, count => do
      let hit ← test party
      let (filteredParties, count) ←
        (if hit = true then writeHit filteredParties count party else .ok (filteredParties, count))
      let i ← checkedIncr (2 ^ 32) i
      filterFrom test rest i filteredParties count

/-- The second loop of both filters, from index `i` on, with `left` entries to copy. -/
def copyFrom (filteredParties : List Address) :
    Nat → Nat → List Address → Except Revert (List Address)
  | 0, _, result => .ok result
  | left + 1, i, result => do
      let party ← indexed filteredParties i
      let result ← assigned result i party
      let i ← checkedIncr (2 ^ 32) i
      copyFrom filteredParties left i result

/-- What `getPartiesByOperator` and `getPartiesByRole` share: the test is theirs. -/
def filterParties (test : Address → Except Revert Bool) : Except Revert (List Address) := do
  let (filteredParties, count) ←
    filterFrom test st.parties 0 (List.replicate st.parties.length 0) 0
  copyFrom filteredParties count 0 (List.replicate count 0)

def getPartiesByOperator (operator : Address) : Except Revert (List Address) :=
  st.filterParties fun party => .ok (decide (st.operatorOf party = operator))

/-- The inner loop of `getPartiesByRole`, from entry `j` on; it breaks at the first hit. -/
def hasRoleFrom (role : Role) : List Role → Nat → Except Revert Bool
  | [], _ => .ok false
  | r :: rest, j =>
      if r = role then .ok true
      else do
        let j ← checkedIncr (2 ^ 32) j
        hasRoleFrom role rest j

def getPartiesByRole (role : Role) : Except Revert (List Address) :=
  st.filterParties fun party => hasRoleFrom role (st.partyOf party).roles 0

/-! ## 6. What each write changes -/

section Writes

variable {operator party : Address} {domain : Bytes} {details : PartyDetails}

@[simp] theorem storeNode_nodeOf :
    (st.storeNode operator domain).nodeOf = Function.update st.nodeOf operator domain := rfl

@[simp] theorem storeNode_uniqueDomains : (st.storeNode operator domain).uniqueDomains =
    Function.update st.uniqueDomains domain true := rfl

@[simp] theorem clearNode_nodeOf :
    (st.clearNode operator).nodeOf = Function.update st.nodeOf operator [] := rfl

@[simp] theorem storeParty_partyOf : (st.storeParty party details operator).partyOf =
    Function.update st.partyOf party details := rfl

@[simp] theorem storeParty_operatorOf : (st.storeParty party details operator).operatorOf =
    Function.update st.operatorOf party operator := rfl

@[simp] theorem storeParty_uniqueParties : (st.storeParty party details operator).uniqueParties =
    st.setUniqueParty details.countryCode details.partyId party := rfl

@[simp] theorem clearParty_partyOf :
    (st.clearParty party).partyOf = Function.update st.partyOf party PartyDetails.zero := rfl

@[simp] theorem clearParty_operatorOf :
    (st.clearParty party).operatorOf = Function.update st.operatorOf party 0 := rfl

@[simp] theorem clearParty_uniqueParties : (st.clearParty party).uniqueParties =
    st.setUniqueParty (st.partyOf party).countryCode (st.partyOf party).partyId 0 := rfl

theorem setUniqueParty_self (countryCode : Bytes2) (partyId : Bytes3) (owner : Address) :
    st.setUniqueParty countryCode partyId owner countryCode partyId = owner := by
  simp [setUniqueParty]

theorem setUniqueParty_ne {countryCode countryCode' : Bytes2} {partyId partyId' : Bytes3}
    (owner : Address) (h : (countryCode', partyId') ≠ (countryCode, partyId)) :
    st.setUniqueParty countryCode partyId owner countryCode' partyId' =
      st.uniqueParties countryCode' partyId' := by
  unfold setUniqueParty
  by_cases hc : countryCode' = countryCode
  · subst hc
    have hp : partyId' ≠ partyId := fun hp => h (by rw [hp])
    simp [hp]
  · simp [hc]

end Writes

/-! ## 7. What each function needs to succeed -/

variable {st} {st' : OcnRegistry} {ev : List Event}

theorem setNodeInternal_eq_ok {operator : Address} {domain : Bytes} :
    st.setNodeInternal operator domain = .ok (st', ev) ↔
      domain ≠ [] ∧ st.uniqueDomains domain = false ∧
        st' = st.storeNode operator domain ∧ ev = [.operatorUpdate operator domain] := by
  unfold setNodeInternal
  rw [guard_eq_ok, guard_eq_ok]
  refine ⟨fun hr => ?_, fun hr => ?_⟩
  · obtain ⟨hd, hu, h⟩ := hr
    cases h
    exact ⟨by simpa using hd, by simpa using hu, rfl, rfl⟩
  · obtain ⟨hd, hu, rfl, rfl⟩ := hr
    have hl : ¬ domain.length = 0 := by simpa using hd
    have hf : ¬ st.uniqueDomains domain = true := by simpa using hu
    exact ⟨hl, hf, rfl⟩

theorem deleteNodeInternal_eq_ok {operator : Address} :
    st.deleteNodeInternal operator = .ok (st', ev) ↔
      st.nodeOf operator ≠ [] ∧ st' = st.clearNode operator ∧
        ev = [.operatorUpdate operator []] := by
  unfold deleteNodeInternal
  dsimp only
  rw [guard_eq_ok]
  refine ⟨fun hr => ?_, fun hr => ?_⟩
  · obtain ⟨hn, h⟩ := hr
    cases h
    exact ⟨by simpa using hn, rfl, rfl⟩
  · obtain ⟨hn, rfl, rfl⟩ := hr
    have hl : ¬ (st.nodeOf operator).length = 0 := by simpa using hn
    exact ⟨hl, rfl⟩

/-- The conditions under which `setParty` writes, with the answers it got. -/
structure SetPartyAdmits (st : OcnRegistry) (answers : External) (countryCode : Bytes2)
    (partyId : Bytes3) (roles : List RoleDetails) (operator credentialOwner : Address)
    (verifiedRoles : List Role) (paymentStatus : PaymentStatus) : Prop where
  country : countryCode ≠ 0
  party : partyId ≠ 0
  someRole : roles ≠ []
  someOperator : operator ≠ 0
  valid : answers.validateRegistration st.partyRegistrationValidator roles =
    .ok (credentialOwner, verifiedRoles)
  free : st.uniqueParties countryCode partyId = 0 ∨
    st.uniqueParties countryCode partyId = credentialOwner
  node : st.nodeOf operator ≠ []
  payment : answers.getPaymentStatus st.paymentManager credentialOwner = .ok paymentStatus

theorem setParty_eq_ok {answers : External} {countryCode : Bytes2} {partyId : Bytes3}
    {roles : List RoleDetails} {operator : Address} {name url : Bytes} :
    st.setParty answers countryCode partyId roles operator name url = .ok (st', ev) ↔
      ∃ owner verifiedRoles status,
        SetPartyAdmits st answers countryCode partyId roles operator owner verifiedRoles status ∧
        st' = st.storeParty owner
          (st.newDetails countryCode partyId owner verifiedRoles name url status) operator ∧
        ev = [.partyUpdate countryCode partyId owner verifiedRoles name url status .notVerified
          true operator] := by
  unfold setParty
  rw [guard_eq_ok, guard_eq_ok, guard_eq_ok, guard_eq_ok, bind_eq_ok]
  refine ⟨fun hr => ?_, fun hr => ?_⟩
  · obtain ⟨hc, hp, hr, ho, ⟨owner, verifiedRoles⟩, hv, h⟩ := hr
    obtain ⟨hfree, h⟩ := guard_eq_ok.mp h
    obtain ⟨hnode, h⟩ := guard_eq_ok.mp h
    obtain ⟨status, hpay, h⟩ := bind_eq_ok.mp h
    cases h
    refine ⟨owner, verifiedRoles, status, ⟨hc, hp, by simpa using hr, ho, hv, ?_,
      by simpa using hnode, hpay⟩, rfl, rfl⟩
    exact Classical.or_iff_not_imp_left.mpr fun h0 =>
      Classical.byContradiction fun hne => hfree ⟨h0, hne⟩
  · obtain ⟨owner, verifiedRoles, status, h, rfl, rfl⟩ := hr
    have hfree : ¬ (st.uniqueParties countryCode partyId ≠ 0 ∧
        st.uniqueParties countryCode partyId ≠ owner) := fun hn => h.free.elim hn.1 hn.2
    have hr : ¬ roles.length = 0 := by simpa using h.someRole
    have hn : ¬ (st.nodeOf operator).length = 0 := by simpa using h.node
    refine ⟨h.country, h.party, hr, h.someOperator, (owner, verifiedRoles), h.valid, ?_⟩
    refine guard_eq_ok.mpr ⟨hfree, guard_eq_ok.mpr ⟨hn, ?_⟩⟩
    exact bind_eq_ok.mpr ⟨status, h.payment, rfl⟩

theorem deletePartyInternal_eq_ok {party : Address} :
    st.deletePartyInternal party = .ok (st', ev) ↔
      st.operatorOf party ≠ 0 ∧ (st.partyOf party).partyIndex < st.parties.length ∧
        st' = st.clearParty party ∧
        ev = [.partyDelete (st.partyOf party).countryCode (st.partyOf party).partyId party
          (st.partyOf party).roles (st.partyOf party).name (st.partyOf party).url
          (st.partyOf party).paymentStatus (st.partyOf party).cvStatus
          (st.partyOf party).active] := by
  unfold deletePartyInternal
  rw [guard_eq_ok]
  dsimp only
  refine ⟨fun hr => ?_, fun hr => ?_⟩
  · obtain ⟨ho, h⟩ := hr
    split at h
    · rename_i hi
      cases h
      exact ⟨ho, hi, rfl, rfl⟩
    · cases h
  · obtain ⟨ho, hi, rfl, rfl⟩ := hr
    exact ⟨ho, if_pos hi⟩

end OcnRegistry

end Ocn
