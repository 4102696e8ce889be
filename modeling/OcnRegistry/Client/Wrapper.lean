/-
  File:      OcnRegistry/Client/Wrapper.lean
  Subject:   THE CLIENT LIBRARY: the class `Registry` and what it inherits. Translated from
             src/lib/registry.ts, contract-wrapper.ts and sign.ts, function by function.

  A call of a view function reads the storage; a transaction is one of the registry's machine. A
  JavaScript text is a sequence of Unicode scalar values. The library decodes a `string` that a view
  returns when it is read, and fails on bytes that are no UTF-8, as `toUtf8String` does. Every error
  leaves a function as an exception: a failed request has changed nothing, and of the readable text
  `handleContractError` makes of an error only the error is kept.

  Three things come from outside the repository and are parameters: Unicode's uppercase mapping,
  the parser behind `URL`, and the packing `soliditySha3` does.
-/
import OcnRegistry.Library.Utf8
import OcnRegistry.Registry.Run

namespace Ocn

open Transaction Packed

namespace Client

/-! ## 1. Errors -/

inductive ClientError where
  | invalidStringLength (wanted : Nat) (str : String)
  | invalidUtf8
  | incorrectDataLength
  | invalidUrl
  | existingNode
  | unpackable
  | reverted (reason : Revert)
  deriving DecidableEq

/-- What a call to the contract returns or reverts with. -/
def ofContract {α : Type} : Except Revert α → Except ClientError α
  | .ok a => .ok a
  | .error e => .error (.reverted e)

theorem ofContract_eq_ok {α : Type} {x : Except Revert α} {a : α} :
    ofContract x = .ok a ↔ x = .ok a := by
  cases x with
  | error e => exact ⟨fun h => (by cases h), fun h => (by cases h)⟩
  | ok b => exact ⟨fun h => congrArg Except.ok (Except.ok.inj h), fun h => by rw [h]; rfl⟩

/-! ## 2. Texts and bytes -/

/-- `toUtf8String`. -/
def toUtf8String (bytes : Bytes) : Except ClientError String :=
  match Utf8.decode bytes with
  | some text => .ok text
  | none => .error .invalidUtf8

theorem toUtf8String_eq_ok {bytes : Bytes} {text : String} :
    toUtf8String bytes = .ok text ↔ Utf8.encode text = bytes := by
  rw [← Utf8.decode_eq_some]
  unfold toUtf8String
  cases Utf8.decode bytes with
  | none => exact ⟨fun h => (by cases h), fun h => (by cases h)⟩
  | some decoded =>
      exact ⟨fun h => congrArg some (Except.ok.inj h), fun h => by rw [Option.some.inj h]⟩

/-- **Unicode's uppercase mapping**: what each character becomes. -/
structure UpperCase where
  mapping : Char → List Char
  ascii : ∀ c, c.toNat < 128 → mapping c = [c.toUpper]

/-- `toUpperCase`. -/
def UpperCase.apply (U : UpperCase) (str : String) : String :=
  String.ofList (str.toList.flatMap U.mapping)

/-- `verifyStringLen`. -/
def verifyStringLen (str : String) (len : Nat) : Except ClientError Unit :=
  if Utf8.utf16Length str ≠ len then .error (.invalidStringLength len str) else .ok ()

/-- `toBytes`. -/
def toBytes (U : UpperCase) (str : String) : Bytes := Utf8.encode (U.apply str)

/-- The argument of type `bytesN` a contract call makes of bytes: they must be `N`. -/
def fixedBytes (n : Nat) (bytes : Bytes) : Except ClientError (BitVec (8 * n)) :=
  match ofWordBytes n bytes with
  | some word => .ok word
  | none => .error .incorrectDataLength

/-! ## 3. Nodes -/

/-- `types.Node`. -/
structure Node where
  operator : Address
  url : String
  deriving DecidableEq, Repr

section Nodes

variable (st : OcnRegistry)

/-- `getNode`: an empty answer is `undefined`. -/
def getNode (operator : Address) : Except ClientError (Option String) := do
  let node ← toUtf8String (st.getNode operator)
  .ok (if node = "" then none else some node)

/-- The loop of `getAllNodes`. -/
def nodesFrom : List Address → List Node → Except ClientError (List Node)
  | [], nodes => .ok nodes
  | operator :: rest, nodes => do
      let url ← toUtf8String (st.getNode operator)
      if url ≠ "" then nodesFrom rest (nodes ++ [⟨operator, url⟩]) else nodesFrom rest nodes

def getAllNodes : Except ClientError (List Node) := nodesFrom st st.getNodeOperators []

def checkForExistingNode (signer : Address) : Except ClientError Unit := do
  let existingNode ← getNode st signer
  if existingNode.isSome then .error .existingNode else .ok ()

end Nodes

/-! ## 4. Parties -/

/-- `types.Role[index]`. -/
def roleName : Role → String
  | .cpo => "CPO"
  | .emsp => "EMSP"
  | .nap => "NAP"
  | .nsp => "NSP"
  | .other => "OTHER"
  | .scsp => "SCSP"
  | .hub => "HUB"

/-- `types.PartyDetails`. -/
structure PartyDetails where
  partyAddress : Address
  countryCode : String
  partyId : String
  roles : List String
  paymentStatus : PaymentStatus
  operatorAddress : Address
  name : String
  url : String
  active : Bool
  deriving DecidableEq

def toPartyDetails (input : OcnRegistry.PartyView) : Except ClientError PartyDetails := do
  let countryCode ← toUtf8String (wordBytes 2 input.countryCode)
  let partyId ← toUtf8String (wordBytes 3 input.partyId)
  let name ← toUtf8String input.name
  let url ← toUtf8String input.url
  .ok {
    partyAddress := input.partyAddress
    countryCode := countryCode
    partyId := partyId
    roles := input.roles.map roleName
    paymentStatus := input.paymentStatus
    operatorAddress := input.operatorAddress
    name := name
    url := url
    active := input.active }

section Parties

variable (st : OcnRegistry)

/-- A result without an operator is `undefined`. -/
def listed (result : PartyDetails) : Option PartyDetails :=
  if result.operatorAddress ≠ 0 then some result else none

def getPartyByAddress (address : Address) : Except ClientError (Option PartyDetails) := do
  let result ← toPartyDetails (st.getPartyDetailsByAddress address)
  .ok (listed result)

def getPartyByOcpi (U : UpperCase) (answers : External) (countryCode partyId : String) :
    Except ClientError (Option PartyDetails) := do
  verifyStringLen countryCode 2
  verifyStringLen partyId 3
  let countryCodeBytes ← fixedBytes 2 (toBytes U countryCode)
  let partyIdBytes ← fixedBytes 3 (toBytes U partyId)
  let (details, _) ←
    ofContract (st.getPartyDetailsByOcpi answers countryCodeBytes partyIdBytes)
  let result ← toPartyDetails details
  .ok (listed result)

/-- The loop of `getAllParties`. -/
def partiesFrom : List Address → List PartyDetails → Except ClientError (List PartyDetails)
  | [], details => .ok details
  | address :: rest, details =>
      let result := st.getPartyDetailsByAddress address
      if result.operatorAddress ≠ 0 then do
        let party ← toPartyDetails result
        partiesFrom rest (details ++ [party])
      else partiesFrom rest details

def getAllParties : Except ClientError (List PartyDetails) := partiesFrom st st.getParties []

end Parties

/-! ## 5. Registering a node -/

/-- **`new URL(domain).origin`**, where the text parses: `null`, or a scheme and a host, without
    NUL characters. -/
structure UrlParser where
  origin : String → Option String
  shape : ∀ domain o, origin domain = some o →
    o = "null" ∨ ∃ scheme host : String, o = scheme ++ "://" ++ host
  noNul : ∀ domain o, origin domain = some o → Char.ofNat 0 ∉ o.toList

/-- The characters of numerals, decimal or hexadecimal. -/
def numeralChars : List Char := "0123456789abcdefABCDEFxX+-.".toList

/-- **The bytes `soliditySha3` packs a text as**, if it can: a text that cannot be taken for a
    numeral, and has no NUL characters to strip, is packed as its UTF-8 bytes. -/
structure SolidityPacking where
  pack : String → Option Bytes
  ordinary : ∀ text : String, (∃ c ∈ text.toList, c ∉ numeralChars) →
    Char.ofNat 0 ∉ text.toList → pack text = some (Utf8.encode text)

/-- `ethers.Wallet`: its signatures recover to its address. -/
structure Wallet (X : Crypto) where
  account : Account
  sign : X.Digest → BitVec 8 × Bytes32 × Bytes32
  recovers : ∀ digest, X.ecrecover digest (sign digest).1 (sign digest).2.1 (sign digest).2.2 =
    account.address

section Register

variable {X : Crypto} (st : OcnRegistry)

/-- `signMessage`, on the 32 bytes of a digest. -/
def Wallet.signMessage (wallet : Wallet X) (message : X.Digest) : BitVec 8 × Bytes32 × Bytes32 :=
  wallet.sign (X.keccak256 (signedMessagePrefix ++ X.digestBytes message))

/-- `sign.setNodeRaw`. -/
def signSetNodeRaw (P : SolidityPacking) (wallet : Wallet X) (domain : String) :
    Except ClientError (BitVec 8 × Bytes32 × Bytes32) :=
  match P.pack domain with
  | some packed =>
      .ok (wallet.signMessage (X.keccak256 (packAddress wallet.account.address ++ packed)))
  | none => .error .unpackable

/-- `setNode`, with the wallet the library was constructed with. -/
def setNode (parser : UrlParser) (answers : External) (wallet : Wallet X) (domain : String) :
    Except ClientError (Outcome OcnRegistry Event) :=
  match parser.origin domain with
  | none => .error .invalidUrl
  | some origin => do
      checkForExistingNode st wallet.account.address
      ofContract (OcnRegistry.exec X st ⟨wallet.account, .setNode (Utf8.encode origin), answers⟩)

/-- `setNodeRaw`, sent by the spender the library was constructed with. -/
def setNodeRaw (P : SolidityPacking) (answers : External) (spender : Account) (wallet : Wallet X)
    (domain : String) : Except ClientError (Outcome OcnRegistry Event) := do
  checkForExistingNode st wallet.account.address
  let (v, r, s) ← signSetNodeRaw P wallet domain
  ofContract (OcnRegistry.exec X st
    ⟨spender, .setNodeRaw wallet.account.address (Utf8.encode domain) v r s, answers⟩)

end Register

end Client

end Ocn
