/-
  File:      OcnRegistry/Client/Publish.lean
  Subject:   PUBLISHING A PARTY: what `setParty` of the client writes, `getPartyByOcpi` reads.

  The client checks the texts it is given, upper-cases the key, and sends one transaction. A reader
  checks and upper-cases in the same way, so it asks for the same bytes, whatever the spelling.
  Between the two anything can happen to the listing, also by transactions that do not come from
  the client.

  * `getPartyByOcpi_spelled` -- what the client asks of the contract for a key it can spell;
  * `finds_iff` -- a listing is found, under every spelling, when key and record say so;
  * `listed_step_iff` -- when a transaction takes a listing away;
  * `published_party_found` -- after a registration through the client every spelling finds what was
    published, exactly as long as no transaction overwrites it, and its owner's wallet can withdraw
    it.
-/
import OcnRegistry.Client.Keys
import OcnRegistry.Client.Signing
import OcnRegistry.Gate.Script

namespace Ocn

open Transaction Packed

namespace Client

/-! ## 1. The two writes -/

/-- What the client takes from JavaScript and from `ethers`: upper case, the parser behind `URL`,
    `getAddress`, which reads an address, also one without `0x`, and the names that the network
    resolves. -/
structure Platform where
  upper : UpperCase
  url : UrlParser
  getAddress : String → Option Address
  resolveName : String → Option Address

/-- `resolveAddress`, for an argument of type `address`: what does not look like an address is a
    name, and must not resolve to zero. -/
def Platform.resolveAddress (C : Platform) (target : String) : Option Address :=
  if Gate.isHexAddress target.toList then C.getAddress target
  else (C.resolveName target).filter fun a => decide (a ≠ 0)

/-- Errors of the checks before a transaction, and of the transaction. -/
inductive RequestError where
  | error (message : String)
  | unresolved (target : String)
  | client (e : ClientError)

/-- The same error, of a request. -/
def ofClient {α : Type} : Except ClientError α → Except RequestError α
  | .ok a => .ok a
  | .error e => .error (.client e)

/-- `verifyWritable`: the mode is `r+w` if a signer was given to the constructor. -/
def verifyWritable (signer : Option Account) : Except RequestError Account :=
  match signer with
  | some account => .ok account
  | none => .error (.error "No signer provided. Unable to send transaction.")

def verifyAddress (C : Platform) (address : String) : Except RequestError Unit :=
  match C.getAddress address with
  | some _ => .ok ()
  | none =>
      .error (.error ("Invalid address. Expected Ethereum address, got \"" ++ address ++ "\"."))

def verifyUrl (C : Platform) (url : String) : Except RequestError Unit :=
  match C.url.origin url with
  | some _ => .ok ()
  | none => .error (.error ("Invalid URL. Expected valid URL, got \"" ++ url ++ "\"."))

section Writes

variable {X : Crypto} (st : OcnRegistry) (C : Platform) (answers : External)

/-- The argument of type `address` a contract call makes of a text. -/
def addressArgument (C : Platform) (target : String) : Except RequestError Address :=
  match C.resolveAddress target with
  | some read => .ok read
  | none => .error (.unresolved target)

/-- The transaction of `setParty`, once its arguments have passed: the operator is checked as it is
    given, and resolved with the call. -/
def setPartyTx (signer : Option Account) (countryCode partyId : String) (roles : List RoleDetails)
    (operator name url : String) : Except RequestError Tx := do
  let account ← verifyWritable signer
  ofClient (verifyStringLen countryCode 2)
  ofClient (verifyStringLen partyId 3)
  verifyAddress C operator
  verifyUrl C url
  let operatorAddress ← addressArgument C operator
  let countryCodeBytes ← ofClient (fixedBytes 2 (toBytes C.upper countryCode))
  let partyIdBytes ← ofClient (fixedBytes 3 (toBytes C.upper partyId))
  .ok ⟨account, .setParty countryCodeBytes partyIdBytes roles operatorAddress (Utf8.encode name)
    (Utf8.encode url), answers⟩

/-- `setParty`. -/
def setParty (X : Crypto) (signer : Option Account) (countryCode partyId : String)
    (roles : List RoleDetails) (operator name url : String) :
    Except RequestError (Outcome OcnRegistry Event) := do
  let t ← setPartyTx C answers signer countryCode partyId roles operator name url
  ofClient (ofContract (OcnRegistry.exec X st t))

/-- `deleteParty`. -/
def deleteParty (X : Crypto) (signer : Option Account) :
    Except RequestError (Outcome OcnRegistry Event) := do
  let account ← verifyWritable signer
  ofClient (ofContract (OcnRegistry.exec X st ⟨account, .deleteParty, answers⟩))

end Writes

theorem ofClient_eq_ok {α : Type} {x : Except ClientError α} {a : α} :
    ofClient x = .ok a ↔ x = .ok a := by
  cases x with
  | error e => exact ⟨fun h => (by cases h), fun h => (by cases h)⟩
  | ok b => exact ⟨fun h => congrArg Except.ok (Except.ok.inj h), fun h => by rw [h]; rfl⟩

theorem verifyAddress_eq_ok {C : Platform} {address : String} {u : Unit} :
    verifyAddress C address = .ok u ↔ (C.getAddress address).isSome = true := by
  unfold verifyAddress
  cases C.getAddress address with
  | none => exact ⟨fun h => (by cases h), fun h => (by cases h)⟩
  | some b => exact ⟨fun _ => rfl, fun _ => rfl⟩

theorem addressArgument_eq_ok {C : Platform} {target : String} {a : Address} :
    addressArgument C target = .ok a ↔ C.resolveAddress target = some a := by
  unfold addressArgument
  cases C.resolveAddress target with
  | none => exact ⟨fun h => (by cases h), fun h => (by cases h)⟩
  | some b => exact ⟨fun h => congrArg some (Except.ok.inj h), fun h => by cases h; rfl⟩

theorem verifyWritable_eq_ok {signer : Option Account} {account : Account} :
    verifyWritable signer = .ok account ↔ signer = some account := by
  cases signer with
  | none => exact ⟨fun h => (by cases h), fun h => (by cases h)⟩
  | some given => exact ⟨fun h => congrArg some (Except.ok.inj h), fun h => by cases h; rfl⟩

theorem verifyUrl_eq_ok {C : Platform} {url : String} {u : Unit} :
    verifyUrl C url = .ok u ↔ (C.url.origin url).isSome = true := by
  unfold verifyUrl
  cases C.url.origin url with
  | none => exact ⟨fun h => (by cases h), fun h => (by cases h)⟩
  | some origin => exact ⟨fun _ => rfl, fun _ => rfl⟩

/-! ## 2. Spellings of a key -/

/-- **The text spells the word**: it passes the length check, and its upper case is the word. -/
def Spells (U : UpperCase) (n : Nat) (text : String) (word : BitVec (8 * n)) : Prop :=
  verifyStringLen text n = .ok () ∧ fixedBytes n (toBytes U text) = .ok word

/-- What a listing says, on both sides. -/
structure Listing where
  owner : Address
  countryCode : Bytes2
  partyId : Bytes3
  roles : List Role
  operator : Address
  name : Bytes
  url : Bytes

/-- The values a detail lookup returns for the listing. -/
def Listing.view (L : Listing) (status : PaymentStatus) : OcnRegistry.PartyView where
  partyAddress := L.owner
  countryCode := L.countryCode
  partyId := L.partyId
  roles := L.roles
  paymentStatus := status
  operatorAddress := L.operator
  name := L.name
  url := L.url
  active := true

variable {X : Crypto} {st : OcnRegistry} {t : Tx} {C : Platform} {U : UpperCase} {L : Listing}
  {answers : External} {country party : String}

theorem fixedBytes_eq_ok {n : Nat} {bytes : Bytes} {word : BitVec (8 * n)} :
    fixedBytes n bytes = .ok word ↔ bytes = wordBytes n word := by
  refine Iff.trans ?_ (ofWordBytes_eq_some.trans eq_comm)
  unfold fixedBytes
  cases ofWordBytes n bytes with
  | none => exact ⟨fun h => (by cases h), fun h => (by cases h)⟩
  | some read =>
      exact ⟨fun h => congrArg some (Except.ok.inj h), fun h => by rw [Option.some.inj h]⟩

/-- The bytes of a word that is spelled are those of the text in upper case. -/
theorem Spells.encode {n : Nat} {text : String} {word : BitVec (8 * n)} (h : Spells U n text word) :
    Utf8.encode (U.apply text) = wordBytes n word := fixedBytes_eq_ok.mp h.2

/-- What is made of the contract's answer for a key. -/
def readKey (st : OcnRegistry) (answers : External) (countryCode : Bytes2) (partyId : Bytes3) :
    Except ClientError (Option PartyDetails) := do
  let owner := st.uniqueParties countryCode partyId
  let _ ← ofContract (answers.getPaymentBlock st.paymentManager owner)
  let status ← ofContract (answers.getPaymentStatus st.paymentManager owner)
  let result ← toPartyDetails { st.getPartyDetailsByAddress owner with paymentStatus := status }
  .ok (listed result)

/-- **Every spelling asks the same**: the texts are gone once the key is spelled. -/
theorem getPartyByOcpi_spelled {countryCode : Bytes2} {partyId : Bytes3}
    (hc : Spells U 2 country countryCode) (hp : Spells U 3 party partyId) :
    getPartyByOcpi st U answers country party = readKey st answers countryCode partyId := by
  unfold getPartyByOcpi
  rw [hc.1, hp.1, hc.2, hp.2]
  show ofContract (st.getPartyDetailsByOcpi answers countryCode partyId) >>= _ = _
  unfold readKey OcnRegistry.getPartyDetailsByOcpi
  dsimp only
  cases answers.getPaymentBlock st.paymentManager (st.uniqueParties countryCode partyId) with
  | error e => rfl
  | ok block =>
      cases answers.getPaymentStatus st.paymentManager (st.uniqueParties countryCode partyId) with
      | error e => rfl
      | ok status => rfl

/-! ## 3. A listing that is found -/

/-- **The listing is found**: whatever texts spell its key, and whatever the payment manager
    answers, the details are those of the listing, its key in upper case, its name and url these
    texts, with the live payment status. -/
def Finds (U : UpperCase) (L : Listing) (name url : String) (st : OcnRegistry) : Prop :=
  ∀ country party answers, Spells U 2 country L.countryCode → Spells U 3 party L.partyId →
    getPartyByOcpi st U answers country party = (do
      let _ ← ofContract (answers.getPaymentBlock st.paymentManager L.owner)
      let status ← ofContract (answers.getPaymentStatus st.paymentManager L.owner)
      .ok (some (viewDetails (L.view status) (U.apply country) (U.apply party) name url)))

/-- The key answers with the owner, and the owner's record with the listing. -/
def IsListed (L : Listing) (st : OcnRegistry) : Prop :=
  st.uniqueParties L.countryCode L.partyId = L.owner ∧
    st.getPartyDetailsByAddress L.owner = L.view (st.partyOf L.owner).paymentStatus

theorem roleName_injective : Function.Injective roleName := by
  intro a b h
  cases a <;> cases b <;> first | rfl | exact absurd h (by decide)

/-- **Different views are shown differently**: texts determine their bytes. -/
theorem view_eq_of_read {v w : OcnRegistry.PartyView} {name url : String}
    (hc : Utf8.encode country = wordBytes 2 w.countryCode)
    (hp : Utf8.encode party = wordBytes 3 w.partyId)
    (hn : Utf8.encode name = w.name) (hu : Utf8.encode url = w.url)
    (h : (toPartyDetails v >>= fun result => .ok (listed result)) =
      .ok (some (viewDetails w country party name url))) : v = w := by
  obtain ⟨d, hd, hlisted⟩ := bind_eq_ok.mp h
  obtain ⟨country', party', name', url', hc', hp', hn', hu', rfl⟩ := toPartyDetails_eq_ok.mp hd
  obtain ⟨_, hsame⟩ := listed_eq_some.mp (Except.ok.inj hlisted)
  unfold viewDetails at hsame
  obtain ⟨haddress, hcountry, hparty, hroles, hstatus, hoperator, rfl, rfl, hactive⟩ :=
    PartyDetails.mk.inj hsame
  have hname : v.name = w.name := hn'.symm.trans hn
  have hurl : v.url = w.url := hu'.symm.trans hu
  have hcode : v.countryCode = w.countryCode :=
    wordBytes_injective 2 (by rw [← hc, ← hc', hcountry])
  have hid : v.partyId = w.partyId := wordBytes_injective 3 (by rw [← hp, ← hp', hparty])
  have hrole := roleName_injective.list_map hroles
  cases v
  cases w
  simp_all

/-- **When a listing is found**: one spelling is as good as all. -/
theorem finds_iff {name url : String} (hc : Spells U 2 country L.countryCode)
    (hp : Spells U 3 party L.partyId) (hn : L.name = Utf8.encode name)
    (hu : L.url = Utf8.encode url) (ho : L.operator ≠ 0) :
    Finds U L name url st ↔ IsListed L st := by
  refine ⟨fun h => ?_, fun h country' party' answers hc' hp' => ?_⟩
  · have hone := h country party ⟨fun _ _ => .error (.external []), fun _ _ => .ok .pending,
      fun _ _ => .ok (0, 0)⟩ hc hp
    rw [getPartyByOcpi_spelled hc hp] at hone
    have hview := view_eq_of_read (w := L.view .pending) hc.encode hp.encode hn.symm hu.symm hone
    have howner : st.uniqueParties L.countryCode L.partyId = L.owner :=
      congrArg OcnRegistry.PartyView.partyAddress hview
    rw [howner] at hview
    exact ⟨howner, congrArg (fun v : OcnRegistry.PartyView =>
      { v with paymentStatus := (st.partyOf L.owner).paymentStatus }) hview⟩
  · obtain ⟨howner, hrecord⟩ := h
    rw [getPartyByOcpi_spelled hc' hp']
    unfold readKey
    rw [howner]
    dsimp only
    rw [hrecord]
    cases answers.getPaymentBlock st.paymentManager L.owner with
    | error e => rfl
    | ok block =>
        cases answers.getPaymentStatus st.paymentManager L.owner with
        | error e => rfl
        | ok status =>
            have hd : toPartyDetails (L.view status) =
                .ok (viewDetails (L.view status) (U.apply country') (U.apply party') name url) :=
              toPartyDetails_eq_ok.mpr
                ⟨_, _, _, _, hc'.encode, hp'.encode, hn.symm, hu.symm, rfl⟩
            show toPartyDetails (L.view status) >>= _ = _
            rw [hd]
            exact congrArg Except.ok (listed_eq_some.mpr ⟨ho, rfl⟩)

/-! ## 4. What takes a listing away -/

/-- The transaction is a `setParty` that succeeds with this listing. -/
def Registers (st : OcnRegistry) (t : Tx) (L : Listing) : Prop :=
  ∃ roles status, t.call = .setParty L.countryCode L.partyId roles L.operator L.name L.url ∧
    OcnRegistry.SetPartyAdmits st t.answers L.countryCode L.partyId roles L.operator L.owner L.roles
      status

/-- **The transaction overwrites the listing**: it registers another one for the owner or under the
    key, or deletes the owner's or another party's record under the key. -/
inductive Overwrites (L : Listing) (st : OcnRegistry) (t : Tx) : Prop where
  | registered (L' : Listing) (hset : Registers st t L') (hne : L' ≠ L)
      (hmeets : L'.owner = L.owner ∨ (L'.countryCode, L'.partyId) = (L.countryCode, L.partyId))
  | removed (party : Address) (hdel : OcnRegistry.RemovesParty st t party)
      (hmeets : party = L.owner ∨ (L.owner ≠ 0 ∧ st.keyOf party = (L.countryCode, L.partyId)))

theorem Registers.setsParty (h : Registers st t L) :
    OcnRegistry.SetsParty st t L.owner L.countryCode L.partyId L.operator := by
  obtain ⟨roles, status, hcall, hadmits⟩ := h
  exact ⟨roles, L.name, L.url, L.roles, status, hcall, hadmits⟩

/-- A transaction registers at most one listing. -/
theorem Registers.unique {L' : Listing} (h : Registers st t L) (h' : Registers st t L') :
    L = L' := by
  obtain ⟨roles, status, hcall, hadmits⟩ := h
  obtain ⟨roles', status', hcall', hadmits'⟩ := h'
  obtain ⟨hcode, hid, hroles, hoperator, hname, hurl⟩ :=
    Call.setParty.inj (hcall.symm.trans hcall')
  subst hroles
  obtain ⟨howner, hverified⟩ :=
    Prod.mk.inj (Except.ok.inj (hadmits.valid.symm.trans hadmits'.valid))
  cases L
  cases L'
  simp_all

/-- The state after the registration. -/
theorem Registers.step (h : Registers st t L) : ∃ status, (OcnRegistry.machine X).step st t =
    st.storeParty L.owner
      (st.newDetails L.countryCode L.partyId L.owner L.roles L.name L.url status) L.operator := by
  obtain ⟨roles, status, hcall, hadmits⟩ := h
  exact ⟨status, OcnRegistry.step_of_change (.partySet L.countryCode L.partyId roles L.operator
    L.name L.url L.owner L.roles status hcall hadmits)⟩

/-- A registration is listed. -/
theorem Registers.isListed (h : Registers st t L) :
    IsListed L ((OcnRegistry.machine X).step st t) := by
  obtain ⟨status, e⟩ := h.step (X := X)
  rw [e]
  refine ⟨OcnRegistry.setUniqueParty_self st L.countryCode L.partyId L.owner, ?_⟩
  simp [OcnRegistry.getPartyDetailsByAddress, Listing.view, OcnRegistry.newDetails]

/-- Only one listing of an owner, and only one under a key, is listed. -/
theorem IsListed.unique {L' : Listing} (h : IsListed L st) (h' : IsListed L' st)
    (hmeets : L'.owner = L.owner ∨ (L'.countryCode, L'.partyId) = (L.countryCode, L.partyId)) :
    L' = L := by
  have howner : L'.owner = L.owner := by
    refine hmeets.elim id fun hkey => ?_
    obtain ⟨hcode, hid⟩ := Prod.mk.inj hkey
    rw [← h.1, ← h'.1, hcode, hid]
  have hview := h'.2
  rw [howner, h.2] at hview
  unfold Listing.view at hview
  cases L
  cases L'
  simp_all

/-- What a listing is read from. -/
theorem IsListed.congr {st' : OcnRegistry} (h : IsListed L st)
    (hkey : st'.uniqueParties L.countryCode L.partyId = st.uniqueParties L.countryCode L.partyId)
    (hparty : st'.partyOf L.owner = st.partyOf L.owner)
    (hoperator : st'.operatorOf L.owner = st.operatorOf L.owner) : IsListed L st' := by
  refine ⟨hkey.trans h.1, ?_⟩
  have hrecord := h.2
  unfold OcnRegistry.getPartyDetailsByAddress at hrecord ⊢
  rw [hparty, hoperator]
  exact hrecord

theorem IsListed.operatorOf (h : IsListed L st) : st.operatorOf L.owner = L.operator :=
  congrArg OcnRegistry.PartyView.operatorAddress h.2

/-- The deletion of a party takes a listing away if it is the owner's, or if it empties the key. -/
theorem IsListed.clearParty_iff (h : IsListed L st) (ho : L.operator ≠ 0) {party : Address} :
    IsListed L (st.clearParty party) ↔
      ¬ (party = L.owner ∨ (L.owner ≠ 0 ∧ st.keyOf party = (L.countryCode, L.partyId))) := by
  refine ⟨fun hkept hmeets => ?_, fun hnot => ?_⟩
  · rcases hmeets with rfl | ⟨hz, hkey⟩
    · have hgone := hkept.operatorOf
      rw [OcnRegistry.clearParty_operatorOf, Function.update_self] at hgone
      exact ho hgone.symm
    · obtain ⟨hcode, hid⟩ := Prod.mk.inj hkey
      have hempty := hkept.1
      rw [← hcode, ← hid] at hempty
      exact hz (hempty.symm.trans
        (OcnRegistry.setUniqueParty_self st _ _ 0))
  · obtain ⟨howner, hkey⟩ := not_or.mp hnot
    have hne : L.owner ≠ party := Ne.symm howner
    refine h.congr ?_ ?_ ?_
    · by_cases e : st.keyOf party = (L.countryCode, L.partyId)
      · -- the key is emptied, but it had answered with the zero address before
        have hz : L.owner = 0 := Classical.byContradiction fun hz => hkey ⟨hz, e⟩
        obtain ⟨hcode, hid⟩ := Prod.mk.inj e
        rw [h.1, hz, ← hcode, ← hid]
        exact OcnRegistry.setUniqueParty_self st _ _ 0
      · exact OcnRegistry.setUniqueParty_ne st 0 (Ne.symm e)
    · rw [OcnRegistry.clearParty_partyOf, Function.update_of_ne hne]
    · rw [OcnRegistry.clearParty_operatorOf, Function.update_of_ne hne]

/-- **One step** keeps a listing exactly when it does not overwrite it. -/
theorem listed_step_iff (hI : st.ArraySound) (h : IsListed L st) (ho : L.operator ≠ 0) :
    IsListed L ((OcnRegistry.machine X).step st t) ↔ ¬ Overwrites L st t := by
  cases OcnRegistry.partyStep (X := X) (t := t) hI with
  | set countryCode partyId roles operator name url owner verifiedRoles status hcall hadmits
      hstep =>
      let L' : Listing := ⟨owner, countryCode, partyId, verifiedRoles, operator, name, url⟩
      have hset : Registers st t L' := ⟨roles, status, hcall, hadmits⟩
      refine ⟨fun hkept hover => ?_, fun hnot => ?_⟩
      · cases hover with
        | registered L'' hset'' hne hmeets =>
            exact hne (hkept.unique hset''.isListed hmeets)
        | removed party hdel => exact hset.setsParty.not_deletes hdel.1
      · by_cases hmeets : L'.owner = L.owner ∨
            (L'.countryCode, L'.partyId) = (L.countryCode, L.partyId)
        · have hsame : L' = L := Classical.byContradiction fun hne =>
            hnot (.registered L' hset hne hmeets)
          rw [← hsame]
          exact hset.isListed
        · obtain ⟨howner, hkey⟩ := not_or.mp hmeets
          rw [hstep]
          have hne : L.owner ≠ owner := Ne.symm howner
          refine h.congr (OcnRegistry.setUniqueParty_ne st owner (Ne.symm hkey)) ?_ ?_
          · rw [OcnRegistry.storeParty_partyOf, Function.update_of_ne hne]
          · rw [OcnRegistry.storeParty_operatorOf, Function.update_of_ne hne]
  | removed party hdel hstep =>
      rw [hstep, h.clearParty_iff ho]
      refine not_congr ⟨fun hmeets => .removed party hdel hmeets, fun hover => ?_⟩
      cases hover with
      | registered L' hset => exact absurd hdel.1 hset.setsParty.not_deletes
      | removed party' hdel' hmeets => exact hdel.1.unique hdel'.1 ▸ hmeets
  | same hset hdel hsame =>
      refine iff_of_true (h.congr ?_ ?_ ?_) fun hover => ?_
      · rw [hsame.uniqueParties]
      · rw [hsame.partyOf]
      · rw [hsame.operatorOf]
      · cases hover with
        | registered L' hset' => exact hset _ _ _ _ hset'.setsParty
        | removed party hdel' => exact hdel party hdel'

/-! ## 5. From publishing to withdrawing -/

/-- **The listing that was asked for**: the key of the texts, the owner and the roles the validator
    found in the certificates, and the operator, name and url as given. -/
structure Asks (C : Platform) (st : OcnRegistry) (answers : External) (countryCode partyId : String)
    (roles : List RoleDetails) (operator name url : String) (L : Listing) : Prop where
  countryCode : Spells C.upper 2 countryCode L.countryCode
  partyId : Spells C.upper 3 partyId L.partyId
  owner : answers.validateRegistration st.partyRegistrationValidator roles = .ok (L.owner, L.roles)
  operator : C.resolveAddress operator = some L.operator
  name : L.name = Utf8.encode name
  url : L.url = Utf8.encode url

/-- **When `setParty` sends its transaction**, and which. -/
theorem setPartyTx_eq_ok {signer : Option Account} {countryCode partyId : String}
    {roles : List RoleDetails} {operator name url : String} :
    setPartyTx C answers signer countryCode partyId roles operator name url = .ok t ↔
      ∃ account code id operatorAddress, signer = some account ∧
        Spells C.upper 2 countryCode code ∧ Spells C.upper 3 partyId id ∧
        (C.getAddress operator).isSome = true ∧ (C.url.origin url).isSome = true ∧
        C.resolveAddress operator = some operatorAddress ∧
        t = ⟨account, .setParty code id roles operatorAddress (Utf8.encode name) (Utf8.encode url),
          answers⟩ := by
  refine ⟨fun h => ?_, fun h => ?_⟩
  · obtain ⟨account, hsigner, h⟩ := bind_eq_ok.mp h
    obtain ⟨⟨⟩, hcountry, h⟩ := bind_eq_ok.mp h
    obtain ⟨⟨⟩, hparty, h⟩ := bind_eq_ok.mp h
    obtain ⟨⟨⟩, hchecked, h⟩ := bind_eq_ok.mp h
    obtain ⟨⟨⟩, hurl, h⟩ := bind_eq_ok.mp h
    obtain ⟨operatorAddress, hoperator, h⟩ := bind_eq_ok.mp h
    obtain ⟨code, hcode, h⟩ := bind_eq_ok.mp h
    obtain ⟨id, hid, h⟩ := bind_eq_ok.mp h
    exact ⟨account, code, id, operatorAddress, verifyWritable_eq_ok.mp hsigner,
      ⟨ofClient_eq_ok.mp hcountry, ofClient_eq_ok.mp hcode⟩,
      ⟨ofClient_eq_ok.mp hparty, ofClient_eq_ok.mp hid⟩, verifyAddress_eq_ok.mp hchecked,
      verifyUrl_eq_ok.mp hurl, addressArgument_eq_ok.mp hoperator, (Except.ok.inj h).symm⟩
  · obtain ⟨account, code, id, operatorAddress, hsigner, hcode, hid, hchecked, hurl, hoperator,
      rfl⟩ := h
    rw [setPartyTx, verifyWritable_eq_ok.mpr hsigner, hcode.1, hid.1,
      (verifyAddress_eq_ok (u := ())).mpr hchecked, (verifyUrl_eq_ok (u := ())).mpr hurl,
      addressArgument_eq_ok.mpr hoperator, hcode.2, hid.2]
    rfl

/-- A successful `setParty` registers what it was asked for. -/
theorem setParty_registers {signer : Option Account} {countryCode partyId : String}
    {roles : List RoleDetails} {operator name url : String} {st' : OcnRegistry} {ev : List Event}
    (h : setParty st C answers X signer countryCode partyId roles operator name url =
      .ok (st', ev)) :
    ∃ L t, Asks C st answers countryCode partyId roles operator name url L ∧ Registers st t L ∧
      st' = (OcnRegistry.machine X).step st t := by
  obtain ⟨t, ht, hexec⟩ := bind_eq_ok.mp h
  obtain ⟨account, code, id, operatorAddress, _, hcode, hid, _, _, hoperator, hcall⟩ :=
    setPartyTx_eq_ok.mp ht
  have hok : (OcnRegistry.machine X).exec st t = .ok (st', ev) :=
    ofContract_eq_ok.mp (ofClient_eq_ok.mp hexec)
  have hset : st.setParty answers code id roles operatorAddress (Utf8.encode name)
      (Utf8.encode url) = .ok (st', ev) := by
    rw [hcall] at hok
    exact hok
  obtain ⟨owner, verifiedRoles, status, hadmits, _⟩ := OcnRegistry.setParty_eq_ok.mp hset
  refine ⟨⟨owner, code, id, verifiedRoles, operatorAddress, Utf8.encode name, Utf8.encode url⟩, t,
    ⟨hcode, hid, hadmits.valid, hoperator, rfl, rfl⟩, ⟨roles, status, ?_, ?_⟩, ?_⟩
  · rw [hcall]
  · rw [hcall]
    exact hadmits
  · exact (Machine.step_ok hok).symm

/-- A party that is read has an operator. -/
theorem readKey_eq_some {countryCode : Bytes2} {partyId : Bytes3} {d : PartyDetails}
    (h : readKey st answers countryCode partyId = .ok (some d)) :
    d.partyAddress = st.uniqueParties countryCode partyId ∧ st.Registered d.partyAddress := by
  obtain ⟨_, _, h⟩ := bind_eq_ok.mp h
  obtain ⟨status, _, h⟩ := bind_eq_ok.mp h
  obtain ⟨result, hresult, h⟩ := bind_eq_ok.mp h
  obtain ⟨_, _, _, _, _, _, _, _, rfl⟩ := toPartyDetails_eq_ok.mp hresult
  obtain ⟨hoperator, rfl⟩ := listed_eq_some.mp (Except.ok.inj h)
  exact ⟨rfl, hoperator⟩

/-- **The owner withdraws its listing**: the deletion succeeds, and no spelling finds the owner. -/
theorem deleteParty_withdraws (answers : External) (hI : st.ArraySound) (h : IsListed L st)
    (ho : L.operator ≠ 0) {account : Account} (ha : account.address = L.owner) :
    ∃ st' ev, deleteParty st answers X (some account) = .ok (st', ev) ∧
      ∀ country party answers' d, Spells U 2 country L.countryCode → Spells U 3 party L.partyId →
        getPartyByOcpi st' U answers' country party = .ok (some d) → d.partyAddress ≠ L.owner := by
  have hr : st.Registered L.owner := by
    rw [OcnRegistry.Registered, h.operatorOf]
    exact ho
  have hindex := hI.slots.slot_lt ((hI.flagged L.owner).mpr hr)
  have hdel := OcnRegistry.deletePartyInternal_eq_ok.mpr ⟨hr, hindex, rfl, rfl⟩
  rw [← ha] at hdel
  refine ⟨_, _, ofClient_eq_ok.mpr (ofContract_eq_ok.mpr hdel), ?_⟩
  intro country party answers' d hc hp hread hsame
  rw [getPartyByOcpi_spelled hc hp] at hread
  have hregistered := (readKey_eq_some hread).2
  rw [hsame, ha] at hregistered
  exact OcnRegistry.not_registered_clearParty L.owner hregistered

end Client

namespace Sample

/-- The sample operator's address, as a text. -/
def operatorText : String := "0x0000000000000000000000000000000000000002"

/-- The operator's text is an address, with the mark and without, and no name is resolved. -/
def platform : Client.Platform where
  upper := upperCase
  url := urlParser
  getAddress := fun address =>
    if address = operatorText ∨ "0x" ++ address = operatorText then some operator.address else none
  resolveName := fun _ => none

/-- The sample party publishes itself under `de/msp`. -/
def publishParty (st : OcnRegistry) : Except Client.RequestError (Outcome OcnRegistry Event) :=
  Client.setParty st platform external (crypto []) (some party) "de" "msp" (certificates party)
    operatorText "Company" "https://node.ocn.org"

/-- Without the mark the operator's address passes the check, and its transaction is not sent. -/
example : (Client.setPartyTx platform external (some party) "de" "msp" (certificates party)
    "0000000000000000000000000000000000000002" "Company" "https://node.ocn.org").isOk = false := by
  decide +kernel

end Sample

/-- **What was published is found**: from every reachable state, a `setParty` of the client that
    succeeds has published the listing it was asked for. Every spelling of its key then finds it, in
    every state of a run, exactly when no transaction of the run overwrites it; and after such a run
    its owner's `deleteParty` succeeds, and no spelling finds the owner. -/
theorem published_party_found (C : Client.Platform) (X : Crypto) (D : Deployment) (ts : List Tx)
    {answers : External} {signer : Option Account} {countryCode partyId : String}
    {roles : List RoleDetails} {operator name url : String} {st' : OcnRegistry} {ev : List Event}
    (h : Client.setParty (D.run X ts) C answers X signer countryCode partyId roles operator name
      url = .ok (st', ev)) :
    ∃ L, Client.Asks C (D.run X ts) answers countryCode partyId roles operator name url L ∧
      ∀ later : List Tx,
        ((OcnRegistry.machine X).Throughout (Client.Finds C.upper L name url) st' later ↔
          (OcnRegistry.machine X).Along (fun st t => ¬ Client.Overwrites L st t) st' later) ∧
        ((OcnRegistry.machine X).Along (fun st t => ¬ Client.Overwrites L st t) st' later →
          ∀ (account : Account) (answers' : External), account.address = L.owner →
            ∃ st'' ev', Client.deleteParty ((OcnRegistry.machine X).run st' later) answers' X
                (some account) = .ok (st'', ev') ∧
              ∀ country party heard d, Client.Spells C.upper 2 country L.countryCode →
                Client.Spells C.upper 3 party L.partyId →
                Client.getPartyByOcpi st'' C.upper heard country party = .ok (some d) →
                  d.partyAddress ≠ L.owner) := by
  obtain ⟨L, t, hasks, hset, e⟩ := Client.setParty_registers h
  have ho : L.operator ≠ 0 := hset.setsParty.operator_ne
  have hI : st'.ArraySound := by
    rw [e]
    exact OcnRegistry.arraySound_step (OcnRegistry.arraySound_run X D ts)
  have hlisted : Client.IsListed L st' := by
    rw [e]
    exact hset.isListed
  have hfinds {st : OcnRegistry} : Client.Finds C.upper L name url st ↔ Client.IsListed L st :=
    Client.finds_iff hasks.countryCode hasks.partyId hasks.name hasks.url ho
  have hexact (later : List Tx) :
      (OcnRegistry.machine X).Throughout (Client.Finds C.upper L name url) st' later ↔
        (OcnRegistry.machine X).Along (fun st t => ¬ Client.Overwrites L st t) st' later := by
    refine Machine.throughout_iff_along (M := OcnRegistry.machine X) (J := OcnRegistry.ArraySound)
      (fun _ _ hI => OcnRegistry.arraySound_step hI) (fun st u hI hst => ?_) later hI
      (hfinds.mpr hlisted)
    exact hfinds.trans (Client.listed_step_iff hI (hfinds.mp hst) ho)
  refine ⟨L, hasks, fun later => ⟨hexact later, fun halong account answers' ha => ?_⟩⟩
  have hend := (hexact later).mpr halong later [] (List.append_nil later).symm
  have hIend : ((OcnRegistry.machine X).run st' later).ArraySound :=
    Machine.run_invariant_all (M := OcnRegistry.machine X)
      (fun _ _ _ _ hI hok => OcnRegistry.arraySound_exec hI hok) later hI
  obtain ⟨st'', ev', hdel, hgone⟩ :=
    Client.deleteParty_withdraws (U := C.upper) (X := X) answers' hIend (hfinds.mp hend) ho ha
  exact ⟨st'', ev', hdel, fun country party heard d => hgone country party heard d⟩

/-- The sample party publishes `de/msp`; asked for `De/Msp` next, the client finds it. -/
theorem published_party_found_sample :
    let st := Sample.deployment.run (Sample.crypto [])
      [Sample.tx Sample.operator (.setNode Sample.domain)]
    ∃ st' ev, ∃ L : Client.Listing,
      Sample.publishParty st = .ok (st', ev) ∧ L.owner = Sample.party.address ∧
      L.name = Utf8.encode "Company" ∧
      Client.getPartyByOcpi st' Sample.upperCase Sample.external "De" "Msp" =
        .ok (some (Client.viewDetails (L.view .pending) "DE" "MSP" "Company"
          "https://node.ocn.org")) := by
  intro st
  cases hpublish : Sample.publishParty st with
  | error e =>
      have hok : (Sample.publishParty st).isOk = true := by decide +kernel
      rw [hpublish] at hok
      cases hok
  | ok r =>
      obtain ⟨L, hasks, hfound⟩ := published_party_found Sample.platform (Sample.crypto [])
        Sample.deployment [Sample.tx Sample.operator (.setNode Sample.domain)] hpublish
      have hfinds := (hfound []).1.mpr trivial [] [] rfl
      have howner : Except.ok (L.owner, L.roles) = Sample.external.validateRegistration 0
        (Sample.certificates Sample.party) := hasks.owner.symm
      have hcode : L.countryCode = 0x4445 := by
        have hbytes := hasks.countryCode.encode
        exact wordBytes_injective 2 (hbytes.symm.trans (by decide +kernel))
      have hid : L.partyId = 0x4D5350 := by
        have hbytes := hasks.partyId.encode
        exact wordBytes_injective 3 (hbytes.symm.trans (by decide +kernel))
      refine ⟨r.1, r.2, L, rfl, ?_, hasks.name, ?_⟩
      · exact congrArg Prod.fst (Except.ok.inj (howner.trans (by rfl)))
      · refine hfinds "De" "Msp" Sample.external ?_ ?_
        · rw [hcode]
          exact ⟨by decide +kernel, by decide +kernel⟩
        · rw [hid]
          exact ⟨by decide +kernel, by decide +kernel⟩

end Ocn
