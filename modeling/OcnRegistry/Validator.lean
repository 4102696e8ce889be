/-
  File:      OcnRegistry/Validator.lean
  Subject:   THE CONTRACT `PartyRegistrationValidator`: storage, functions, and when a list of
             certificates is accepted. Translated from contracts/PartyRegistrationValidator.sol.

  The certificate verifier and the provider oracles are other contracts: `World` is what they
  answer, at each address. `validateRegistration` writes nothing.

  * `validateRegistration_eq_ok` -- it accepts exactly the lists of at most 255 entries in which
    every certificate is attributed to an allowed verifier and known to its role's oracle, and has
    the same owner as the one before it, unless that owner was zero; the owner it returns is that
    of the last certificate, the roles are those of the list, in order;
  * `validateRegistration_zero` -- in particular it accepts certificates of the zero address.
-/
import OcnRegistry.AccessControl
import Mathlib.Data.List.Basic
import Mathlib.Logic.Function.Basic

namespace Ocn

/-! ## 1. The contracts it calls -/

/-- What the validator reads of a certificate of any kind. -/
structure Certificate where
  identifier : Bytes
  owner : Address
  deriving DecidableEq, Repr

/-- `ICertificateVerifier`: who signed the certificate, and the certificate. -/
structure CertificateVerifier where
  verifyEMP : Bytes → Bytes → Except Revert (Address × Certificate)
  verifyCPO : Bytes → Bytes → Except Revert (Address × Certificate)
  verifyOther : Bytes → Bytes → Except Revert (Address × Certificate)

/-- The function of `ICertificateVerifier` that reads the certificates of a role. -/
def CertificateVerifier.verify (verifier : CertificateVerifier) :
    Role → Bytes → Bytes → Except Revert (Address × Certificate)
  | .emsp => verifier.verifyEMP
  | .cpo => verifier.verifyCPO
  | _ => verifier.verifyOther

/-- **What the contracts at each address answer**: `ICertificateVerifier`, and the identifier of
    `IProviderOracle.getProvider`. -/
structure World where
  verifier : Address → CertificateVerifier
  getProvider : Address → Bytes → Except Revert Bytes

/-! ## 2. Storage and administration -/

structure PartyRegistrationValidator where
  allowedCertificateVerifiers : Address → Bool
  roleOracle : Role → Address
  certificateVerifier : Address
  members : RoleMembers

inductive ValidatorEvent where
  | ownershipTransferred (oldAdmin newAdmin : Address)
  | certificateVerifierUpdated (verifier : Address)
  | verifierUpdated (verifier : Address) (isAllowed : Bool)
  | providerOracleUpdated (role : Role) (oracleAddress : Address)
  deriving DecidableEq, Repr

/-- The public state-changing functions of the validator, `AccessControl`'s included. -/
inductive ValidatorCall where
  | transferOwnership (newOwner : Address)
  | setCertificateVerifier (verifier : Address)
  | setVerifier (verifier : Address)
  | removeVerifier (verifier : Address)
  | setProviderOracle (role : Role) (oracleAddress : Address)
  | grantRole (role : Bytes32) (account : Address)
  | revokeRole (role : Bytes32) (account : Address)
  | renounceRole (role : Bytes32) (callerConfirmation : Address)
  deriving DecidableEq

namespace PartyRegistrationValidator

/-- The constructor. -/
def construct (deployer : Account) (certificateVerifier : Address) :
    PartyRegistrationValidator where
  allowedCertificateVerifiers := fun _ => false
  roleOracle := fun _ => 0
  certificateVerifier := certificateVerifier
  members := RoleMembers.setRole (fun _ _ => false) DEFAULT_ADMIN_ROLE deployer.address true

variable (V : PartyRegistrationValidator)

abbrev Result := Except Revert (Outcome PartyRegistrationValidator ValidatorEvent)

def transferOwnership (sender newOwner : Address) : Result := do
  let members ← V.members.transferOwnership sender newOwner
  .ok ({ V with members := members }, [.ownershipTransferred sender newOwner])

def setCertificateVerifier (sender verifier : Address) : Result := do
  V.members.onlyRole DEFAULT_ADMIN_ROLE sender
  if verifier = 0 then
    .error (.error "Invalid certificate verifier address")
  else
    .ok ({ V with certificateVerifier := verifier }, [.certificateVerifierUpdated verifier])

def isAllowedVerifier (verifier : Address) : Bool := V.allowedCertificateVerifiers verifier

def setVerifier (sender verifier : Address) : Result := do
  V.members.onlyRole DEFAULT_ADMIN_ROLE sender
  if verifier = 0 then
    .error (.error "Invalid verifier address")
  else if V.allowedCertificateVerifiers verifier = true then
    .error (.error "Verifier already allowed")
  else
    .ok ({ V with allowedCertificateVerifiers :=
        Function.update V.allowedCertificateVerifiers verifier true },
      [.verifierUpdated verifier true])

def removeVerifier (sender verifier : Address) : Result := do
  V.members.onlyRole DEFAULT_ADMIN_ROLE sender
  if verifier = 0 then
    .error (.error "Invalid verifier address")
  else if V.allowedCertificateVerifiers verifier = false then
    .error (.error "Verifier not currently allowed")
  else
    .ok ({ V with allowedCertificateVerifiers :=
        Function.update V.allowedCertificateVerifiers verifier false },
      [.verifierUpdated verifier false])

def setProviderOracle (sender : Address) (role : Role) (oracleAddress : Address) : Result := do
  V.members.onlyRole DEFAULT_ADMIN_ROLE sender
  .ok ({ V with roleOracle := Function.update V.roleOracle role oracleAddress },
    [.providerOracleUpdated role oracleAddress])

def getProviderOracle (role : Role) : Address := V.roleOracle role

/-- The public functions, dispatched. -/
def exec (sender : Address) : ValidatorCall → Result
  | .transferOwnership newOwner => V.transferOwnership sender newOwner
  | .setCertificateVerifier verifier => V.setCertificateVerifier sender verifier
  | .setVerifier verifier => V.setVerifier sender verifier
  | .removeVerifier verifier => V.removeVerifier sender verifier
  | .setProviderOracle role oracleAddress => V.setProviderOracle sender role oracleAddress
  | .grantRole role account => do
      let members ← V.members.grantRole sender role account
      .ok ({ V with members := members }, [])
  | .revokeRole role account => do
      let members ← V.members.revokeRole sender role account
      .ok ({ V with members := members }, [])
  | .renounceRole role callerConfirmation => do
      let members ← V.members.renounceRole sender role callerConfirmation
      .ok ({ V with members := members }, [])

/-! ## 3. Validation -/

/-- The check each branch of `verifyCertificate` ends with; the branches differ in the text. -/
def checkAllowed (reason : String) (answer : Address × Certificate) :
    Except Revert (Bytes × Address) :=
  if V.isAllowedVerifier answer.1 = true then .ok (answer.2.identifier, answer.2.owner)
  else .error (.invalidCertificate answer.1 reason)

/-- `verifyCertificate`: the identifier and the owner of the certificate. -/
def verifyCertificate (W : World) (roleDetails : RoleDetails) : Except Revert (Bytes × Address) :=
  let verifier := W.verifier V.certificateVerifier
  match roleDetails.role with
  | .emsp => do
      let answer ← verifier.verifyEMP roleDetails.certificateData roleDetails.signature
      V.checkAllowed "Invalid EMP certificate" answer
  | .cpo => do
      let answer ← verifier.verifyCPO roleDetails.certificateData roleDetails.signature
      V.checkAllowed "Invalid CPO certificate" answer
  | _ => do
      let answer ← verifier.verifyOther roleDetails.certificateData roleDetails.signature
      V.checkAllowed "Invalid Other certificate" answer

def compareIdentifiers (X : Crypto) (a b : Bytes) : Bool :=
  decide (X.keccak256 a = X.keccak256 b)

/-- The oracle's part of one round of the loop. -/
def checkProvider (X : Crypto) (W : World) (role : Role) (certificateIdentifier : Bytes) :
    Except Revert Unit :=
  let oracle := V.roleOracle role
  if oracle = 0 then .ok ()
  else do
    let provider ← W.getProvider oracle certificateIdentifier
    if compareIdentifiers X certificateIdentifier provider = true then .ok ()
    else .error (.providerNotFound role "Not active in oracle")

/-- The loop of `validateRegistration`, from entry `i` on; `i` is a `uint8`. -/
def validateFrom (X : Crypto) (W : World) :
    List RoleDetails → Nat → Address → List Role → Except Revert (Address × List Role)
  | [], _, credentialOwner, verifiedRoles => .ok (credentialOwner, verifiedRoles)
  | roleDetails :: rest, i, credentialOwner, verifiedRoles => do
      let (certificateIdentifier, owner) ← V.verifyCertificate W roleDetails
      let credentialOwner := if credentialOwner = 0 then owner else credentialOwner
      if credentialOwner ≠ owner then
        .error (.cerificateOwnerMismatch "Certificates have different owners")
      else do
        V.checkProvider X W roleDetails.role certificateIdentifier
        let j ← checkedIncr 256 i
        validateFrom X W rest j credentialOwner (verifiedRoles.set i roleDetails.role)

/-- `validateRegistration`; `new Role[](n)` is filled with the first role of the enumeration. -/
def validateRegistration (X : Crypto) (W : World) (roles : List RoleDetails) :
    Except Revert (Address × List Role) :=
  V.validateFrom X W roles 0 0 (List.replicate roles.length .cpo)

/-! ## 4. What is accepted -/

/-- The entry passes: an allowed verifier signed its certificate, which names `owner`, and the
    role's oracle, where one is set, knows it. -/
def EntryPasses (X : Crypto) (W : World) (roleDetails : RoleDetails) (owner : Address) : Prop :=
  ∃ identifier, V.verifyCertificate W roleDetails = .ok (identifier, owner) ∧
    V.checkProvider X W roleDetails.role identifier = .ok ()

/-- **The lists the loop accepts**: from the owner found so far (zero: none yet) to the owner at
    the end, every entry passes and names the owner found so far, if there is one. -/
inductive OwnerChain (X : Crypto) (W : World) : Address → List RoleDetails → Address → Prop where
  | done (owner : Address) : OwnerChain X W owner [] owner
  | entry {found owner last : Address} {roleDetails : RoleDetails} {rest : List RoleDetails}
      (hpass : V.EntryPasses X W roleDetails owner) (hsame : found = 0 ∨ found = owner)
      (hrest : OwnerChain X W owner rest last) : OwnerChain X W found (roleDetails :: rest) last

variable {V} {X : Crypto} {W : World}

theorem checkAllowed_eq_ok {reason : String} {answer : Address × Certificate} {identifier : Bytes}
    {owner : Address} : V.checkAllowed reason answer = .ok (identifier, owner) ↔
      V.isAllowedVerifier answer.1 = true ∧ answer.2 = ⟨identifier, owner⟩ := by
  unfold checkAllowed
  refine ⟨fun h => ?_, fun h => ?_⟩
  · split at h
    · rename_i hallowed
      cases h
      exact ⟨hallowed, rfl⟩
    · cases h
  · rw [if_pos h.1, h.2]

/-- **The verify function of the entry's role is asked**, and its verifier must be allowed. -/
theorem verifyCertificate_eq_ok {roleDetails : RoleDetails} {identifier : Bytes}
    {owner : Address} : V.verifyCertificate W roleDetails = .ok (identifier, owner) ↔
      ∃ verifier, (W.verifier V.certificateVerifier).verify roleDetails.role
          roleDetails.certificateData roleDetails.signature = .ok (verifier, ⟨identifier, owner⟩) ∧
        V.isAllowedVerifier verifier = true := by
  have hasked (reason : String) (answer : Except Revert (Address × Certificate)) :
      (answer >>= V.checkAllowed reason) = .ok (identifier, owner) ↔
        ∃ verifier, answer = .ok (verifier, ⟨identifier, owner⟩) ∧
          V.isAllowedVerifier verifier = true := by
    rw [bind_eq_ok]
    refine ⟨fun h => ?_, fun h => ?_⟩
    · obtain ⟨⟨verifier, certificate⟩, hanswer, h⟩ := h
      obtain ⟨hallowed, hcert⟩ := checkAllowed_eq_ok.mp h
      dsimp only at hallowed hcert
      rw [hcert] at hanswer
      exact ⟨verifier, hanswer, hallowed⟩
    · obtain ⟨verifier, hanswer, hallowed⟩ := h
      exact ⟨_, hanswer, checkAllowed_eq_ok.mpr ⟨hallowed, rfl⟩⟩
  unfold verifyCertificate
  cases hrole : roleDetails.role <;> exact hasked _ _

theorem checkProvider_eq_ok {role : Role} {identifier : Bytes} {u : Unit} :
    V.checkProvider X W role identifier = .ok u ↔ V.getProviderOracle role = 0 ∨
      ∃ provider, W.getProvider (V.getProviderOracle role) identifier = .ok provider ∧
        X.keccak256 identifier = X.keccak256 provider := by
  unfold checkProvider getProviderOracle compareIdentifiers
  dsimp only
  by_cases hz : V.roleOracle role = 0
  · rw [if_pos hz]
    exact ⟨fun _ => Or.inl hz, fun _ => rfl⟩
  rw [if_neg hz, bind_eq_ok]
  refine ⟨fun h => ?_, fun h => ?_⟩
  · obtain ⟨provider, hprovider, h⟩ := h
    split at h
    · rename_i hsame
      exact Or.inr ⟨provider, hprovider, of_decide_eq_true hsame⟩
    · cases h
  · obtain ⟨provider, hprovider, hsame⟩ := h.resolve_left hz
    exact ⟨provider, hprovider, if_pos (decide_eq_true hsame)⟩

/-- One round of the loop. -/
theorem validateFrom_cons_eq_ok {roleDetails : RoleDetails} {rest : List RoleDetails} {i : Nat}
    {found last : Address} {written verifiedRoles : List Role} :
    V.validateFrom X W (roleDetails :: rest) i found written = .ok (last, verifiedRoles) ↔
      ∃ owner, V.EntryPasses X W roleDetails owner ∧ (found = 0 ∨ found = owner) ∧ i + 1 < 256 ∧
        V.validateFrom X W rest (i + 1) owner (written.set i roleDetails.role) =
          .ok (last, verifiedRoles) := by
  rw [validateFrom]
  refine ⟨fun h => ?_, fun h => ?_⟩
  · obtain ⟨⟨identifier, owner⟩, hcert, h⟩ := bind_eq_ok.mp h
    dsimp only at h
    have howner : (if found = 0 then owner else found) = owner := by
      by_contra hne
      rw [if_pos hne] at h
      cases h
    rw [howner, if_neg (fun hne => hne rfl)] at h
    obtain ⟨⟨⟩, hprovider, h⟩ := bind_eq_ok.mp h
    obtain ⟨j, hj, h⟩ := bind_eq_ok.mp h
    obtain ⟨hlt, rfl⟩ := checkedIncr_eq_ok.mp hj
    refine ⟨owner, ⟨identifier, hcert, hprovider⟩, ?_, hlt, h⟩
    by_cases hz : found = 0
    · exact Or.inl hz
    · rw [if_neg hz] at howner
      exact Or.inr howner
  · obtain ⟨owner, ⟨identifier, hcert, hprovider⟩, hsame, hlt, h⟩ := h
    have howner : (if found = 0 then owner else found) = owner := by
      rcases hsame with hz | he
      · rw [if_pos hz]
      · rw [he, ite_self]
    refine bind_eq_ok.mpr ⟨(identifier, owner), hcert, ?_⟩
    dsimp only
    rw [howner, if_neg (fun hne => hne rfl)]
    refine bind_eq_ok.mpr ⟨(), hprovider, bind_eq_ok.mpr ⟨i + 1, ?_, h⟩⟩
    exact checkedIncr_eq_ok.mpr ⟨hlt, rfl⟩

/-- The loop from entry `i` on: the first `i` roles are written, the others are those of the
    entries left. -/
theorem validateFrom_eq_ok {roles : List RoleDetails} {i : Nat} {found last : Address}
    {written verifiedRoles : List Role} (hi : i < 256)
    (hlen : written.length = i + roles.length) :
    V.validateFrom X W roles i found written = .ok (last, verifiedRoles) ↔
      V.OwnerChain X W found roles last ∧ i + roles.length < 256 ∧
        verifiedRoles = written.take i ++ roles.map (·.role) := by
  induction roles generalizing i found written with
  | nil =>
      have htake : written.take i = written := List.take_of_length_le (by
        rw [hlen, List.length_nil]; omega)
      rw [validateFrom]
      refine ⟨fun h => ?_, fun h => ?_⟩
      · cases h
        exact ⟨.done _, hi, by rw [List.map_nil, List.append_nil, htake]⟩
      · obtain ⟨hchain, _, hroles⟩ := h
        cases hchain
        rw [hroles, List.map_nil, List.append_nil, htake]
  | cons roleDetails rest ih =>
      rw [List.length_cons] at hlen
      have hwritten : (written.set i roleDetails.role).take (i + 1) =
          written.take i ++ [roleDetails.role] := by
        rw [List.take_set, List.take_add_one, List.getElem?_eq_getElem (by omega),
          List.set_append_right _ _ (by rw [List.length_take]; omega)]
        simp [Nat.min_eq_left (show i ≤ written.length by omega)]
      have hround : ∀ owner, i + 1 < 256 →
          (V.validateFrom X W rest (i + 1) owner (written.set i roleDetails.role) =
              .ok (last, verifiedRoles) ↔
            V.OwnerChain X W owner rest last ∧ i + 1 + rest.length < 256 ∧
              verifiedRoles = written.take i ++ ((roleDetails :: rest).map (·.role))) := by
        intro owner hlt
        rw [ih hlt (by rw [List.length_set]; omega), hwritten, List.append_assoc]
        rfl
      rw [validateFrom_cons_eq_ok]
      refine ⟨fun h => ?_, fun h => ?_⟩
      · obtain ⟨owner, hpass, hsame, hlt, h⟩ := h
        obtain ⟨hchain, hcount, hroles⟩ := (hround owner hlt).mp h
        exact ⟨.entry hpass hsame hchain, by rw [List.length_cons]; omega, hroles⟩
      · obtain ⟨hchain, hcount, hroles⟩ := h
        rw [List.length_cons] at hcount
        cases hchain with
        | @entry _ owner _ _ _ hpass hsame hrest =>
            have hlt : i + 1 < 256 := by omega
            exact ⟨owner, hpass, hsame, hlt, (hround owner hlt).mpr ⟨hrest, by omega, hroles⟩⟩

/-- **What `validateRegistration` accepts, and what it returns.** -/
theorem validateRegistration_eq_ok {roles : List RoleDetails} {owner : Address}
    {verifiedRoles : List Role} :
    V.validateRegistration X W roles = .ok (owner, verifiedRoles) ↔
      V.OwnerChain X W 0 roles owner ∧ roles.length < 256 ∧
        verifiedRoles = roles.map (·.role) := by
  unfold validateRegistration
  rw [validateFrom_eq_ok (by decide) (by rw [List.length_replicate, Nat.zero_add]), Nat.zero_add,
    List.take_zero, List.nil_append]

theorem ownerChain_zero {roles : List RoleDetails} (h : ∀ r ∈ roles, V.EntryPasses X W r 0) :
    V.OwnerChain X W 0 roles 0 := by
  induction roles with
  | nil => exact .done 0
  | cons roleDetails rest ih =>
      exact .entry (h roleDetails List.mem_cons_self) (Or.inl rfl)
        (ih fun r hr => h r (List.mem_cons_of_mem roleDetails hr))

/-- **Certificates of the zero address are accepted**, and it is returned as their owner. -/
theorem validateRegistration_zero {roles : List RoleDetails} (hlen : roles.length < 256)
    (h : ∀ r ∈ roles, V.EntryPasses X W r 0) :
    V.validateRegistration X W roles = .ok (0, roles.map (·.role)) :=
  validateRegistration_eq_ok.mpr ⟨ownerChain_zero h, hlen, rfl⟩

end PartyRegistrationValidator

/-! ## 5. A certificate verifier to run examples on -/

namespace Sample

/-- The account whose certificates are trusted. -/
def verifier : Address := 7

/-- Every certificate is signed by the trusted account, and its owner is the first byte of its
    data; the oracles know every identifier. -/
def world : World where
  verifier := fun _ =>
    let read : Bytes → Bytes → Except Revert (Address × Certificate) := fun data _ =>
      .ok (verifier, ⟨data.drop 1, ((data.head?).getD 0).setWidth 160⟩)
    ⟨read, read, read⟩
  getProvider := fun _ identifier => .ok identifier

/-- A validator that allows the trusted account. -/
def validator : PartyRegistrationValidator where
  allowedCertificateVerifiers := fun a => decide (a = verifier)
  roleOracle := fun _ => 0
  certificateVerifier := 0x70
  members := fun _ _ => false

end Sample

end Ocn
