/-
  File:      OcnRegistry/Client/Vouching.lean
  Subject:   FROM CERTIFICATE FILES TO A LISTED PARTY: the command `set-party` of src/cli.ts, and
             what the contracts behind it make of the files.

  The command sends bytes; the certificate verifier decodes them, and the validator decides on what
  the verifier answers. Between the fields of the files and that decision nothing is lost: what is
  registered can be read off the files.

  * `claims_iff` -- a file that is sent is verified as what it claims, and no other;
  * `ownerChain_iff_claims` -- the loop of the validator, on the claims of the files;
  * `certificates_arrive` -- when the command registers a party, and with which listing.
-/
import OcnRegistry.Client.Certificates
import OcnRegistry.System

namespace Ocn

open Packed ICertificateVerifier

/-! ## 1. A verifier of the interface -/

/-- The account a certificate and its signature are recovered to, or why the verifier reverts. -/
structure Signers where
  emp : EMPCertificate → Signature → Except Revert Address
  cpo : CPOCertificate → Signature → Except Revert Address
  other : OtherCertificate → Signature → Except Revert Address

/-- **A verifier of the interface**: it decodes the two byte strings as the structs declared there,
    and answers with the account they are recovered to and with the certificate. -/
structure CertificateVerifier.Reads (verifier : CertificateVerifier) (signers : Signers) :
    Prop where
  emp {data signature : Bytes} {c : EMPCertificate} {sig : Signature}
    (hdata : EMPCertificate.decode data = some c) (hsig : Signature.decode signature = some sig) :
    verifier.verifyEMP data signature =
      (signers.emp c sig).map fun signer => (signer, ⟨c.identifier, c.owner⟩)
  cpo {data signature : Bytes} {c : CPOCertificate} {sig : Signature}
    (hdata : NamedCertificate.decode data = some c) (hsig : Signature.decode signature = some sig) :
    verifier.verifyCPO data signature =
      (signers.cpo c sig).map fun signer => (signer, ⟨c.identifier, c.owner⟩)
  other {data signature : Bytes} {c : OtherCertificate} {sig : Signature}
    (hdata : NamedCertificate.decode data = some c) (hsig : Signature.decode signature = some sig) :
    verifier.verifyOther data signature =
      (signers.other c sig).map fun signer => (signer, ⟨c.identifier, c.owner⟩)

namespace Client

/-! ## 2. The command -/

/-- Why the command ends. -/
inductive CommandError where
  | encoding (e : EncodingError)
  | unknownRole
  | notAString (argument : String)
  | request (e : RequestError)
  | reverted (reason : Revert)

/-- The same result, with the error as one of the command. -/
def orElse {ε α : Type} (report : ε → CommandError) : Except ε α → Except CommandError α
  | .ok a => .ok a
  | .error e => .error (report e)

/-- `types.RoleDetails`: the role is `undefined` where the enumeration has no such name. -/
structure RoleArgument where
  certificateData : Bytes
  signature : Bytes
  role : Option Role

section Command

variable (K : Workstation)

/-- The file of an argument: the options `credentials` and `certificates` are not declared strings,
    and a number is no path. -/
def readArgument (filePath : String) : Option JsonCertificate :=
  if K.isNumber filePath then none else K.readFile filePath

/-- `readJsonCertificates`: none at all if one of them cannot be read. -/
def readJsonCertificates (filePaths : List String) : List JsonCertificate :=
  (filePaths.mapM (readArgument K)).getD []

/-- A credential, of which `verifyStringLen` takes the length: a number has none. -/
def credential (argument : String) : Except CommandError String :=
  if K.isNumber argument then .error (.notAString argument) else .ok argument

/-- `Role[role]`. -/
def roleOf (name : String) : Option Role :=
  [.cpo, .emsp, .nap, .nsp, .other, .scsp, .hub].find? fun role => decide (roleName role = name)

/-- The role details of one file. -/
def roleArgument (certificate : JsonCertificate) : Except EncodingError RoleArgument :=
  if certificate.role = "EMSP" then do
    let certificateData ← encodeEmpCertificate K certificate.certificate
    let signature ← encodeCertificateSignature K certificate.signature
    .ok ⟨certificateData, signature, some .emsp⟩
  else if certificate.role = "CPO" then do
    let certificateData ← encodeCpoCertificate K certificate.certificate
    let signature ← encodeCertificateSignature K certificate.signature
    .ok ⟨certificateData, signature, roleOf certificate.role⟩
  else do
    let certificateData ← encodeOtherCertificate K certificate.certificate
    let signature ← encodeCertificateSignature K certificate.signature
    .ok ⟨certificateData, signature, roleOf certificate.role⟩

/-- The struct that is sent: `ethers` refuses an enumeration value that is `undefined`. -/
def sentDetails (argument : RoleArgument) : Except CommandError RoleDetails :=
  match argument.role with
  | some role => .ok ⟨argument.certificateData, argument.signature, role⟩
  | none => .error .unknownRole

/-- **`set-party`**: the files are read and encoded, then one transaction is sent to the system. -/
def setPartyCommand (X : Crypto) (S : System) (world : World) (outside : External)
    (signer : Option Account) (countryCode partyId : String) (certificates : List String)
    (operator name url : String) : Except CommandError (Outcome System SystemEvent) := do
  let arguments ←
    orElse .encoding ((readJsonCertificates K certificates).mapM (roleArgument K))
  let roles ← arguments.mapM sentDetails
  let countryCode ← credential K countryCode
  let partyId ← credential K partyId
  let t ← orElse .request (setPartyTx K.toPlatform outside signer countryCode partyId roles
    operator name url)
  orElse .reverted ((System.machine X).exec S ⟨t.sender, .registry t.call, world, outside⟩)

end Command

/-! ## 3. What a file claims -/

/-- What the contracts make of a file. -/
structure Claim where
  role : Role
  identifier : Bytes
  owner : Address
  signer : Address
  deriving DecidableEq

/-- **The claim of a file**: the role it names, the identifier and the owner in its certificate, and
    the account that certificate and its signature are recovered to. -/
inductive Claims (K : Workstation) (signers : Signers) (file : JsonCertificate) : Claim → Prop where
  | emp {c : EMPCertificate} {sig : Signature} {signer : Address} (hrole : file.role = "EMSP")
      (hc : empOfFile K file.certificate = .ok c)
      (hsig : signatureOfFile K file.signature = .ok sig)
      (hsigner : signers.emp c sig = .ok signer) :
      Claims K signers file ⟨.emsp, c.identifier, c.owner, signer⟩
  | cpo {c : CPOCertificate} {sig : Signature} {signer : Address} (hrole : file.role = "CPO")
      (hc : namedOfFile K file.certificate = .ok c)
      (hsig : signatureOfFile K file.signature = .ok sig)
      (hsigner : signers.cpo c sig = .ok signer) :
      Claims K signers file ⟨.cpo, c.identifier, c.owner, signer⟩
  | other {role : Role} {c : OtherCertificate} {sig : Signature} {signer : Address}
      (hrole : file.role = roleName role) (hemp : role ≠ .emsp) (hcpo : role ≠ .cpo)
      (hc : namedOfFile K file.certificate = .ok c)
      (hsig : signatureOfFile K file.signature = .ok sig)
      (hsigner : signers.other c sig = .ok signer) :
      Claims K signers file ⟨role, c.identifier, c.owner, signer⟩

/-- The role details that are sent for the file. -/
def Sends (K : Workstation) (file : JsonCertificate) (details : RoleDetails) : Prop :=
  ∃ argument, roleArgument K file = .ok argument ∧ sentDetails argument = .ok details

variable {K : Workstation} {signers : Signers} {file : JsonCertificate} {details : RoleDetails}
  {verifier : CertificateVerifier}

theorem roleOf_eq_some {name : String} {role : Role} :
    roleOf name = some role ↔ name = roleName role := by
  refine ⟨fun h => ?_, fun h => ?_⟩
  · unfold roleOf at h
    have hname := List.find?_some h
    exact (of_decide_eq_true hname).symm
  · subst h
    cases role <;> decide

theorem sentDetails_eq_ok {argument : RoleArgument} : sentDetails argument = .ok details ↔
    argument = ⟨details.certificateData, details.signature, some details.role⟩ := by
  obtain ⟨data, signature, role⟩ := argument
  unfold sentDetails
  cases role with
  | none => exact ⟨fun h => (by cases h), fun h => (by cases h)⟩
  | some role => exact ⟨fun h => by cases h; rfl, fun h => by cases h; rfl⟩

theorem Sends.unique {details' : RoleDetails} (h : Sends K file details)
    (h' : Sends K file details') : details = details' := by
  obtain ⟨argument, harg, hsent⟩ := h
  obtain ⟨argument', harg', hsent'⟩ := h'
  rw [harg] at harg'
  obtain rfl := Except.ok.inj harg'
  exact Except.ok.inj (hsent.symm.trans hsent')

/-- **What is sent for a file**: its structs, encoded, and the role it names. -/
inductive Encoded (K : Workstation) (file : JsonCertificate) : RoleDetails → Prop where
  | emp {c : EMPCertificate} {sig : Signature} (hrole : file.role = "EMSP")
      (hc : empOfFile K file.certificate = .ok c)
      (hsig : signatureOfFile K file.signature = .ok sig) :
      Encoded K file ⟨Abi.encode c.values, Abi.encode sig.values, .emsp⟩
  | named {role : Role} {c : NamedCertificate} {sig : Signature} (hrole : file.role = roleName role)
      (hemp : role ≠ .emsp) (hc : namedOfFile K file.certificate = .ok c)
      (hsig : signatureOfFile K file.signature = .ok sig) :
      Encoded K file ⟨Abi.encode c.values, Abi.encode sig.values, role⟩

/-- Two byte strings that are written for the role details of a file. -/
theorem encoded_pair {certificateData : Except EncodingError Bytes} {argument : RoleArgument}
    {role : Option Role} {signature : JsonSignature} :
    (do let data ← certificateData
        let signature ← encodeCertificateSignature K signature
        .ok (RoleArgument.mk data signature role)) = .ok argument ↔
      ∃ data sig, certificateData = .ok data ∧ signatureOfFile K signature = .ok sig ∧
        argument = ⟨data, Abi.encode sig.values, role⟩ := by
  rw [bind_eq_ok]
  refine exists_congr fun data => ?_
  rw [bind_eq_ok]
  refine ⟨fun h => ?_, fun h => ?_⟩
  · obtain ⟨hdata, bytes, hbytes, h⟩ := h
    rw [encodeCertificateSignature_eq] at hbytes
    obtain ⟨sig, hsig, rfl⟩ := map_eq_ok.mp hbytes
    exact ⟨sig, hdata, hsig, (Except.ok.inj h).symm⟩
  · obtain ⟨sig, hdata, hsig, rfl⟩ := h
    refine ⟨hdata, Abi.encode sig.values, ?_, rfl⟩
    rw [encodeCertificateSignature_eq]
    exact map_eq_ok.mpr ⟨sig, hsig, rfl⟩

theorem sends_iff : Sends K file details ↔ Encoded K file details := by
  obtain ⟨data, signature, role⟩ := details
  unfold Sends
  simp only [sentDetails_eq_ok, exists_eq_right]
  by_cases hemp : file.role = "EMSP"
  · rw [roleArgument, if_pos hemp, encoded_pair]
    refine ⟨fun h => ?_, fun h => ?_⟩
    · obtain ⟨_, sig, hdata, hsig, e⟩ := h
      rw [encodeEmpCertificate_eq] at hdata
      obtain ⟨c, hc, rfl⟩ := map_eq_ok.mp hdata
      obtain ⟨rfl, rfl, hrole⟩ := RoleArgument.mk.inj e
      obtain rfl := Option.some.inj hrole
      exact .emp hemp hc hsig
    · cases h with
      | @emp c sig _ hc hsig =>
          refine ⟨Abi.encode c.values, sig, ?_, hsig, rfl⟩
          rw [encodeEmpCertificate_eq]
          exact map_eq_ok.mpr ⟨_, hc, rfl⟩
      | named hrole hne =>
          have hname : roleName role = roleName .emsp := hrole.symm.trans hemp
          exact absurd (roleName_injective hname) hne
  · -- the encoders of the other two branches are the same
    have hbranch : roleArgument K file = (do
        let certificateData ← encodeOtherCertificate K file.certificate
        let signature ← encodeCertificateSignature K file.signature
        .ok ⟨certificateData, signature, roleOf file.role⟩) := by
      rw [roleArgument, if_neg hemp]
      exact ite_self _
    rw [hbranch, encoded_pair]
    refine ⟨fun h => ?_, fun h => ?_⟩
    · obtain ⟨_, sig, hdata, hsig, e⟩ := h
      rw [encodeOtherCertificate_eq] at hdata
      obtain ⟨c, hc, rfl⟩ := map_eq_ok.mp hdata
      obtain ⟨rfl, rfl, hrole⟩ := RoleArgument.mk.inj e
      have hname := roleOf_eq_some.mp hrole.symm
      refine .named hname (fun hr => hemp ?_) hc hsig
      rw [hname, hr]
      rfl
    · cases h with
      | emp hrole => exact absurd hrole hemp
      | @named _ c sig hrole _ hc hsig =>
          refine ⟨Abi.encode c.values, sig, ?_, hsig, ?_⟩
          · rw [encodeOtherCertificate_eq]
            exact map_eq_ok.mpr ⟨_, hc, rfl⟩
          · rw [roleOf_eq_some.mpr hrole]

theorem verify_other {role : Role} (hemp : role ≠ .emsp) (hcpo : role ≠ .cpo) :
    verifier.verify role = verifier.verifyOther := by
  cases role with
  | emsp => exact absurd rfl hemp
  | cpo => exact absurd rfl hcpo
  | _ => rfl

/-- **A file that is sent is verified as what it claims**, and no other. -/
theorem claims_iff (hreads : verifier.Reads signers) {claim : Claim} :
    Claims K signers file claim ↔ ∃ details, Sends K file details ∧ details.role = claim.role ∧
      verifier.verify details.role details.certificateData details.signature =
        .ok (claim.signer, ⟨claim.identifier, claim.owner⟩) := by
  refine ⟨fun h => ?_, fun h => ?_⟩
  · cases h with
    | emp hrole hc hsig hsigner =>
        refine ⟨_, sends_iff.mpr (.emp hrole hc hsig), rfl, ?_⟩
        exact (hreads.emp (decode_emp hc) (decode_signature _)).trans
          (map_eq_ok.mpr ⟨_, hsigner, rfl⟩)
    | cpo hrole hc hsig hsigner =>
        have hname : file.role = roleName .cpo := hrole
        refine ⟨_, sends_iff.mpr (.named hname (by decide) hc hsig), rfl, ?_⟩
        exact (hreads.cpo (decode_named hc) (decode_signature _)).trans
          (map_eq_ok.mpr ⟨_, hsigner, rfl⟩)
    | other hrole hemp hcpo hc hsig hsigner =>
        refine ⟨_, sends_iff.mpr (.named hrole hemp hc hsig), rfl, ?_⟩
        dsimp only
        rw [verify_other hemp hcpo]
        exact (hreads.other (decode_named hc) (decode_signature _)).trans
          (map_eq_ok.mpr ⟨_, hsigner, rfl⟩)
  · obtain ⟨details, hsends, hrole, hverify⟩ := h
    obtain ⟨role, identifier, owner, signer⟩ := claim
    dsimp only at hrole hverify
    subst hrole
    cases sends_iff.mp hsends with
    | @emp c sig hname hc hsig =>
        have hanswer := (hreads.emp (decode_emp hc) (decode_signature sig)).symm.trans hverify
        obtain ⟨signer', hsigner, e⟩ := map_eq_ok.mp hanswer
        cases e
        exact .emp hname hc hsig hsigner
    | @named role c sig hname hemp hc hsig =>
        dsimp only at hverify ⊢
        by_cases hcpo : role = .cpo
        · subst hcpo
          have hanswer := (hreads.cpo (decode_named hc) (decode_signature sig)).symm.trans hverify
          obtain ⟨signer', hsigner, e⟩ := map_eq_ok.mp hanswer
          cases e
          exact .cpo hname hc hsig hsigner
        · rw [verify_other hemp hcpo] at hverify
          have hanswer := (hreads.other (decode_named hc) (decode_signature sig)).symm.trans hverify
          obtain ⟨signer', hsigner, e⟩ := map_eq_ok.mp hanswer
          cases e
          exact .other hname hemp hcpo hc hsig hsigner

/-! ## 4. The validator, on the claims -/

/-- An allowed verifier signed the certificate, and the role's oracle, if set, knows it. -/
def Accepts (V : PartyRegistrationValidator) (X : Crypto) (W : World) (claim : Claim) : Prop :=
  V.isAllowedVerifier claim.signer = true ∧
    V.checkProvider X W claim.role claim.identifier = .ok ()

/-- **The owners agree**: from one that is not zero on they are all the same, and the last one is
    the owner that is registered. -/
def Agree : Address → List Address → Address → Prop
  | found, [], last => last = found
  | found, owner :: rest, last => (found = 0 ∨ found = owner) ∧ Agree owner rest last

/-- **The claims are vouched for**, and this is their owner. -/
structure Vouches (V : PartyRegistrationValidator) (X : Crypto) (W : World) (claims : List Claim)
    (owner : Address) : Prop where
  some : claims ≠ []
  count : claims.length < 256
  accepts : ∀ claim ∈ claims, Accepts V X W claim
  owners : Agree 0 (claims.map (·.owner)) owner

variable {V : PartyRegistrationValidator} {X : Crypto} {W : World} {files : List JsonCertificate}
  {roles : List RoleDetails} {claims : List Claim}

theorem Claims.named {claim : Claim} (h : Claims K signers file claim) :
    file.role = roleName claim.role := by
  cases h with
  | emp hrole => exact hrole
  | cpo hrole => exact hrole
  | other hrole => exact hrole

theorem Sends.named (h : Sends K file details) : file.role = roleName details.role := by
  cases sends_iff.mp h with
  | emp hrole => exact hrole
  | named hrole => exact hrole

/-- The roles that are sent are those of the claims. -/
theorem roles_eq (hclaims : List.Forall₂ (Claims K signers) files claims)
    (hsends : List.Forall₂ (Sends K) files roles) :
    claims.map (·.role) = roles.map (·.role) := by
  induction hsends generalizing claims with
  | nil =>
      cases hclaims
      rfl
  | cons hfile _ ih =>
      cases hclaims with
      | cons hclaim hclaims =>
          have hrole := roleName_injective (hclaim.named.symm.trans hfile.named)
          rw [List.map_cons, List.map_cons, hrole, ih hclaims]

/-- An entry passes if its file has a claim that does. -/
theorem entryPasses_iff_claim (hreads : (W.verifier V.certificateVerifier).Reads signers)
    (hsends : Sends K file details) {owner : Address} :
    V.EntryPasses X W details owner ↔ ∃ claim, Claims K signers file claim ∧
      claim.owner = owner ∧ Accepts V X W claim := by
  refine ⟨fun h => ?_, fun h => ?_⟩
  · obtain ⟨identifier, hcert, hprovider⟩ := h
    obtain ⟨signer, hverify, hallowed⟩ :=
      PartyRegistrationValidator.verifyCertificate_eq_ok.mp hcert
    exact ⟨⟨details.role, identifier, owner, signer⟩,
      (claims_iff hreads).mpr ⟨details, hsends, rfl, hverify⟩, rfl, hallowed, hprovider⟩
  · obtain ⟨claim, hclaim, rfl, hallowed, hprovider⟩ := h
    obtain ⟨details', hsends', hrole, hverify⟩ := (claims_iff hreads).mp hclaim
    obtain rfl := hsends.unique hsends'
    rw [← hrole] at hprovider
    exact ⟨claim.identifier, PartyRegistrationValidator.verifyCertificate_eq_ok.mpr
      ⟨claim.signer, hverify, hallowed⟩, hprovider⟩

/-- **The loop of the validator**, read off the claims of the files. -/
theorem ownerChain_iff_claims (hreads : (W.verifier V.certificateVerifier).Reads signers)
    (hsends : List.Forall₂ (Sends K) files roles) {found last : Address} :
    V.OwnerChain X W found roles last ↔ ∃ claims, List.Forall₂ (Claims K signers) files claims ∧
      (∀ claim ∈ claims, Accepts V X W claim) ∧ Agree found (claims.map (·.owner)) last := by
  induction hsends generalizing found with
  | nil =>
      refine ⟨fun h => ?_, fun h => ?_⟩
      · cases h
        exact ⟨[], .nil, fun _ h => absurd h List.not_mem_nil, rfl⟩
      · obtain ⟨claims, hclaims, _, howners⟩ := h
        cases hclaims
        obtain rfl : last = found := howners
        exact .done last
  | cons hfile _ ih =>
      refine ⟨fun h => ?_, fun h => ?_⟩
      · cases h with
        | entry hpass hsame hrest =>
            obtain ⟨claim, hclaim, rfl, haccepts⟩ := (entryPasses_iff_claim hreads hfile).mp hpass
            obtain ⟨claims, hclaims, hall, howners⟩ := ih.mp hrest
            exact ⟨claim :: claims, .cons hclaim hclaims,
              List.forall_mem_cons.mpr ⟨haccepts, hall⟩, hsame, howners⟩
      · obtain ⟨_, hclaims, hall, howners⟩ := h
        cases hclaims with
        | @cons _ claim _ claims hclaim hclaims =>
            obtain ⟨haccepts, hall⟩ := List.forall_mem_cons.mp hall
            exact .entry ((entryPasses_iff_claim hreads hfile).mpr ⟨claim, hclaim, rfl, haccepts⟩)
              howners.1 (ih.mpr ⟨claims, hclaims, hall, howners.2⟩)

/-- **What the validator answers** for the role details of the files. -/
theorem validate_iff_vouches (hreads : (W.verifier V.certificateVerifier).Reads signers)
    (hsends : List.Forall₂ (Sends K) files roles) (hne : roles ≠ []) {owner : Address}
    {verifiedRoles : List Role} :
    V.validateRegistration X W roles = .ok (owner, verifiedRoles) ↔
      ∃ claims, List.Forall₂ (Claims K signers) files claims ∧ Vouches V X W claims owner ∧
        verifiedRoles = claims.map (·.role) := by
  rw [PartyRegistrationValidator.validateRegistration_eq_ok, ownerChain_iff_claims hreads hsends]
  have hlength (claims : List Claim) (hclaims : List.Forall₂ (Claims K signers) files claims) :
      claims.length = roles.length := hclaims.length_eq.symm.trans hsends.length_eq
  refine ⟨fun h => ?_, fun h => ?_⟩
  · obtain ⟨⟨claims, hclaims, hall, howners⟩, hcount, rfl⟩ := h
    have hsame := hlength claims hclaims
    refine ⟨claims, hclaims, ⟨?_, by omega, hall, howners⟩, (roles_eq hclaims hsends).symm⟩
    rintro rfl
    exact hne (List.length_eq_zero_iff.mp hsame.symm)
  · obtain ⟨claims, hclaims, hvouches, rfl⟩ := h
    have hcount := hvouches.count
    rw [hlength claims hclaims] at hcount
    exact ⟨⟨claims, hclaims, hvouches.accepts, hvouches.owners⟩, hcount, roles_eq hclaims hsends⟩

/-! ## 5. The command on the system -/

theorem orElse_eq_ok {ε α : Type} {report : ε → CommandError} {x : Except ε α} {a : α} :
    orElse report x = .ok a ↔ x = .ok a := by
  cases x with
  | error e => exact ⟨fun h => (by cases h), fun h => (by cases h)⟩
  | ok b => exact ⟨fun h => congrArg Except.ok (Except.ok.inj h), fun h => by cases h; rfl⟩

theorem credential_eq_ok {argument read : String} :
    credential K argument = .ok read ↔ K.isNumber argument = false ∧ argument = read := by
  unfold credential
  split
  · rename_i hnumber
    rw [hnumber]
    exact ⟨fun h => (by cases h), fun h => (by cases h.1)⟩
  · rename_i hstring
    exact ⟨fun h => ⟨Bool.eq_false_iff.mpr hstring, Except.ok.inj h⟩,
      fun h => congrArg Except.ok h.2⟩

/-- The files are encoded and sent one by one. -/
theorem sends_all : List.Forall₂ (Sends K) files roles ↔
    ∃ arguments, files.mapM (roleArgument K) = .ok arguments ∧
      arguments.mapM sentDetails = .ok roles := by
  simp only [mapM_eq_ok]
  refine ⟨fun h => ?_, fun h => ?_⟩
  · induction h with
    | nil => exact ⟨[], .nil, .nil⟩
    | cons hfile _ ih =>
        obtain ⟨argument, hargument, hsent⟩ := hfile
        obtain ⟨arguments, harguments, hrest⟩ := ih
        exact ⟨argument :: arguments, .cons hargument harguments, .cons hsent hrest⟩
  · obtain ⟨arguments, harguments, hsent⟩ := h
    induction harguments generalizing roles with
    | nil =>
        cases hsent
        exact .nil
    | cons hargument _ ih =>
        cases hsent with
        | cons hfirst hrest => exact .cons ⟨_, hargument, hfirst⟩ (ih hrest)

/-- Files with claims can be sent. -/
theorem exists_sends (hreads : verifier.Reads signers)
    (h : List.Forall₂ (Claims K signers) files claims) :
    ∃ roles, List.Forall₂ (Sends K) files roles := by
  induction h with
  | nil => exact ⟨[], .nil⟩
  | cons hclaim _ ih =>
      obtain ⟨details, hsends, _⟩ := (claims_iff hreads).mp hclaim
      obtain ⟨roles, hroles⟩ := ih
      exact ⟨details :: roles, .cons hsends hroles⟩

/-- **What was asked for**: the key, the operator and the texts of the listing, which can be sent:
    no credential reads as a number, and the operator passes the check and resolves. -/
structure Requests (K : Workstation) (signer : Option Account)
    (countryCode partyId operator name url : String) (L : Listing) : Prop where
  signer : signer.isSome = true
  strings : K.isNumber countryCode = false ∧ K.isNumber partyId = false
  countryCode : Spells K.upper 2 countryCode L.countryCode
  partyId : Spells K.upper 3 partyId L.partyId
  checked : (K.getAddress operator).isSome = true
  operator : K.resolveAddress operator = some L.operator
  parsed : (K.url.origin url).isSome = true
  name : L.name = Utf8.encode name
  url : L.url = Utf8.encode url

/-- **The registry has room for the listing**, and this is the payment status of its owner. -/
structure Welcomes (st : OcnRegistry) (outside : External) (L : Listing) (status : PaymentStatus) :
    Prop where
  country : L.countryCode ≠ 0
  party : L.partyId ≠ 0
  someOperator : L.operator ≠ 0
  free : st.uniqueParties L.countryCode L.partyId = 0 ∨
    st.uniqueParties L.countryCode L.partyId = L.owner
  node : st.nodeOf L.operator ≠ []
  payment : outside.getPaymentStatus st.paymentManager L.owner = .ok status

/-- The system after the listing was registered. -/
def stored (S : System) (L : Listing) (status : PaymentStatus) : System :=
  { S with
    registry := S.registry.storeParty L.owner
      (S.registry.newDetails L.countryCode L.partyId L.owner L.roles L.name L.url status)
      L.operator }

/-- What the registry logs for it. -/
def logged (L : Listing) (status : PaymentStatus) : SystemEvent :=
  .registry (.partyUpdate L.countryCode L.partyId L.owner L.roles L.name L.url status .notVerified
    true L.operator)

/-- The command, taken apart: role details are sent for the files, and the transaction succeeds. -/
theorem setPartyCommand_eq_ok {S S' : System} {outside : External} {signer : Option Account}
    {countryCode partyId : String} {certificates : List String} {operator name url : String}
    {ev : List SystemEvent} :
    setPartyCommand K X S W outside signer countryCode partyId certificates operator name url =
        .ok (S', ev) ↔
      ∃ roles, List.Forall₂ (Sends K) (readJsonCertificates K certificates) roles ∧
        K.isNumber countryCode = false ∧ K.isNumber partyId = false ∧
        ∃ t, setPartyTx K.toPlatform outside signer countryCode partyId roles operator name url =
            .ok t ∧
          (System.machine X).exec S ⟨t.sender, .registry t.call, W, outside⟩ = .ok (S', ev) := by
  unfold setPartyCommand
  rw [bind_eq_ok]
  refine ⟨fun h => ?_, fun h => ?_⟩
  · obtain ⟨arguments, harguments, h⟩ := h
    obtain ⟨roles, hsent, h⟩ := bind_eq_ok.mp h
    obtain ⟨_, hcountry, h⟩ := bind_eq_ok.mp h
    obtain ⟨hcode, rfl⟩ := credential_eq_ok.mp hcountry
    obtain ⟨_, hparty, h⟩ := bind_eq_ok.mp h
    obtain ⟨hid, rfl⟩ := credential_eq_ok.mp hparty
    obtain ⟨t, ht, hexec⟩ := bind_eq_ok.mp h
    exact ⟨roles, sends_all.mpr ⟨arguments, orElse_eq_ok.mp harguments, hsent⟩, hcode, hid, t,
      orElse_eq_ok.mp ht, orElse_eq_ok.mp hexec⟩
  · obtain ⟨roles, hsends, hcountry, hparty, t, ht, hexec⟩ := h
    obtain ⟨arguments, harguments, hsent⟩ := sends_all.mp hsends
    exact ⟨arguments, orElse_eq_ok.mpr harguments, bind_eq_ok.mpr ⟨roles, hsent,
      bind_eq_ok.mpr ⟨_, credential_eq_ok.mpr ⟨hcountry, rfl⟩, bind_eq_ok.mpr
        ⟨_, credential_eq_ok.mpr ⟨hparty, rfl⟩, bind_eq_ok.mpr
          ⟨t, orElse_eq_ok.mpr ht, orElse_eq_ok.mpr hexec⟩⟩⟩⟩⟩

/-- **A `setParty` on the system** whose registry asks this validator. -/
theorem system_setParty_eq_ok {S S' : System} {outside : External} {account : Account}
    (hV : S.validators S.registry.partyRegistrationValidator = some V) {code : Bytes2} {id : Bytes3}
    {operator : Address} {name url : Bytes} {ev : List SystemEvent} :
    (System.machine X).exec S
        ⟨account, .registry (.setParty code id roles operator name url), W, outside⟩ =
        .ok (S', ev) ↔
      ∃ owner verifiedRoles status, roles ≠ [] ∧
        V.validateRegistration X W roles = .ok (owner, verifiedRoles) ∧
        Welcomes S.registry outside ⟨owner, code, id, verifiedRoles, operator, name, url⟩ status ∧
        S' = stored S ⟨owner, code, id, verifiedRoles, operator, name, url⟩ status ∧
        ev = [logged ⟨owner, code, id, verifiedRoles, operator, name, url⟩ status] := by
  let t : SystemTx :=
    ⟨account, .registry (.setParty code id roles operator name url), W, outside⟩
  have hasked : (S.external X t).validateRegistration S.registry.partyRegistrationValidator roles =
      V.validateRegistration X W roles := by
    unfold System.external
    dsimp only
    rw [hV]
  have hcall : (System.machine X).exec S t = (do
      let result ← S.registry.setParty (S.external X t) code id roles operator name url
      .ok ({ S with registry := result.1 }, result.2.map .registry)) := rfl
  rw [hcall, bind_eq_ok]
  refine ⟨fun h => ?_, fun h => ?_⟩
  · obtain ⟨⟨registry, logs⟩, hset, h⟩ := h
    obtain ⟨rfl, rfl⟩ := Prod.mk.inj (Except.ok.inj h)
    obtain ⟨owner, verifiedRoles, status, hadmits, rfl, rfl⟩ := OcnRegistry.setParty_eq_ok.mp hset
    exact ⟨owner, verifiedRoles, status, hadmits.someRole, hasked.symm.trans hadmits.valid,
      ⟨hadmits.country, hadmits.party, hadmits.someOperator, hadmits.free, hadmits.node,
        hadmits.payment⟩, rfl, rfl⟩
  · obtain ⟨owner, verifiedRoles, status, hne, hvalid, hroom, rfl, rfl⟩ := h
    refine ⟨_, OcnRegistry.setParty_eq_ok.mpr ⟨owner, verifiedRoles, status, ?_, rfl, rfl⟩, rfl⟩
    exact ⟨hroom.country, hroom.party, hne, hroom.someOperator, hasked.trans hvalid, hroom.free,
      hroom.node, hroom.payment⟩

end Client

/-! ## 6. Files to run examples on -/

namespace Sample

/-- In the samples a signature's `r` is the account that signed. -/
def signers : Signers where
  emp := fun _ sig => .ok (sig.r.setWidth 160)
  cpo := fun _ sig => .ok (sig.r.setWidth 160)
  other := fun _ sig => .ok (sig.r.setWidth 160)

/-- A verify function that decodes what it is given. -/
def readingVerify {σ : Type} (decode : Bytes → Option σ)
    (recover : σ → Signature → Except Revert Address) (certificate : σ → Certificate)
    (data signature : Bytes) : Except Revert (Address × Certificate) :=
  match decode data, Signature.decode signature with
  | some c, some sig => (recover c sig).map fun signer => (signer, certificate c)
  | _, _ => .error (.external [])

/-- Every verifier reads the structs, and the oracles know every identifier. -/
def readingWorld : World where
  verifier := fun _ =>
    ⟨readingVerify EMPCertificate.decode signers.emp fun c => ⟨c.identifier, c.owner⟩,
      readingVerify NamedCertificate.decode signers.cpo fun c => ⟨c.identifier, c.owner⟩,
      readingVerify NamedCertificate.decode signers.other fun c => ⟨c.identifier, c.owner⟩⟩
  getProvider := fun _ identifier => .ok identifier

theorem readingWorld_reads (contract : Address) :
    (readingWorld.verifier contract).Reads signers where
  emp hdata hsig := by
    show readingVerify _ _ _ _ _ = _
    rw [readingVerify, hdata, hsig]
  cpo hdata hsig := by
    show readingVerify _ _ _ _ _ = _
    rw [readingVerify, hdata, hsig]
  other hdata hsig := by
    show readingVerify _ _ _ _ _ = _
    rw [readingVerify, hdata, hsig]

/-- The sample party's address, as a text. -/
def partyText : String := "0x0000000000000000000000000000000000000003"

/-- A certificate of the sample party, signed by the trusted account. -/
def certificateFile (role : String) : Client.JsonCertificate where
  role := role
  certificate := fun field =>
    if field = "owner" then some ⟨partyText, by decide +kernel⟩ else some ⟨"DE", by decide +kernel⟩
  signature := ⟨"7", "7", 27⟩

def workstation : Client.Workstation where
  toPlatform :=
    { platform with
      getAddress := fun address =>
        if address = partyText then some party.address else platform.getAddress address }
  readFile := fun filePath =>
    if filePath = "emsp.json" then some (certificateFile "EMSP")
    else if filePath = "hub.json" then some (certificateFile "HUB")
    else none
  isNumber := fun argument => decide (argument ≠ "") && argument.toList.all Gate.isDigit
  getBytes := fun digits => if digits = "7" then some (wordBytes 32 7) else none

/-- A verifier is allowed and the operator lists its node. -/
def preparation : List SystemTx := publication.take 2

end Sample

end Ocn
