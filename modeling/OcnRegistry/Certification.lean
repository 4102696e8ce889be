/-
  File:      OcnRegistry/Certification.lean
  Subject:   LISTED ROLES ARE CERTIFIED: where every role of a registered party comes from.

  The roles of a record are those of the certificates the last `setParty` for it was given, and
  that call had each of them checked: by the function of the role's kind, against the verifiers
  that were allowed then, and against the role's oracle, where one was set. Later changes of
  verifiers and oracles do not take a listing back.

  * `validatorChange_of_exec` -- what a successful call to a validator does;
  * `noZeroVerifier_run` -- no validator ever allows the zero address as a verifier;
  * `listed_roles_certified` -- the provenance of the roles of every registered party.
-/
import OcnRegistry.System

namespace Ocn

open Transaction

namespace PartyRegistrationValidator

/-! ## 1. What a successful call to a validator does -/

/-- The role functions among the calls. -/
def roleCall : ValidatorCall → Option RoleCall
  | .transferOwnership newOwner => some (.transferOwnership newOwner)
  | .grantRole role account => some (.grantRole role account)
  | .revokeRole role account => some (.revokeRole role account)
  | .renounceRole role callerConfirmation => some (.renounceRole role callerConfirmation)
  | _ => none

/-- **The changes of a validator**: the storage after a successful call. -/
inductive Change (V : PartyRegistrationValidator) (sender : Address) (call : ValidatorCall) :
    PartyRegistrationValidator → Prop where
  | membersSet (r : RoleCall) (members : RoleMembers) (hcall : roleCall call = some r)
      (hmembers : V.members.exec sender r = .ok members) :
      Change V sender call { V with members := members }
  | certificateVerifierSet (verifier : Address) (hcall : call = .setCertificateVerifier verifier)
      (hadmin : V.members DEFAULT_ADMIN_ROLE sender = true) (hne : verifier ≠ 0) :
      Change V sender call { V with certificateVerifier := verifier }
  | verifierSet (verifier : Address) (hcall : call = .setVerifier verifier)
      (hadmin : V.members DEFAULT_ADMIN_ROLE sender = true) (hne : verifier ≠ 0)
      (hnew : V.isAllowedVerifier verifier = false) :
      Change V sender call
        { V with
          allowedCertificateVerifiers :=
            Function.update V.allowedCertificateVerifiers verifier true }
  | verifierRemoved (verifier : Address) (hcall : call = .removeVerifier verifier)
      (hadmin : V.members DEFAULT_ADMIN_ROLE sender = true) (hne : verifier ≠ 0)
      (hold : V.isAllowedVerifier verifier = true) :
      Change V sender call
        { V with
          allowedCertificateVerifiers :=
            Function.update V.allowedCertificateVerifiers verifier false }
  | providerOracleSet (role : Role) (oracleAddress : Address)
      (hcall : call = .setProviderOracle role oracleAddress)
      (hadmin : V.members DEFAULT_ADMIN_ROLE sender = true) :
      Change V sender call
        { V with roleOracle := Function.update V.roleOracle role oracleAddress }

variable {V V' : PartyRegistrationValidator} {X : Crypto} {W : World} {sender : Address}
  {call : ValidatorCall} {ev : List ValidatorEvent}

/-- **Every successful call makes one of the changes.** -/
theorem validatorChange_of_exec (h : V.exec sender call = .ok (V', ev)) :
    V.Change sender call V' := by
  cases call with
  | transferOwnership newOwner =>
      obtain ⟨members, hm, rfl, _⟩ := bind_outcome_eq_ok.mp h
      exact .membersSet (.transferOwnership newOwner) members rfl hm
  | setCertificateVerifier verifier =>
      obtain ⟨hadmin, h⟩ := RoleMembers.onlyRole_bind_eq_ok.mp h
      obtain ⟨hne, h⟩ := guard_eq_ok.mp h
      cases h
      exact .certificateVerifierSet verifier rfl hadmin hne
  | setVerifier verifier =>
      obtain ⟨hadmin, h⟩ := RoleMembers.onlyRole_bind_eq_ok.mp h
      obtain ⟨hne, h⟩ := guard_eq_ok.mp h
      obtain ⟨hnew, h⟩ := guard_eq_ok.mp h
      cases h
      exact .verifierSet verifier rfl hadmin hne (Bool.eq_false_iff.mpr hnew)
  | removeVerifier verifier =>
      obtain ⟨hadmin, h⟩ := RoleMembers.onlyRole_bind_eq_ok.mp h
      obtain ⟨hne, h⟩ := guard_eq_ok.mp h
      obtain ⟨hold, h⟩ := guard_eq_ok.mp h
      cases h
      exact .verifierRemoved verifier rfl hadmin hne ((Bool.not_eq_false _).mp hold)
  | setProviderOracle role oracleAddress =>
      obtain ⟨hadmin, h⟩ := RoleMembers.onlyRole_bind_eq_ok.mp h
      cases h
      exact .providerOracleSet role oracleAddress rfl hadmin
  | grantRole role account =>
      obtain ⟨members, hm, rfl, _⟩ := bind_outcome_eq_ok.mp h
      exact .membersSet (.grantRole role account) members rfl hm
  | revokeRole role account =>
      obtain ⟨members, hm, rfl, _⟩ := bind_outcome_eq_ok.mp h
      exact .membersSet (.revokeRole role account) members rfl hm
  | renounceRole role callerConfirmation =>
      obtain ⟨members, hm, rfl, _⟩ := bind_outcome_eq_ok.mp h
      exact .membersSet (.renounceRole role callerConfirmation) members rfl hm

/-- `setVerifier` refuses the zero address. -/
theorem noZeroVerifier_exec (h0 : V.isAllowedVerifier 0 = false)
    (h : V.exec sender call = .ok (V', ev)) : V'.isAllowedVerifier 0 = false := by
  cases validatorChange_of_exec h with
  | membersSet => exact h0
  | certificateVerifierSet => exact h0
  | verifierSet verifier _ _ hne =>
      show Function.update V.allowedCertificateVerifiers verifier true 0 = false
      rw [Function.update_of_ne hne.symm]
      exact h0
  | verifierRemoved verifier _ _ hne =>
      show Function.update V.allowedCertificateVerifiers verifier false 0 = false
      rw [Function.update_of_ne hne.symm]
      exact h0
  | providerOracleSet => exact h0

/-! ## 2. Certified entries -/

/-- **The certificate of the entry was checked**: the verify function of the role's kind attributes
    it to an allowed verifier that is not zero, and the role's oracle, where one is set, answers
    its identifier with the same identifier. -/
def Certified (V : PartyRegistrationValidator) (W : World) (roleDetails : RoleDetails) : Prop :=
  ∃ verifier certificate,
    (W.verifier V.certificateVerifier).verify roleDetails.role roleDetails.certificateData
      roleDetails.signature = .ok (verifier, certificate) ∧
    verifier ≠ 0 ∧ V.isAllowedVerifier verifier = true ∧
    (V.getProviderOracle roleDetails.role ≠ 0 →
      W.getProvider (V.getProviderOracle roleDetails.role) certificate.identifier =
        .ok certificate.identifier)

theorem certified_of_entryPasses (hk : Function.Injective X.keccak256)
    (h0 : V.isAllowedVerifier 0 = false) {roleDetails : RoleDetails} {owner : Address}
    (h : V.EntryPasses X W roleDetails owner) : V.Certified W roleDetails := by
  obtain ⟨identifier, hcert, hprovider⟩ := h
  obtain ⟨verifier, hverify, hallowed⟩ := verifyCertificate_eq_ok.mp hcert
  refine ⟨verifier, ⟨identifier, owner⟩, hverify, fun e => ?_, hallowed, fun horacle => ?_⟩
  · rw [e, h0] at hallowed
    cases hallowed
  · obtain ⟨provider, hanswer, hsame⟩ := (checkProvider_eq_ok.mp hprovider).resolve_left horacle
    rwa [← hk hsame] at hanswer

theorem OwnerChain.entryPasses {roles : List RoleDetails} {found last : Address}
    (h : V.OwnerChain X W found roles last) :
    ∀ r ∈ roles, ∃ owner, V.EntryPasses X W r owner := by
  induction h with
  | done => exact fun _ hr => absurd hr List.not_mem_nil
  | entry hpass _ _ ih =>
      intro r hr
      rcases List.mem_cons.mp hr with rfl | hr
      · exact ⟨_, hpass⟩
      · exact ih r hr

/-- **An accepted list is certified**, entry by entry, and its roles are the ones returned. -/
theorem certified_of_validateRegistration (hk : Function.Injective X.keccak256)
    (h0 : V.isAllowedVerifier 0 = false) {roles : List RoleDetails} {owner : Address}
    {verifiedRoles : List Role}
    (h : V.validateRegistration X W roles = .ok (owner, verifiedRoles)) :
    verifiedRoles = roles.map (·.role) ∧ ∀ r ∈ roles, V.Certified W r := by
  obtain ⟨hchain, _, hroles⟩ := validateRegistration_eq_ok.mp h
  refine ⟨hroles, fun r hr => ?_⟩
  obtain ⟨owner', hpass⟩ := hchain.entryPasses r hr
  exact certified_of_entryPasses hk h0 hpass

end PartyRegistrationValidator

/-! ## 3. Validators and listings over runs of the system -/

namespace System

variable {X : Crypto} {S S' : System} {t : SystemTx} {ev : List SystemEvent} {a : Address}

/-- A step leaves a validator as it is, or makes a call to it. -/
theorem validators_step (h : (machine X).exec S t = .ok (S', ev)) {contract : Address}
    {V' : PartyRegistrationValidator} (hV : S'.validators contract = some V') :
    S.validators contract = some V' ∨ ∃ V call ev, S.validators contract = some V ∧
      V.exec t.sender.address call = .ok (V', ev) := by
  have hexec : exec X S t = .ok (S', ev) := h
  unfold exec at hexec
  cases hcall : t.call with
  | registry call =>
      rw [hcall] at hexec
      obtain ⟨r, _, hr⟩ := bind_eq_ok.mp hexec
      cases hr
      exact Or.inl hV
  | validator called call =>
      rw [hcall] at hexec
      dsimp only at hexec
      split at hexec
      · cases hexec
        exact Or.inl hV
      · rename_i V hold
        obtain ⟨⟨V'', ev'⟩, hok, hr⟩ := bind_eq_ok.mp hexec
        cases hr
        have hnew : Function.update S.validators called (some V'') contract = some V' := hV
        by_cases e : contract = called
        · rw [e, Function.update_self] at hnew
          rw [e, ← Option.some.inj hnew]
          exact Or.inr ⟨V, call, ev', hold, hok⟩
        · left
          rwa [Function.update_of_ne e] at hnew

/-- No validator allows the zero address. -/
def NoZeroVerifier (S : System) : Prop :=
  ∀ contract V, S.validators contract = some V → V.isAllowedVerifier 0 = false

theorem noZeroVerifier_run (X : Crypto) (D : SystemDeployment) (ts : List SystemTx) :
    (D.run X ts).NoZeroVerifier := by
  refine Machine.run_invariant_all (M := machine X) (fun S t S' ev hI h => ?_) ts ?_
  · intro contract V' hV
    rcases validators_step h hV with hold | ⟨V, call, ev, hold, hok⟩
    · exact hI contract V' hold
    · exact PartyRegistrationValidator.noZeroVerifier_exec (hI contract V hold) hok
  · intro contract V hV
    obtain ⟨d, _, hd⟩ := Option.map_eq_some_iff.mp hV
    rw [← hd]
    rfl

/-- The registry asks a `PartyRegistrationValidator`. -/
def AsksValidator (S : System) : Prop :=
  (S.validators S.registry.partyRegistrationValidator).isSome = true

/-- The transaction is a `setParty` that succeeds, for the owner `a`, with these role details. -/
def Registers (X : Crypto) (S : System) (t : SystemTx) (a : Address) (roles : List RoleDetails) :
    Prop :=
  ∃ countryCode partyId operator name url verifiedRoles status,
    t.call = .registry (.setParty countryCode partyId roles operator name url) ∧
    OcnRegistry.SetPartyAdmits S.registry (S.external X t) countryCode partyId roles operator a
      verifiedRoles status

/-- The validator that answered an accepted `setParty`. -/
theorem validated_of_asksValidator (hasks : S.AsksValidator) {roles : List RoleDetails}
    {verifiedRoles : List Role}
    (h : (S.external X t).validateRegistration S.registry.partyRegistrationValidator roles =
      .ok (a, verifiedRoles)) :
    ∃ V, S.validators S.registry.partyRegistrationValidator = some V ∧
      V.validateRegistration X t.world roles = .ok (a, verifiedRoles) := by
  obtain ⟨V, hV⟩ := Option.isSome_iff_exists.mp hasks
  refine ⟨V, hV, ?_⟩
  unfold external at h
  dsimp only at h
  rwa [hV] at h

/-- After an accepted `setParty` the listing has the roles the validator returned. -/
theorem listing_of_registers {roles : List RoleDetails} (h : Registers X S t a roles) :
    ∃ l verifiedRoles, ((machine X).step S t).registry.listing a = some l ∧
      l.roles = verifiedRoles ∧ roles ≠ [] ∧
      (S.external X t).validateRegistration S.registry.partyRegistrationValidator roles =
        .ok (a, verifiedRoles) := by
  obtain ⟨countryCode, partyId, operator, name, url, verifiedRoles, status, hcall, hadmits⟩ := h
  let l : Listing := ⟨countryCode, partyId, verifiedRoles, name, url, operator⟩
  have hpub : S.registry.Publishes (S.registryTx X t
      (.setParty countryCode partyId roles operator name url)) a l :=
    ⟨roles, status, rfl, hadmits⟩
  refine ⟨l, verifiedRoles, ?_, rfl, hadmits.someRole, hadmits.valid⟩
  rw [step_registry hcall, OcnRegistry.step_publishes hpub, Function.update_self]

/-- Without such a call the listing is removed or stays. -/
theorem listing_step_of_not_registers (h : ¬ ∃ roles, Registers X S t a roles) :
    ((machine X).step S t).registry.listing a = none ∨
      ((machine X).step S t).registry.listing a = S.registry.listing a := by
  cases hcall : t.call with
  | registry call =>
      rw [step_registry hcall]
      rcases OcnRegistry.listing_step X S.registry (S.registryTx X t call) a with
        ⟨l, roles, status, hset, hadmits⟩ | ⟨_, e⟩ | e
      · refine absurd ⟨roles, l.countryCode, l.partyId, l.operator, l.name, l.url, l.roles, status,
          ?_, hadmits⟩ h
        exact hcall.trans (congrArg _ hset)
      · exact Or.inl e
      · exact Or.inr e
  | validator contract call =>
      right
      rw [step_validator hcall]

/-- Along a run without such a call, a property of the listing that holds of no listing at all is
    kept. -/
theorem listing_run_of_not_registers {P : Listing → Prop} {ts : List SystemTx}
    (h : (machine X).Along (fun S t => ¬ ∃ roles, Registers X S t a roles) S ts)
    (h0 : ∀ l, S.registry.listing a = some l → P l) :
    ∀ l, ((machine X).run S ts).registry.listing a = some l → P l := by
  refine Machine.run_invariant (M := machine X)
    (I := fun S => ∀ l, S.registry.listing a = some l → P l) (fun S t S' ev hI hC hok l hl => ?_)
    h h0
  rw [← Machine.step_ok hok] at hl
  rcases listing_step_of_not_registers hC with e | e
  · rw [e] at hl
    cases hl
  · exact hI l (e ▸ hl)

end System

/-! ## 4. Provenance -/

/-- **Listed roles are certified**: in every run in which the registry always asks a validator,
    every registered party was last written by an accepted `setParty` of the run; its roles are
    those of that call's list, in order, of which there is at least one; and at that call every
    entry of the list was certified by the validator the registry asked. -/
theorem listed_roles_certified (X : Crypto) (hk : Function.Injective X.keccak256)
    (D : SystemDeployment) (ts : List SystemTx)
    (hasks : (System.machine X).Along (fun S _ => S.AsksValidator) D.start ts) (a : Address)
    (ha : (D.run X ts).registry.operatorOf a ≠ 0) :
    ∃ pre t post roles V, ts = pre ++ t :: post ∧
      System.Registers X (D.run X pre) t a roles ∧
      (System.machine X).Along (fun S u => ¬ ∃ roles, System.Registers X S u a roles)
        (D.run X (pre ++ [t])) post ∧
      (D.run X pre).validators (D.run X pre).registry.partyRegistrationValidator = some V ∧
      ((D.run X ts).registry.partyOf a).roles ≠ [] ∧
      ((D.run X ts).registry.partyOf a).roles = roles.map (·.role) ∧
      ∀ (i : Nat) (hi : i < roles.length), V.Certified t.world roles[i] := by
  obtain ⟨l, hl, hrecord⟩ : ∃ l, (D.run X ts).registry.listing a = some l ∧
      ((D.run X ts).registry.partyOf a).roles = l.roles := ⟨_, if_neg ha, rfl⟩
  have hnever : ¬ (System.machine X).Along (fun S t => ¬ ∃ roles, System.Registers X S t a roles)
      D.start ts := fun h =>
    System.listing_run_of_not_registers (P := fun _ => False) h (fun _ h0 => by cases h0) l hl
  obtain ⟨pre, t, post, e, ⟨roles, hreg⟩, hpost⟩ := Machine.exists_last hnever
  have hstep : D.run X (pre ++ [t]) = (System.machine X).step (D.run X pre) t :=
    Machine.run_append (M := System.machine X) D.start pre [t]
  have hasked : (D.run X pre).AsksValidator := by
    rw [e] at hasks
    exact (Machine.along_append.mp hasks).2.1
  obtain ⟨l', verifiedRoles, hl', hroles', hne, hvalid⟩ := System.listing_of_registers hreg
  obtain ⟨V, hV, hok⟩ := System.validated_of_asksValidator hasked hvalid
  obtain ⟨hverified, hcertified⟩ :=
    PartyRegistrationValidator.certified_of_validateRegistration hk
      (System.noZeroVerifier_run X D pre _ V hV) hok
  -- the listing keeps these roles, for as long as it is there
  have hkept : l.roles = roles.map (·.role) := by
    refine System.listing_run_of_not_registers (P := fun l => l.roles = roles.map (·.role)) hpost
      (fun l₀ h₀ => ?_) l ?_
    · rw [hl'] at h₀
      cases h₀
      exact hroles'.trans hverified
    · have hrun : D.run X ts = (System.machine X).run ((System.machine X).step (D.run X pre) t)
          post := by
        rw [e]
        exact Machine.run_append (M := System.machine X) D.start pre (t :: post)
      exact (congrArg (fun S : System => S.registry.listing a) hrun).symm.trans hl
  refine ⟨pre, t, post, roles, V, e, hreg, by rw [hstep]; exact hpost, hV, ?_,
    hrecord.trans hkept, fun i hi => hcertified _ (List.getElem_mem hi)⟩
  rw [hrecord, hkept]
  exact fun hnil => hne (List.map_eq_nil_iff.mp hnil)

/-- The party of the sample publication: one CPO role, certified by the verifier that was allowed
    first. -/
theorem listed_roles_certified_publication :
    ∃ t ∈ Sample.publication, ∃ (roles : List RoleDetails) (V : PartyRegistrationValidator),
      ((Sample.systemDeployment.run (Sample.crypto []) Sample.publication).registry.partyOf
        Sample.party.address).roles = roles.map (·.role) ∧
      ∀ (i : Nat) (hi : i < roles.length),
        V.Certified t.world roles[i] := by
  obtain ⟨pre, t, post, roles, V, e, _, _, _, _, hroles, hcertified⟩ :=
    listed_roles_certified (Sample.crypto []) Function.injective_id Sample.systemDeployment
      Sample.publication ⟨rfl, rfl, rfl, rfl, trivial⟩ Sample.party.address (by decide +kernel)
  exact ⟨t, by rw [e]; exact List.mem_append_right _ List.mem_cons_self, roles, V, hroles,
    hcertified⟩

end Ocn
