/-
  File:      OcnRegistry/Acceptance.lean
  Subject:   WELL-CERTIFIED LISTS AND THE LOOP COUNTER: what `validateRegistration` must accept.

  A list is well certified for an owner if every certificate is attributed to an allowed verifier,
  names that owner, and is known under its own identifier to the oracle of its role, where one is
  set. Nothing else is wrong with such a list, whatever its length; but the counter of the loop is
  a `uint8`, and its increment is checked.

  * `long_list_panics` -- 256 copies of one good certificate are refused with a panic;
  * `validation_complete_iff` -- a well-certified list is accepted, with its owner and its roles in
    order, exactly when it has fewer than 256 entries; every longer one panics.
-/
import OcnRegistry.CertificateOwners

namespace Ocn

namespace PartyRegistrationValidator

/-- **A well-certified list**: each certificate is attributed to an allowed verifier and owned by
    `owner`, and an oracle set for its role answers with the certificate's identifier. -/
def WellCertified (V : PartyRegistrationValidator) (W : World) (roles : List RoleDetails)
    (owner : Address) : Prop :=
  ∀ r ∈ roles, ∃ verifier identifier,
    (W.verifier V.certificateVerifier).verify r.role r.certificateData r.signature =
      .ok (verifier, ⟨identifier, owner⟩) ∧
    V.isAllowedVerifier verifier = true ∧
    (V.getProviderOracle r.role ≠ 0 →
      W.getProvider (V.getProviderOracle r.role) identifier = .ok identifier)

variable {V : PartyRegistrationValidator} {X : Crypto} {W : World} {roles : List RoleDetails}
  {owner found : Address}

/-! ## 1. Every entry passes -/

theorem WellCertified.entryPasses (h : V.WellCertified W roles owner) :
    ∀ r ∈ roles, V.EntryPasses X W r owner := by
  intro r hr
  obtain ⟨verifier, identifier, hverify, hallowed, hknown⟩ := h r hr
  have hcert : V.verifyCertificate W r = .ok (identifier, owner) :=
    verifyCertificate_eq_ok.mpr ⟨verifier, hverify, hallowed⟩
  have hprovider : V.checkProvider X W r.role identifier = .ok () := by
    refine checkProvider_eq_ok.mpr ?_
    by_cases hset : V.getProviderOracle r.role = 0
    · exact Or.inl hset
    · exact Or.inr ⟨identifier, hknown hset, rfl⟩
  exact ⟨identifier, hcert, hprovider⟩

/-! ## 2. The counter -/

/-- One round on an entry that passes, for the owner found so far: all that is left to fail is the
    increment of the counter. -/
theorem validateFrom_cons_of_passes {r : RoleDetails} {rest : List RoleDetails} {i : Nat}
    {written : List Role} (hpass : V.EntryPasses X W r owner) (hfound : found = 0 ∨ found = owner) :
    V.validateFrom X W (r :: rest) i found written =
      (checkedIncr 256 i >>= fun j => V.validateFrom X W rest j owner (written.set i r.role)) := by
  obtain ⟨identifier, hcert, hprovider⟩ := hpass
  have howner : (if found = 0 then owner else found) = owner := by
    rcases hfound with rfl | rfl
    · rw [if_pos rfl]
    · rw [ite_self]
  rw [validateFrom, hcert]
  show (if (if found = 0 then owner else found) ≠ owner then _ else _) = _
  rw [howner, if_neg (fun hne => hne rfl), hprovider]
  rfl

/-- The loop from entry `i` on reaches the increment that does not fit, if the list goes on to
    entry 255. -/
theorem validateFrom_long {i : Nat} {written : List Role} (hi : i < 256)
    (hlong : 256 ≤ i + roles.length) (hpass : ∀ r ∈ roles, V.EntryPasses X W r owner)
    (hfound : found = 0 ∨ found = owner) :
    V.validateFrom X W roles i found written = .error (.panic 0x11) := by
  induction roles generalizing i found written with
  | nil =>
      rw [List.length_nil] at hlong
      omega
  | cons r rest ih =>
      rw [List.length_cons] at hlong
      rw [validateFrom_cons_of_passes (hpass r List.mem_cons_self) hfound]
      by_cases hlast : i + 1 < 256
      · have hnext : checkedIncr 256 i = .ok (i + 1) := checkedIncr_eq_ok.mpr ⟨hlast, rfl⟩
        rw [hnext]
        exact ih hlast (by omega) (fun r hr => hpass r (List.mem_cons_of_mem _ hr)) (Or.inr rfl)
      · have hover : checkedIncr 256 i = .error (.panic 0x11) := if_neg hlast
        rw [hover]
        rfl

theorem validateRegistration_long (h : V.WellCertified W roles owner)
    (hlong : 256 ≤ roles.length) :
    V.validateRegistration X W roles = .error (.panic 0x11) :=
  validateFrom_long (by decide) (by omega) h.entryPasses (Or.inl rfl)

theorem validateRegistration_short (h : V.WellCertified W roles owner) (hne : roles ≠ [])
    (hlen : roles.length < 256) :
    V.validateRegistration X W roles = .ok (owner, roles.map (·.role)) := by
  have hchain : V.OwnerChain X W 0 roles (if roles = [] then 0 else owner) :=
    ownerChain_of_all (Or.inl rfl) h.entryPasses
  rw [if_neg hne] at hchain
  exact validateRegistration_eq_ok.mpr ⟨hchain, hlen, rfl⟩

/-- Copies of one certificate of the sample party. -/
theorem wellCertified_copies (n : Nat) :
    Sample.validator.WellCertified Sample.world (List.replicate n ⟨[3], [], .emsp⟩) 3 := by
  intro r hr
  rw [List.eq_of_mem_replicate hr]
  exact ⟨Sample.verifier, [], rfl, rfl, fun hset => absurd rfl hset⟩

/-- **256 good certificates are refused**: each is signed by an allowed verifier and owned by the
    same party, and the call panics. -/
theorem long_list_panics :
    let roles : List RoleDetails := List.replicate 256 ⟨[3], [], .emsp⟩
    roles ≠ [] ∧ (3 : Address) ≠ 0 ∧ Sample.validator.WellCertified Sample.world roles 3 ∧
      Sample.validator.validateRegistration (Sample.crypto []) Sample.world roles =
        .error (.panic 0x11) := by
  intro roles
  have hcopies := wellCertified_copies 256
  have hlong : 256 ≤ roles.length := Nat.le_of_eq List.length_replicate.symm
  exact ⟨List.cons_ne_nil _ _, by decide, hcopies, validateRegistration_long hcopies hlong⟩

/-- **Complete up to 255 entries**: for every validator, every certificate verifier and oracles, and
    every non-empty list that is well certified for one owner, `validateRegistration` returns that
    owner and the roles of the list in order exactly when there are fewer than 256 entries;
    otherwise the increment of the counter panics. -/
theorem validation_complete_iff (V : PartyRegistrationValidator) (X : Crypto) (W : World)
    (roles : List RoleDetails) (owner : Address) (hne : roles ≠ [])
    (h : V.WellCertified W roles owner) :
    (V.validateRegistration X W roles = .ok (owner, roles.map (·.role)) ↔ roles.length < 256) ∧
      (256 ≤ roles.length → V.validateRegistration X W roles = .error (.panic 0x11)) := by
  refine ⟨⟨fun hok => ?_, validateRegistration_short h hne⟩, validateRegistration_long h⟩
  exact (validateRegistration_eq_ok.mp hok).2.1

/-- The longest list that is accepted. -/
theorem validation_complete_255 :
    Sample.validator.validateRegistration (Sample.crypto []) Sample.world
      (List.replicate 255 ⟨[3], [], .emsp⟩) =
        .ok (3, (List.replicate 255 (⟨[3], [], .emsp⟩ : RoleDetails)).map (·.role)) := by
  have hlen : (List.replicate 255 (⟨[3], [], .emsp⟩ : RoleDetails)).length < 256 := by
    rw [List.length_replicate]
    decide
  exact (validation_complete_iff Sample.validator (Sample.crypto []) Sample.world _ 3
    (List.cons_ne_nil _ _) (wellCertified_copies 255)).1.mpr hlen

end PartyRegistrationValidator

end Ocn
