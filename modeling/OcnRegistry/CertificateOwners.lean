/-
  File:      OcnRegistry/CertificateOwners.lean
  Subject:   THE OWNER OF A LIST OF CERTIFICATES: one for all of them, in any order?

  The loop of `validateRegistration` keeps the owner found so far and uses the zero address for
  "none yet". The zero address is a possible owner of a certificate, too: such certificates agree
  with whatever comes after them, and not with what came before.

  * `owner_depends_on_order` -- a list of a zero-owned certificate and a party's is accepted for the
    party in one order and refused in the other;
  * `one_owner_iff` -- a list is read as one non-zero owner for all certificates, the same in any
    order, exactly when it is refused in every order (too long, an entry that does not pass, two
    different non-zero owners) or has entries and none is owned by the zero address.
-/
import OcnRegistry.Validator
import OcnRegistry.Registry.Run

namespace Ocn

namespace PartyRegistrationValidator

/-! ## 1. What is wanted, and of which lists -/

variable (V : PartyRegistrationValidator) (X : Crypto) (W : World)

/-- The owner field of the entry's certificate. -/
def CertificateOwner (roleDetails : RoleDetails) (owner : Address) : Prop :=
  ∃ verifier certificate, (W.verifier V.certificateVerifier).verify roleDetails.role
    roleDetails.certificateData roleDetails.signature = .ok (verifier, certificate) ∧
    certificate.owner = owner

/-- The list is not accepted. -/
def Refused (roles : List RoleDetails) : Prop :=
  ∀ owner verifiedRoles, V.validateRegistration X W roles ≠ .ok (owner, verifiedRoles)

/-- **One owner, in any order**: if the list is accepted, the owner returned is not zero and is that
    of every certificate; and any permutation of it is refused with it, or accepted for the same
    owner. -/
def OneOwner (roles : List RoleDetails) : Prop :=
  (∀ owner verifiedRoles, V.validateRegistration X W roles = .ok (owner, verifiedRoles) →
    owner ≠ 0 ∧ ∀ r ∈ roles, V.CertificateOwner W r owner) ∧
  ∀ roles', roles.Perm roles' → (V.Refused X W roles ∧ V.Refused X W roles') ∨
    ∃ owner verifiedRoles verifiedRoles',
      V.validateRegistration X W roles = .ok (owner, verifiedRoles) ∧
      V.validateRegistration X W roles' = .ok (owner, verifiedRoles')

/-- Two entries pass for different owners, neither of them zero. -/
def OwnersClash (roles : List RoleDetails) : Prop :=
  ∃ r ∈ roles, ∃ r' ∈ roles, ∃ owner owner', V.EntryPasses X W r owner ∧
    V.EntryPasses X W r' owner' ∧ owner ≠ 0 ∧ owner' ≠ 0 ∧ owner ≠ owner'

/-- **The sentinel does not matter**: the list is too long, an entry does not pass, or two non-zero
    owners differ; or there are entries, and none passes for the zero address. -/
def SentinelUnused (roles : List RoleDetails) : Prop :=
  256 ≤ roles.length ∨ (∃ r ∈ roles, ∀ owner, ¬ V.EntryPasses X W r owner) ∨
    V.OwnersClash X W roles ∨ (roles ≠ [] ∧ ∀ r ∈ roles, ¬ V.EntryPasses X W r 0)

/-! ## 2. Chains of owners -/

variable {V} {X} {W} {roles roles' : List RoleDetails} {found owner last : Address}

theorem entryPasses_unique {r : RoleDetails} {owner' : Address} (h : V.EntryPasses X W r owner)
    (h' : V.EntryPasses X W r owner') : owner = owner' := by
  obtain ⟨_, hcert, _⟩ := h
  obtain ⟨_, hcert', _⟩ := h'
  exact congrArg Prod.snd (Except.ok.inj (hcert.symm.trans hcert'))

/-- An entry that passes passes for the owner of its certificate. -/
theorem owner_of_entryPasses {r : RoleDetails} {owner' : Address}
    (h : V.EntryPasses X W r owner) (h' : V.CertificateOwner W r owner') : owner = owner' := by
  obtain ⟨_, hcert, _⟩ := h
  obtain ⟨_, hverify, _⟩ := verifyCertificate_eq_ok.mp hcert
  obtain ⟨_, certificate, hverify', howner⟩ := h'
  rw [← howner, (Prod.mk.inj (Except.ok.inj (hverify'.symm.trans hverify))).2]

theorem certificateOwner_of_entryPasses {r : RoleDetails} (h : V.EntryPasses X W r owner) :
    V.CertificateOwner W r owner := by
  obtain ⟨identifier, hcert, _⟩ := h
  obtain ⟨verifier, hverify, _⟩ := verifyCertificate_eq_ok.mp hcert
  exact ⟨verifier, ⟨identifier, owner⟩, hverify, rfl⟩

/-- Once a non-zero owner is found, it is the last one. -/
theorem OwnerChain.last_eq (h : V.OwnerChain X W found roles last) (hz : found ≠ 0) :
    last = found := by
  induction h with
  | done => rfl
  | entry _ hsame _ ih =>
      have e := hsame.resolve_left hz
      rw [ih (e ▸ hz), e]

/-- Every entry passes, for the zero address or for the last owner. -/
theorem OwnerChain.passes (h : V.OwnerChain X W found roles last) :
    ∀ r ∈ roles, ∃ owner, V.EntryPasses X W r owner ∧ (owner = 0 ∨ owner = last) := by
  induction h with
  | done => exact fun _ hr => absurd hr List.not_mem_nil
  | @entry _ owner _ roleDetails rest hpass _ hrest ih =>
      intro r hr
      rcases List.mem_cons.mp hr with rfl | hr
      · exact ⟨owner, hpass, Classical.or_iff_not_imp_left.mpr fun hz => (hrest.last_eq hz).symm⟩
      · exact ih r hr

theorem OwnerChain.append {middle : Address} (h : V.OwnerChain X W found roles middle)
    (h' : V.OwnerChain X W middle roles' last) :
    V.OwnerChain X W found (roles ++ roles') last := by
  induction h with
  | done => exact h'
  | entry hpass hsame _ ih => exact .entry hpass hsame (ih h')

/-- Entries that all pass for one owner form a chain; the last owner is theirs, unless there is no
    entry. -/
theorem ownerChain_of_all (hfound : found = 0 ∨ found = owner)
    (h : ∀ r ∈ roles, V.EntryPasses X W r owner) :
    V.OwnerChain X W found roles (if roles = [] then found else owner) := by
  induction roles generalizing found with
  | nil => exact .done found
  | cons roleDetails rest ih =>
      rw [if_neg (List.cons_ne_nil _ _)]
      have hrest := ih (Or.inr rfl) fun r hr => h r (List.mem_cons_of_mem _ hr)
      rw [ite_self] at hrest
      exact .entry (h roleDetails List.mem_cons_self) hfound hrest

/-- **Without zero-owned certificates, a chain is agreement**, which does not depend on the
    order. -/
theorem ownerChain_iff (hne : roles ≠ []) (hz : ∀ r ∈ roles, ¬ V.EntryPasses X W r 0) :
    V.OwnerChain X W 0 roles owner ↔ ∀ r ∈ roles, V.EntryPasses X W r owner := by
  refine ⟨fun h r hr => ?_, fun h => ?_⟩
  · obtain ⟨owner', hpass, howner⟩ := h.passes r hr
    have hne' : owner' ≠ 0 := fun e => hz r hr (e ▸ hpass)
    rwa [← howner.resolve_left hne']
  · have hchain : V.OwnerChain X W 0 roles (if roles = [] then 0 else owner) :=
      ownerChain_of_all (Or.inl rfl) h
    rwa [if_neg hne] at hchain

/-! ## 3. Lists that are refused in every order -/

theorem refused_of_no_chain (h : ∀ owner, ¬ V.OwnerChain X W 0 roles owner) :
    V.Refused X W roles := fun owner _ hok => h owner (validateRegistration_eq_ok.mp hok).1

theorem refused_of_long (h : 256 ≤ roles.length) : V.Refused X W roles := by
  intro owner verifiedRoles hok
  have hlen := (validateRegistration_eq_ok.mp hok).2.1
  omega

theorem refused_of_entry (h : ∃ r ∈ roles, ∀ owner, ¬ V.EntryPasses X W r owner) :
    V.Refused X W roles := by
  refine refused_of_no_chain fun owner hchain => ?_
  obtain ⟨r, hr, hno⟩ := h
  obtain ⟨owner', hpass, _⟩ := hchain.passes r hr
  exact hno owner' hpass

theorem refused_of_clash (h : V.OwnersClash X W roles) : V.Refused X W roles := by
  refine refused_of_no_chain fun last hchain => ?_
  obtain ⟨r, hr, r', hr', owner, owner', hpass, hpass', hz, hz', hne⟩ := h
  have hlast : ∀ r ∈ roles, ∀ owner, V.EntryPasses X W r owner → owner ≠ 0 → owner = last := by
    intro r hr owner hpass hz
    obtain ⟨o, ho, hor⟩ := hchain.passes r hr
    rw [entryPasses_unique hpass ho] at hz ⊢
    exact hor.resolve_left hz
  exact hne ((hlast r hr owner hpass hz).trans (hlast r' hr' owner' hpass' hz').symm)

/-- A list refused in every order is read the same in every order. -/
theorem oneOwner_of_refused (h : ∀ roles', roles.Perm roles' → V.Refused X W roles') :
    V.OneOwner X W roles :=
  ⟨fun owner verifiedRoles hok => absurd hok (h roles (List.Perm.refl _) owner verifiedRoles),
    fun roles' hp => Or.inl ⟨h roles (List.Perm.refl _), h roles' hp⟩⟩

theorem OwnersClash.perm (hp : roles.Perm roles') (h : V.OwnersClash X W roles) :
    V.OwnersClash X W roles' := by
  obtain ⟨r, hr, r', hr', hrest⟩ := h
  exact ⟨r, hp.mem_iff.mp hr, r', hp.mem_iff.mp hr', hrest⟩

/-! ## 4. Both directions -/

theorem oneOwner_of_noZero (hlen : roles.length < 256) (hne : roles ≠ [])
    (hz : ∀ r ∈ roles, ¬ V.EntryPasses X W r 0) : V.OneOwner X W roles := by
  refine ⟨fun owner verifiedRoles hok => ?_, fun roles' hp => ?_⟩
  · have hall := (ownerChain_iff hne hz).mp (validateRegistration_eq_ok.mp hok).1
    obtain ⟨r, hr⟩ := List.exists_mem_of_ne_nil roles hne
    exact ⟨fun e => hz r hr (e ▸ hall r hr),
      fun r hr => certificateOwner_of_entryPasses (hall r hr)⟩
  · have hne' : roles' ≠ [] := fun e => hne (e ▸ hp).eq_nil
    have hz' : ∀ r ∈ roles', ¬ V.EntryPasses X W r 0 := fun r hr => hz r (hp.mem_iff.mpr hr)
    have hchain : ∀ owner, V.OwnerChain X W 0 roles owner ↔ V.OwnerChain X W 0 roles' owner := by
      intro owner
      rw [ownerChain_iff hne hz, ownerChain_iff hne' hz']
      exact forall_congr' fun r => imp_congr_left hp.mem_iff
    by_cases haccepted : ∃ owner, V.OwnerChain X W 0 roles owner
    · obtain ⟨owner, h⟩ := haccepted
      exact Or.inr ⟨owner, _, _, validateRegistration_eq_ok.mpr ⟨h, hlen, rfl⟩,
        validateRegistration_eq_ok.mpr ⟨(hchain owner).mp h, hp.length_eq ▸ hlen, rfl⟩⟩
    · exact Or.inl ⟨refused_of_no_chain fun owner h => haccepted ⟨owner, h⟩,
        refused_of_no_chain fun owner h => haccepted ⟨owner, (hchain owner).mpr h⟩⟩

/-- **Zero-owned certificates first**: a list whose entries all pass, with no two non-zero owners
    that differ, has an order that is accepted. -/
theorem exists_accepted_order (hlen : roles.length < 256)
    (hpass : ∀ r ∈ roles, ∃ owner, V.EntryPasses X W r owner) (hclash : ¬ V.OwnersClash X W roles) :
    ∃ roles' owner, roles.Perm roles' ∧
      V.validateRegistration X W roles' = .ok (owner, roles'.map (·.role)) := by
  classical
  let zeros := roles.filter fun r => decide (V.EntryPasses X W r 0)
  let others := roles.filter fun r => !decide (V.EntryPasses X W r 0)
  have hperm : roles.Perm (zeros ++ others) := (List.filter_append_perm _ roles).symm
  have hzeros : ∀ r ∈ zeros, V.EntryPasses X W r 0 := fun r hr => by
    simpa using (List.mem_filter.mp hr).2
  have hnonzero : ∀ r ∈ others, r ∈ roles ∧ ¬ V.EntryPasses X W r 0 := fun r hr => by
    simpa [others] using hr
  have hothers : ∃ owner, ∀ r ∈ others, V.EntryPasses X W r owner := by
    by_cases hempty : others = []
    · exact ⟨0, fun r hr => absurd (hempty ▸ hr) List.not_mem_nil⟩
    · obtain ⟨r, hr⟩ := List.exists_mem_of_ne_nil others hempty
      obtain ⟨hmem, hnz⟩ := hnonzero r hr
      obtain ⟨owner, howner⟩ := hpass r hmem
      refine ⟨owner, fun r' hr' => ?_⟩
      obtain ⟨hmem', hnz'⟩ := hnonzero r' hr'
      obtain ⟨owner', howner'⟩ := hpass r' hmem'
      have hsame : owner = owner' := Classical.byContradiction fun hne =>
        hclash ⟨r, hmem, r', hmem', owner, owner', howner, howner', fun e => hnz (e ▸ howner),
          fun e => hnz' (e ▸ howner'), hne⟩
      rwa [hsame]
  obtain ⟨owner, howner⟩ := hothers
  have hfirst : V.OwnerChain X W 0 zeros (if zeros = [] then 0 else 0) :=
    ownerChain_of_all (Or.inl rfl) hzeros
  rw [ite_self] at hfirst
  exact ⟨zeros ++ others, _, hperm, validateRegistration_eq_ok.mpr
    ⟨hfirst.append (ownerChain_of_all (Or.inl rfl) howner), hperm.length_eq ▸ hlen, rfl⟩⟩

theorem sentinelUnused_of_oneOwner (h : V.OneOwner X W roles) : V.SentinelUnused X W roles := by
  by_contra hno
  have hlen : roles.length < 256 := Nat.lt_of_not_le fun hlong => hno (Or.inl hlong)
  have hpass : ∀ r ∈ roles, ∃ owner, V.EntryPasses X W r owner := fun r hr =>
    Classical.byContradiction fun hn =>
      hno (Or.inr (Or.inl ⟨r, hr, fun owner howner => hn ⟨owner, howner⟩⟩))
  have hclash : ¬ V.OwnersClash X W roles := fun h => hno (Or.inr (Or.inr (Or.inl h)))
  have hzero : roles ≠ [] → ∃ r ∈ roles, V.EntryPasses X W r 0 := fun hne =>
    Classical.byContradiction fun hn =>
      hno (Or.inr (Or.inr (Or.inr ⟨hne, fun r hr hz => hn ⟨r, hr, hz⟩⟩)))
  obtain ⟨roles', owner', hperm, haccepted⟩ := exists_accepted_order hlen hpass hclash
  -- so the list itself is accepted, for one non-zero owner of all certificates
  have hself : ∃ owner verifiedRoles,
      V.validateRegistration X W roles = .ok (owner, verifiedRoles) := by
    rcases h.2 roles' hperm with ⟨_, hrefused⟩ | ⟨owner, verifiedRoles, _, hok, _⟩
    · exact absurd haccepted (hrefused owner' _)
    · exact ⟨owner, verifiedRoles, hok⟩
  obtain ⟨owner, verifiedRoles, hok⟩ := hself
  obtain ⟨hne, howners⟩ := h.1 owner verifiedRoles hok
  by_cases hempty : roles = []
  · have hchain := (validateRegistration_eq_ok.mp hok).1
    rw [hempty] at hchain
    cases hchain
    exact hne rfl
  · obtain ⟨r, hr, hz⟩ := hzero hempty
    exact hne (owner_of_entryPasses hz (howners r hr)).symm

/-- **The order matters**: a zero-owned certificate before a party's is accepted for the party,
    after it it is refused; and alone it is accepted for the zero address. -/
theorem owner_depends_on_order :
    let X := Sample.crypto []
    let zero : RoleDetails := ⟨[0], [], .cpo⟩
    let mine : RoleDetails := ⟨[3], [], .emsp⟩
    let validate := Sample.validator.validateRegistration X Sample.world
    validate [zero, mine] = .ok (3, [.cpo, .emsp]) ∧
      validate [mine, zero] =
        .error (.cerificateOwnerMismatch "Certificates have different owners") ∧
      validate [zero] = .ok (0, [.cpo]) ∧
      ¬ Sample.validator.OneOwner X Sample.world [zero, mine] ∧
      ¬ Sample.validator.OneOwner X Sample.world [zero] := by
  intro X zero mine validate
  have hmixed : validate [zero, mine] = .ok (3, [.cpo, .emsp]) := rfl
  have hzero : validate [zero] = .ok (0, [.cpo]) := rfl
  refine ⟨hmixed, rfl, hzero, fun h => ?_, fun h => (h.1 0 [.cpo] hzero).1 rfl⟩
  obtain ⟨_, howners⟩ := h.1 3 [.cpo, .emsp] hmixed
  obtain ⟨verifier, certificate, hverify, howner⟩ := howners zero List.mem_cons_self
  cases hverify
  exact absurd howner (by decide)

/-- **When a list has one owner**: for every validator, every certificate verifier and oracles, and
    every list, the owner returned is non-zero and that of every certificate, and the same in every
    order, exactly when the sentinel does not matter. -/
theorem one_owner_iff (V : PartyRegistrationValidator) (X : Crypto) (W : World)
    (roles : List RoleDetails) : V.OneOwner X W roles ↔ V.SentinelUnused X W roles := by
  refine ⟨sentinelUnused_of_oneOwner, fun h => ?_⟩
  by_cases hlen : 256 ≤ roles.length
  · exact oneOwner_of_refused fun roles' hp => refused_of_long (hp.length_eq ▸ hlen)
  rcases h with hlong | hentry | hclash | ⟨hne, hz⟩
  · exact absurd hlong hlen
  · refine oneOwner_of_refused fun roles' hp => refused_of_entry ?_
    obtain ⟨r, hr, hno⟩ := hentry
    exact ⟨r, hp.mem_iff.mp hr, hno⟩
  · exact oneOwner_of_refused fun roles' hp => refused_of_clash (hclash.perm hp)
  · exact oneOwner_of_noZero (by omega) hne hz

end PartyRegistrationValidator

end Ocn
