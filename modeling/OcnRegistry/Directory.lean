/-
  File:      OcnRegistry/Directory.lean
  Subject:   WHAT THE REGISTRY IS FOR: a directory of nodes and parties, and how far the contract
             keeps to it.

  A directory is two tables of entries under unique names (Library/Naming.lean): operators under
  their domains, parties under their keys. It has no flags, no indices and no zero address, and
  nothing is left behind when an entry is replaced. Who may make which step is not its subject
  (Registry/Raw.lean and System.lean are about that).

  * `directory_run` -- every run of the registry that never registers the zero address is a run of
    the directory;
  * `directory_offers` -- conversely, where no domain is lost and no key is stale the registry
    offers every step of the directory: with what `setNode` and `setParty` leave behind, it does
    not.
-/
import OcnRegistry.Library.Naming
import OcnRegistry.Registry.Nodes
import OcnRegistry.Registry.Keys
import OcnRegistry.Registry.Listings
import Mathlib.Logic.Relation

namespace Ocn

open Transaction

/-! ## 1. The directory -/

/-- The key a listing is found under. -/
def Listing.key (l : Listing) : Bytes2 × Bytes3 := (l.countryCode, l.partyId)

/-- **A directory**: operators under their domains, parties under their keys. -/
structure Directory where
  nodes : Naming.Table Address Bytes Bytes id
  parties : Naming.Table Address Listing (Bytes2 × Bytes3) Listing.key

namespace Directory

def empty : Directory := ⟨.empty, .empty⟩

/-- A step of the directory is a step of one of its tables. -/
inductive Step (D : Directory) : Directory → Prop where
  | node {T : Naming.Table Address Bytes Bytes id} (h : D.nodes.Step T) :
      Step D { D with nodes := T }
  | party {T : Naming.Table Address Listing (Bytes2 × Bytes3) Listing.key} (h : D.parties.Step T) :
      Step D { D with parties := T }

theorem eq_of_entries {D E : Directory} (hn : D.nodes.entry = E.nodes.entry)
    (hp : D.parties.entry = E.parties.entry) : D = E := by
  obtain ⟨n, p⟩ := D
  obtain ⟨n', p'⟩ := E
  have en : n = n' := Naming.Table.eq_of_entry hn
  have ep : p = p' := Naming.Table.eq_of_entry hp
  rw [en, ep]

end Directory

/-! ## 2. The directory a registry keeps -/

namespace OcnRegistry

/-- The domain of an address, if it has a node. -/
def nodeEntry (st : OcnRegistry) (a : Address) : Option Bytes :=
  if st.nodeOf a = [] then none else some (st.nodeOf a)

section Entries

variable {st : OcnRegistry} {a : Address} {d : Bytes} {l : Listing}

theorem nodeEntry_eq_some : st.nodeEntry a = some d ↔ st.nodeOf a ≠ [] ∧ st.nodeOf a = d := by
  unfold nodeEntry
  split
  · rename_i h
    exact ⟨fun e => (by cases e), fun e => absurd h e.1⟩
  · rename_i h
    exact ⟨fun e => ⟨h, Option.some.inj e⟩, fun e => by rw [e.2]⟩

theorem nodeEntry_eq_none : st.nodeEntry a = none ↔ st.nodeOf a = [] := by
  unfold nodeEntry
  split
  · rename_i h
    exact ⟨fun _ => h, fun _ => rfl⟩
  · rename_i h
    exact ⟨fun e => (by cases e), fun e => absurd e h⟩

theorem nodeEntry_storeNode (hd : d ≠ []) :
    (st.storeNode a d).nodeEntry = Function.update st.nodeEntry a (some d) := by
  have hentry : (if d = [] then none else some d) = some d := if_neg hd
  rw [← hentry]
  exact Function.comp_update (fun d : Bytes => if d = [] then none else some d) st.nodeOf a d

theorem nodeEntry_clearNode :
    (st.clearNode a).nodeEntry = Function.update st.nodeEntry a none :=
  Function.comp_update (fun d : Bytes => if d = [] then none else some d) st.nodeOf a []

theorem keyOf_listing (h : st.listing a = some l) : st.Registered a ∧ st.keyOf a = l.key := by
  unfold listing at h
  split at h
  · cases h
  · rename_i hr
    cases h
    exact ⟨hr, rfl⟩

theorem listing_of_registered (h : st.Registered a) :
    ∃ l, st.listing a = some l ∧ l.key = st.keyOf a := by
  unfold listing
  rw [if_neg h]
  exact ⟨_, rfl, rfl⟩

end Entries

end OcnRegistry

/-- **A registry with its invariants**: every reachable one that never registered the zero address
    is one. -/
structure SoundRegistry where
  st : OcnRegistry
  nodes : st.domainBook.Sound []
  parties : st.PartiesSound

namespace SoundRegistry

def directory (S : SoundRegistry) : Directory where
  nodes := {
    entry := S.st.nodeEntry
    distinct := by
      intro a b x y ha hb hxy
      obtain ⟨hne, ea⟩ := OcnRegistry.nodeEntry_eq_some.mp ha
      obtain ⟨_, eb⟩ := OcnRegistry.nodeEntry_eq_some.mp hb
      exact S.nodes.exclusive a b hne (ea.trans (hxy.trans eb.symm)) }
  parties := {
    entry := S.st.listing
    distinct := by
      intro a b x y ha hb hxy
      obtain ⟨hra, ea⟩ := OcnRegistry.keyOf_listing ha
      obtain ⟨hrb, eb⟩ := OcnRegistry.keyOf_listing hb
      exact S.parties.keys.key_injective (OcnRegistry.live_keyIndex.mpr hra)
        (OcnRegistry.live_keyIndex.mpr hrb) (ea.trans (hxy.trans eb.symm)) }

/-- The registry after a transaction that does not register the zero address. -/
def next (X : Crypto) (S : SoundRegistry) (t : Tx) (hz : ¬ OcnRegistry.RegistersZero S.st t) :
    SoundRegistry where
  st := (OcnRegistry.machine X).step S.st t
  nodes :=
    Machine.step_preserves (M := OcnRegistry.machine X) (I := fun st => st.domainBook.Sound [])
      S.nodes fun _ _ hok => OcnRegistry.domainBook_sound_step S.nodes hok
  parties :=
    Machine.step_preserves (M := OcnRegistry.machine X) (I := OcnRegistry.PartiesSound)
      S.parties fun _ _ hok => OcnRegistry.partiesSound_step S.parties hz hok

variable {X : Crypto} {S : SoundRegistry} {t : Tx}

/-- A domain that is not marked is nobody's. -/
theorem free_domain {a : Address} {d : Bytes} (hd : d ≠ [])
    (hfree : S.st.uniqueDomains d = false) : S.directory.nodes.Free a (id d) := by
  intro b y hb hy
  obtain ⟨_, eb⟩ := OcnRegistry.nodeEntry_eq_some.mp hb
  exact absurd (eb.trans hy) (S.nodes.held_ne hd hfree b)

/-- A key that answers with nobody else is nobody else's. -/
theorem free_key {a : Address} {l : Listing}
    (hfree : S.st.uniqueParties l.countryCode l.partyId = 0 ∨
      S.st.uniqueParties l.countryCode l.partyId = a) : S.directory.parties.Free a l.key := by
  intro b y hb hy
  obtain ⟨hr, eb⟩ := OcnRegistry.keyOf_listing hb
  by_contra hne
  exact S.parties.keys.key_ne (k := l.key) hfree (OcnRegistry.live_keyIndex.mpr hr) hne
    (eb.trans hy)

/-- **One step**: a transaction is a step of the directory, or leaves it as it was. -/
theorem directory_step (hz : ¬ OcnRegistry.RegistersZero S.st t) :
    (S.next X t hz).directory = S.directory ∨ S.directory.Step (S.next X t hz).directory := by
  have hst : (S.next X t hz).st = (OcnRegistry.machine X).step S.st t := rfl
  rcases Machine.step_cases (OcnRegistry.machine X) S.st t with e | ⟨st', ev, hok, e⟩
  · refine Or.inl (Directory.eq_of_entries ?_ ?_)
    · show (S.next X t hz).st.nodeEntry = S.st.nodeEntry
      rw [hst, e]
    · show (S.next X t hz).st.listing = S.st.listing
      rw [hst, e]
  have hnodes : (S.next X t hz).directory.nodes.entry = st'.nodeEntry := by
    show (S.next X t hz).st.nodeEntry = st'.nodeEntry
    rw [hst, e]
  have hparties : (S.next X t hz).directory.parties.entry = st'.listing := by
    show (S.next X t hz).st.listing = st'.listing
    rw [hst, e]
  have hsame (hn : st'.nodeEntry = S.st.nodeEntry) (hp : st'.listing = S.st.listing) :
      (S.next X t hz).directory = S.directory :=
    Directory.eq_of_entries (hnodes.trans hn) (hparties.trans hp)
  cases OcnRegistry.change_of_exec hok with
  | nodeSet operator domain _ hname hfree =>
      have hput := free_domain (a := operator) hname hfree
      have e' : (S.next X t hz).directory =
          { S.directory with nodes := S.directory.nodes.put operator domain hput } :=
        Directory.eq_of_entries (hnodes.trans (OcnRegistry.nodeEntry_storeNode hname)) hparties
      rw [e']
      exact Or.inr (.node (.put operator domain hput))
  | nodeDeleted operator =>
      have e' : (S.next X t hz).directory =
          { S.directory with nodes := S.directory.nodes.drop operator } :=
        Directory.eq_of_entries (hnodes.trans OcnRegistry.nodeEntry_clearNode) hparties
      rw [e']
      exact Or.inr (.node (.drop operator))
  | partySet countryCode partyId roles operator name url owner verifiedRoles status _ ha =>
      let l : Listing := ⟨countryCode, partyId, verifiedRoles, name, url, operator⟩
      have hput : S.directory.parties.Free owner l.key := free_key ha.free
      have e' : (S.next X t hz).directory =
          { S.directory with parties := S.directory.parties.put owner l hput } :=
        Directory.eq_of_entries hnodes (hparties.trans
          (OcnRegistry.listing_storeParty owner l status ha.someOperator))
      rw [e']
      exact Or.inr (.party (.put owner l hput))
  | partyDeleted party =>
      have e' : (S.next X t hz).directory =
          { S.directory with parties := S.directory.parties.drop party } :=
        Directory.eq_of_entries hnodes (hparties.trans (OcnRegistry.listing_clearParty party))
      rw [e']
      exact Or.inr (.party (.drop party))
  | membersSet => exact Or.inl (hsame rfl rfl)
  | validatorSet => exact Or.inl (hsame rfl rfl)

end SoundRegistry

/-- The registry the constructor leaves. -/
def Deployment.sound (D : Deployment) : SoundRegistry :=
  ⟨D.start, OcnRegistry.domainBook_sound_construct D, OcnRegistry.partiesSound_start D⟩

/-! ## 3. Both directions -/

/-- **The registry refines the directory**: the state after a run that never registers the zero
    address is sound, and its directory is reached by steps of the directory. -/
theorem directory_run (X : Crypto) (D : Deployment) (ts : List Tx)
    (h : (OcnRegistry.machine X).Along (fun st t => ¬ OcnRegistry.RegistersZero st t) D.start ts) :
    ∃ S : SoundRegistry, S.st = D.run X ts ∧
      Relation.ReflTransGen Directory.Step Directory.empty S.directory := by
  have hruns : ∀ (ts : List Tx) (S : SoundRegistry),
      (OcnRegistry.machine X).Along (fun st t => ¬ OcnRegistry.RegistersZero st t) S.st ts →
      ∃ S' : SoundRegistry, S'.st = (OcnRegistry.machine X).run S.st ts ∧
        Relation.ReflTransGen Directory.Step S.directory S'.directory := by
    intro ts
    induction ts with
    | nil => exact fun S _ => ⟨S, rfl, .refl⟩
    | cons t ts ih =>
        intro S h
        obtain ⟨S', hst, hsteps⟩ := ih (S.next X t h.1) h.2
        refine ⟨S', hst, ?_⟩
        rcases SoundRegistry.directory_step h.1 with e | hstep
        · rwa [e] at hsteps
        · exact .head hstep hsteps
  obtain ⟨S, hst, hsteps⟩ := hruns ts D.sound h
  refine ⟨S, hst, ?_⟩
  have hempty : D.sound.directory = Directory.empty := Directory.eq_of_entries rfl rfl
  rwa [hempty] at hsteps

/-- **The registry offers the directory**: where no domain is lost and no key is stale, `setNode`
    lists an account's node under any domain nobody has and `deleteNode` takes it down again,
    `setParty` lists the owner of accepted certificates under any key nobody else has, and
    `deleteParty` removes an account's listing; each makes the step of the directory it is for. -/
theorem directory_offers (X : Crypto) (S : SoundRegistry) (hd : OcnRegistry.NoDomainLost S.st)
    (hk : OcnRegistry.NoStaleKeys S.st) (answers : External) :
    (∀ (a : Account) (d : Bytes), d ≠ [] → (∀ b, S.directory.nodes.entry b ≠ some d) →
      ((OcnRegistry.machine X).step S.st ⟨a, .setNode d, answers⟩).nodeEntry =
        Function.update S.directory.nodes.entry a.address (some d)) ∧
    (∀ a : Account, S.directory.nodes.entry a.address ≠ none →
      ((OcnRegistry.machine X).step S.st ⟨a, .deleteNode, answers⟩).nodeEntry =
        Function.update S.directory.nodes.entry a.address none) ∧
    (∀ (sender : Account) (a : Address) (l : Listing) (roles : List RoleDetails)
      (status : PaymentStatus), l.countryCode ≠ 0 → l.partyId ≠ 0 → roles ≠ [] →
      l.operator ≠ 0 → S.directory.nodes.entry l.operator ≠ none →
      S.directory.parties.Free a l.key →
      answers.validateRegistration S.st.partyRegistrationValidator roles = .ok (a, l.roles) →
      answers.getPaymentStatus S.st.paymentManager a = .ok status →
      ((OcnRegistry.machine X).step S.st ⟨sender, .setParty l.countryCode l.partyId roles
        l.operator l.name l.url, answers⟩).listing =
          Function.update S.directory.parties.entry a (some l)) ∧
    (∀ a : Account, S.directory.parties.entry a.address ≠ none →
      ((OcnRegistry.machine X).step S.st ⟨a, .deleteParty, answers⟩).listing =
        Function.update S.directory.parties.entry a.address none) := by
  refine ⟨fun a d hne hnone => ?_, fun a hnode => ?_, fun sender a l roles status hc hp hr ho hn
    hfree hv hpay => ?_, fun a hlisted => ?_⟩
  · have hu : S.st.uniqueDomains d = false := by
      by_contra hu
      obtain ⟨b, hb⟩ := hd d (by simpa using hu)
      exact hnone b (OcnRegistry.nodeEntry_eq_some.mpr ⟨hb ▸ hne, hb⟩)
    rw [OcnRegistry.step_setsNode (.direct rfl) hne hu]
    exact OcnRegistry.nodeEntry_storeNode hne
  · have hne : S.st.nodeOf a.address ≠ [] := fun e => hnode (OcnRegistry.nodeEntry_eq_none.mpr e)
    rw [OcnRegistry.step_of_change (.nodeDeleted a.address (.direct rfl) hne)]
    exact OcnRegistry.nodeEntry_clearNode
  · have hkey : S.st.uniqueParties l.countryCode l.partyId = 0 ∨
        S.st.uniqueParties l.countryCode l.partyId = a := by
      by_cases hz : S.st.uniqueParties l.countryCode l.partyId = 0
      · exact Or.inl hz
      · obtain ⟨hreg, hc', hp'⟩ := hk l.countryCode l.partyId hz
        obtain ⟨y, hy, hyk⟩ := OcnRegistry.listing_of_registered hreg
        exact Or.inr (hfree _ y hy (hyk.trans (Prod.ext hc' hp')))
    have hnode : S.st.nodeOf l.operator ≠ [] := fun e => hn (OcnRegistry.nodeEntry_eq_none.mpr e)
    exact OcnRegistry.step_publishes
      ⟨roles, status, rfl, hc, hp, hr, ho, hv, hkey, hnode, hpay⟩
  · have hreg : S.st.Registered a.address := fun e => hlisted (if_pos e)
    have hindex := S.parties.slots.slot_lt ((S.parties.flagged a.address).mpr hreg)
    rw [OcnRegistry.step_of_change (X := X) (.partyDeleted a.address (.direct rfl) hreg hindex)]
    exact OcnRegistry.listing_clearParty a.address

end Ocn
