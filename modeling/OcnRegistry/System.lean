/-
  File:      OcnRegistry/System.lean
  Subject:   THE REGISTRY TOGETHER WITH ITS VALIDATORS, and who can change a party's listing.

  At every address there may be a `PartyRegistrationValidator`; `setParty` asks the one the
  registry points to. What that validator hears from its certificate verifier and oracles is part
  of the transaction, and so is what the payment manager answers.

  * `registry_run_of_system` -- the registry of a reachable system is a reachable registry;
  * `certificates_replayed` -- `setParty` never looks at `msg.sender`: whoever sends certificates a
    party has used before rewrites its listing;
  * `listing_controlled_iff` -- that is the only way: a call by somebody who is neither the party
    nor an admin leaves the listing alone unless it is an accepted `setParty` with certificates of
    the party and other data.
-/
import OcnRegistry.Validator
import OcnRegistry.Registry.Listings

namespace Ocn

open Transaction

/-! ## 1. The system -/

structure System where
  registry : OcnRegistry
  validators : Address → Option PartyRegistrationValidator

inductive SystemCall where
  | registry (call : Call)
  | validator (contract : Address) (call : ValidatorCall)
  deriving DecidableEq

/-- A transaction: the sender, the call, and what other contracts answer: certificate verifiers and
    oracles (`world`), the payment manager and contracts that are no validators (`outside`). -/
structure SystemTx where
  sender : Account
  call : SystemCall
  world : World
  outside : External

inductive SystemEvent where
  | registry (ev : Event)
  | validator (contract : Address) (ev : ValidatorEvent)

namespace System

/-- What the registry hears: a validator's answer is computed by the validator. -/
def external (X : Crypto) (S : System) (t : SystemTx) : External :=
  { t.outside with
    validateRegistration := fun contract roles =>
      match S.validators contract with
      | some V => V.validateRegistration X t.world roles
      | none => t.outside.validateRegistration contract roles }

/-- The transaction the registry sees. -/
def registryTx (X : Crypto) (S : System) (t : SystemTx) (call : Call) : Tx :=
  ⟨t.sender, call, S.external X t⟩

/-- A call to an address without a validator does nothing here. -/
def exec (X : Crypto) (S : System) (t : SystemTx) :
    Except Revert (Outcome System SystemEvent) :=
  match t.call with
  | .registry call => do
      let (registry, ev) ← OcnRegistry.exec X S.registry (S.registryTx X t call)
      .ok ({ S with registry := registry }, ev.map .registry)
  | .validator contract call =>
      match S.validators contract with
      | none => .ok (S, [])
      | some V => do
          let (V, ev) ← V.exec t.sender.address call
          .ok ({ S with validators := Function.update S.validators contract (some V) },
            ev.map (.validator contract))

def machine (X : Crypto) : Machine System SystemTx Revert SystemEvent := ⟨exec X⟩

end System

/-- The registry, and who deployed which validators with which certificate verifier. -/
structure SystemDeployment where
  registry : Deployment
  validators : Address → Option (Account × Address)

def SystemDeployment.start (D : SystemDeployment) : System where
  registry := D.registry.start
  validators := fun contract => (D.validators contract).map fun d =>
    PartyRegistrationValidator.construct d.1 d.2

/-- **The reachable systems.** -/
def SystemDeployment.run (D : SystemDeployment) (X : Crypto) (ts : List SystemTx) : System :=
  (System.machine X).run D.start ts

namespace System

variable {X : Crypto} {S : System} {t : SystemTx}

theorem step_registry {call : Call} (h : t.call = .registry call) :
    ((machine X).step S t).registry =
      (OcnRegistry.machine X).step S.registry (S.registryTx X t call) := by
  have hexec : (machine X).exec S t = (do
      let (registry, ev) ← (OcnRegistry.machine X).exec S.registry (S.registryTx X t call)
      .ok ({ S with registry := registry }, ev.map .registry)) := by
    show exec X S t = _
    unfold exec
    rw [h]
    rfl
  rw [Machine.step_of_part (M := machine X) (N := OcnRegistry.machine X)
    (fun registry => { S with registry := registry }) (List.map .registry) hexec rfl]

/-- A call to a validator does not touch the registry. -/
theorem step_validator {contract : Address} {call : ValidatorCall}
    (h : t.call = .validator contract call) :
    ((machine X).step S t).registry = S.registry := by
  rcases Machine.step_cases (machine X) S t with e | ⟨S', ev, hok, e⟩
  · rw [e]
  rw [e]
  have hexec : exec X S t = .ok (S', ev) := hok
  unfold exec at hexec
  rw [h] at hexec
  dsimp only at hexec
  split at hexec
  · cases hexec
    rfl
  · obtain ⟨r, _, hr⟩ := bind_eq_ok.mp hexec
    cases hr
    rfl

/-- Every step of the system is a step of its registry, or leaves it alone. -/
theorem registry_step (S : System) (t : SystemTx) :
    ((machine X).step S t).registry = S.registry ∨
      ∃ u, ((machine X).step S t).registry = (OcnRegistry.machine X).step S.registry u := by
  cases hcall : t.call with
  | registry call => exact Or.inr ⟨_, step_registry hcall⟩
  | validator contract call => exact Or.inl (step_validator hcall)

end System

/-- **The registry of a reachable system is a reachable registry.** -/
theorem registry_run_of_system (X : Crypto) (D : SystemDeployment) (ts : List SystemTx) :
    ∃ us, (D.run X ts).registry = D.registry.run X us :=
  Machine.run_projects (M := System.machine X) (N := OcnRegistry.machine X) System.registry
    System.registry_step D.start ts

/-! ## 2. Who changes a listing -/

namespace System

/-- The sender is neither the party nor an admin of the registry. -/
def ByStranger (a : Address) (S : System) (t : SystemTx) : Prop :=
  t.sender.address ≠ a ∧ S.registry.members DEFAULT_ADMIN_ROLE t.sender.address = false

/-- No call by a stranger changes the listing of a registered party. -/
def OnlyPartyControls (X : Crypto) (S : System) : Prop :=
  ∀ a t, S.registry.operatorOf a ≠ 0 → ByStranger a S t →
    ((machine X).step S t).registry.listing a = S.registry.listing a

/-- The transaction publishes other data for `a` than its listing has: a `setParty` that succeeds
    with certificates of `a`. -/
def Rewrites (X : Crypto) (a : Address) (S : System) (t : SystemTx) : Prop :=
  ∃ call l, t.call = .registry call ∧ S.registry.Publishes (S.registryTx X t call) a l ∧
    S.registry.listing a ≠ some l

variable {X : Crypto} {S : System} {t : SystemTx} {a : Address}

/-- **One step of the system.** -/
theorem listing_step_iff (hs : ByStranger a S t) :
    ((machine X).step S t).registry.listing a = S.registry.listing a ↔ ¬ Rewrites X a S t := by
  cases hcall : t.call with
  | registry call =>
      rw [step_registry hcall]
      refine (OcnRegistry.listing_step_iff (t := S.registryTx X t call) hs.1 hs.2).trans ?_
      refine ⟨fun h hr => ?_, fun h l hl => ?_⟩
      · obtain ⟨call', l, hcall', hl, hne⟩ := hr
        rw [hcall] at hcall'
        cases hcall'
        exact hne (h l hl)
      · by_contra hne
        exact h ⟨call, l, hcall, hl, hne⟩
  | validator contract call =>
      rw [step_validator hcall]
      refine iff_of_true rfl fun hr => ?_
      obtain ⟨_, _, hcall', _⟩ := hr
      rw [hcall] at hcall'
      cases hcall'

/-- A run of calls by strangers, none of which rewrites the listing. -/
theorem listing_run {ts : List SystemTx}
    (h : (machine X).Along (fun S t => ByStranger a S t ∧ ¬ Rewrites X a S t) S ts) :
    ((machine X).run S ts).registry.listing a = S.registry.listing a := by
  induction ts generalizing S with
  | nil => rfl
  | cons t ts ih =>
      rw [Machine.run_cons, ih h.2]
      exact (listing_step_iff h.1.1).mpr h.1.2

end System

/-! ## 3. Replayed certificates -/

namespace Sample

/-- The sample registry, with a validator where it points to. -/
def systemDeployment : SystemDeployment :=
  ⟨deployment, fun contract => if contract = 0x60 then some (admin, 0x70) else none⟩

def systemTx (sender : Account) (call : SystemCall) : SystemTx := ⟨sender, call, world, external⟩

/-- The party's certificate under an operator of the sender's choice. -/
def publish (operator : Account) (url : String) : SystemCall :=
  .registry (.setParty 0x4445 0x4D5350 (certificates party) operator.address (utf8 "Company")
    (utf8 url))

/-- A verifier is allowed, the operator and the stranger list nodes, the party registers. -/
def publication : List SystemTx :=
  [systemTx admin (.validator 0x60 (.setVerifier verifier)),
    systemTx operator (.registry (.setNode domain)),
    systemTx stranger (.registry (.setNode domain2)),
    systemTx party (publish operator "https://company.org")]

end Sample

/-- **Replayed certificates rewrite a listing**: a stranger sends the certificates of the party's
    own registration with the stranger as operator and another URL, and the listing is theirs. -/
theorem certificates_replayed :
    let X := Sample.crypto []
    let S := Sample.systemDeployment.run X Sample.publication
    let t := Sample.systemTx Sample.stranger (Sample.publish Sample.stranger "https://stranger.org")
    ¬ S.OnlyPartyControls X ∧
      (((System.machine X).step S t).registry.listing Sample.party.address).map (·.operator) =
        some Sample.stranger.address := by
  intro X S t
  have hbefore : (S.registry.listing Sample.party.address).map (·.operator) =
      some Sample.operator.address := by decide +kernel
  have hafter : (((System.machine X).step S t).registry.listing Sample.party.address).map
      (·.operator) = some Sample.stranger.address := by decide +kernel
  refine ⟨fun h => ?_, hafter⟩
  have hsame := h Sample.party.address t (by decide +kernel) ⟨by decide, by decide +kernel⟩
  rw [hsame, hbefore] at hafter
  exact absurd hafter (by decide)

/-- **When strangers leave a listing alone**: in every reachable system, a call by somebody who is
    neither the party nor an admin leaves the listing as it is exactly when it is no accepted
    `setParty` with certificates of the party and other data; and so a run of such calls, none of
    which is one, leaves it as it was. -/
theorem listing_controlled_iff (X : Crypto) (D : SystemDeployment) (ts : List SystemTx)
    (a : Address) :
    (∀ t, System.ByStranger a (D.run X ts) t →
      (((System.machine X).step (D.run X ts) t).registry.listing a =
          (D.run X ts).registry.listing a ↔
        ¬ System.Rewrites X a (D.run X ts) t)) ∧
    ∀ us, (System.machine X).Along
        (fun S t => System.ByStranger a S t ∧ ¬ System.Rewrites X a S t) (D.run X ts) us →
      (D.run X (ts ++ us)).registry.listing a = (D.run X ts).registry.listing a := by
  refine ⟨fun t hs => System.listing_step_iff hs, fun us h => ?_⟩
  have hrun : D.run X (ts ++ us) = (System.machine X).run (D.run X ts) us :=
    Machine.run_append (M := System.machine X) D.start ts us
  rw [hrun]
  exact System.listing_run h

end Ocn
