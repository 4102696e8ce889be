/-
  File:      OcnRegistry/Release/Releases.lean
  Subject:   RELEASES: the deployment scripts one after the other, and the manifest of the subgraph
             beside them. Translated from scripts/deployment/1-deploy-dev-no-oracles-with-mock-
             erc20.sh, 2-deploy-prod-with-mock-erc20.sh, 3-deploy-prod-with-external-stablecoin.sh
             and deploy-subgraph.sh, and from what the scripts of deploy/ read and save.

  A release deletes the deployments of its network, deploys contract after contract, and at last
  updates the manifest. It stops at the first thing that fails. Updates of the manifest are also
  made by themselves, at any time and for any network, so one may meet a release half done.

  `deploy` of hardhat-deploy saves the address and the receipt, or leaves a contract that is there
  already; what `upgrades` deploys is saved without a receipt. Nothing in the scripts keeps two
  releases of one network apart, so that is an assumption on runs (`OneAtATime`). What contracts do
  afterwards is left out; blocks are mined at any time.

  * `kept_exec` -- what is saved are contracts of the network's last release, and a release under
    way finds all it reads;
  * `update_fromRelease` -- the values an update writes are those of one release;
  * `manifest_follows_release` -- in every run with one release of a network at a time: each
    manifest is as it was, or its five data sources are the contracts of one release, each from a
    block on that is not after its creation, with the rest as it was; only a stablecoin handed over
    is from elsewhere, and read from a block of that release on. And no release comes to a stop for
    want of a file.
-/
import OcnRegistry.Release.Manifest
import OcnRegistry.Library.Machine

namespace Ocn

open Transaction

namespace Release

/-! ## 1. The scripts -/

/-- **What a deployment script does to the files**: `gets` are deployments it reads, and fails
    without. -/
inductive Action where
  /-- `--reset`. -/
  | reset
  | deploy (contractName : String) (gets : List String)
  /-- `upgrades.deployProxy`, and `save` without a receipt. -/
  | deployProxy (contractName : String) (gets : List String)
  /-- Contracts that are sent transactions. -/
  | get (gets : List String)

/-- The action creates a contract. -/
def Action.creates : Action → Bool
  | .deploy .. | .deployProxy .. => true
  | .reset | .get _ => false

def deployOcnVoteToken : List Action := [.deploy "OcnVoteToken" []]

def deployTimelock : List Action := [.deploy "Timelock" []]

def deployOcnGovernor : List Action := [.deploy "OcnGovernor" ["OcnVoteToken", "Timelock"]]

def setupGovernor : List Action := [.get ["Timelock", "OcnGovernor"]]

def deployMockERC20 : List Action := [.deploy "MockERC20" []]

/-- The stablecoin is deployed under a name, or the environment has its address. -/
def deployOcnPaymentManager (stablecoinDeployment : List String) : List Action :=
  [.deployProxy "OcnPaymentManager" stablecoinDeployment, .get ["Timelock"]]

def deployCertificateVerifier : List Action :=
  [.deploy "CertificateVerifier" [], .get ["CertificateVerifier"]]

def deployOracles : List Action := [.deploy "EMSPOracle" [], .deploy "CPOOracle" []]

def deployPartyRegistrationValidator : List Action :=
  [.deploy "PartyRegistrationValidator" ["CertificateVerifier"]]

def deployOcnRegistry : List Action :=
  [.deploy "OcnRegistry" ["OcnPaymentManager", "PartyRegistrationValidator"],
    .get ["Timelock", "OcnRegistry", "PartyRegistrationValidator", "CertificateVerifier"]]

/-- The three release scripts. -/
inductive Script where
  | devNoOraclesWithMockErc20
  | prodWithMockErc20
  | prodWithExternalStablecoin (stablecoinAddress : String)

namespace Script

def actions : Script → List Action
  | devNoOraclesWithMockErc20 =>
      .reset :: deployOcnVoteToken ++ deployTimelock ++ deployOcnGovernor ++ setupGovernor ++
        deployMockERC20 ++ deployOcnPaymentManager ["MockERC20"] ++ deployCertificateVerifier ++
        deployPartyRegistrationValidator ++ deployOcnRegistry
  | prodWithMockErc20 =>
      .reset :: deployOcnVoteToken ++ deployTimelock ++ deployOcnGovernor ++ setupGovernor ++
        deployMockERC20 ++ deployOcnPaymentManager ["MockERC20"] ++ deployCertificateVerifier ++
        deployOracles ++ deployPartyRegistrationValidator ++ deployOcnRegistry
  | prodWithExternalStablecoin _ =>
      .reset :: deployOcnVoteToken ++ deployTimelock ++ deployOcnGovernor ++ setupGovernor ++
        deployOcnPaymentManager [] ++ deployCertificateVerifier ++ deployOracles ++
        deployPartyRegistrationValidator ++ deployOcnRegistry

/-- What the script hands to deploy-subgraph.sh. -/
def stablecoinOverride : Script → String
  | prodWithExternalStablecoin stablecoinAddress => stablecoinAddress
  | _ => ""

/-- The arguments are there. -/
def WellCalled : Script → Prop
  | prodWithExternalStablecoin stablecoinAddress => stablecoinAddress ≠ ""
  | _ => True

instance (script : Script) : Decidable script.WellCalled := by
  cases script <;> unfold WellCalled <;> infer_instance

/-- The call of update-subgraph-yaml.ts in deploy-subgraph.sh. -/
def updateArgs (script : Script) (network : String) (SUBGRAPH_MANIFEST : Option String) :
    UpdateArgs :=
  ⟨some network, some script.stablecoinOverride, none, SUBGRAPH_MANIFEST⟩

end Script

/-! ## 2. Networks -/

/-- How a contract came to be: in which release, under which name, in which block. -/
structure Birth where
  release : Nat
  contractName : String
  block : Nat
  deriving DecidableEq

/-- **A network**: the files of its deployments, its last block, its contracts, how many times the
    deployments were reset, and the releases under way, each with what is left of it. -/
structure Network where
  deployments : String → Option SavedDeployment
  height : Nat
  born : String → Option Birth
  releases : Nat
  running : List (Script × List Action)

inductive NetworkStep where
  | mine
  | start (script : Script)
  /-- The next action of a release; a contract it deploys is created at this address. -/
  | act (i : Nat) (address : String)
  /-- The next action deploys what is deployed already, and leaves it. -/
  | reuse (i : Nat)
  /-- The release fails, or is at its end. -/
  | stop (i : Nat)

inductive ReleaseError where
  | badArguments
  | nothingToDo
  | notDeployed (contractName : String)
  | notFresh (address : String)
  | manifest (error : ManifestError)

namespace Network

variable (N : Network)

/-- `get` and `getContract`. -/
def get (gets : List String) : Except ReleaseError Unit :=
  match gets.find? fun contractName => (N.deployments contractName).isNone with
  | some contractName => .error (.notDeployed contractName)
  | none => .ok ()

/-- The creation of a contract in the next block. -/
def create (contractName address : String) : Network :=
  { N with
    height := N.height + 1
    born := Function.update N.born address (some ⟨N.releases, contractName, N.height + 1⟩) }

def save (contractName : String) (parsed : SavedDeployment) : Network :=
  { N with deployments := Function.update N.deployments contractName (some parsed) }

/-- Contracts are created at new addresses. -/
def fresh (address : String) : Except ReleaseError Unit :=
  if address = "" ∨ (N.born address).isSome = true then .error (.notFresh address) else .ok ()

def perform (address : String) : Action → Except ReleaseError Network
  | .reset => .ok { N with deployments := fun _ => none, releases := N.releases + 1 }
  | .deploy contractName gets => do
      N.get gets
      N.fresh address
      .ok ((N.create contractName address).save contractName
        ⟨some address, some ⟨some (N.height + 1 : Nat)⟩⟩)
  | .deployProxy contractName gets => do
      N.get gets
      N.fresh address
      .ok ((N.create contractName address).save contractName ⟨some address, none⟩)
  | .get gets => do
      N.get gets
      .ok N

def exec : NetworkStep → Except ReleaseError Network
  | .mine => .ok { N with height := N.height + 1 }
  | .start script =>
      if ¬ script.WellCalled then .error .badArguments
      else .ok { N with running := N.running ++ [(script, script.actions)] }
  | .act i address =>
      match N.running[i]? with
      | some (script, action :: rest) => do
          let N' ← N.perform address action
          .ok { N' with running := N.running.set i (script, rest) }
      | _ => .error .nothingToDo
  | .reuse i =>
      match N.running[i]? with
      | some (script, .deploy contractName gets :: rest) => do
          N.get (contractName :: gets)
          .ok { N with running := N.running.set i (script, rest) }
      | _ => .error .nothingToDo
  | .stop i => .ok { N with running := N.running.eraseIdx i }

/-- A release starts only when no other is under way. -/
def Alone : NetworkStep → Prop
  | .start _ => N.running = []
  | _ => True

end Network

/-! ## 3. The repository and its networks -/

structure World (T : Type) where
  networks : String → Network
  manifests : String → Option T

inductive WorldStep where
  | on (network : String) (step : NetworkStep)
  | update (A : UpdateArgs)

namespace World

variable {T V : Type}

def files (w : World T) : Repository T :=
  ⟨fun network => (w.networks network).deployments, w.manifests⟩

/-- The event of an update is its arguments. -/
def exec (Y : Yaml T V) (w : World T) :
    WorldStep → Except ReleaseError (Outcome (World T) UpdateArgs)
  | .on network step =>
      if network = "" then .error .badArguments
      else do
        let N ← (w.networks network).exec step
        .ok ({ w with networks := Function.update w.networks network N }, [])
  | .update A =>
      match updateSubgraphYaml Y A w.files with
      | .ok files => .ok ({ w with manifests := files.manifests }, [A])
      | .error e => .error (.manifest e)

def machine (Y : Yaml T V) : Machine (World T) WorldStep ReleaseError UpdateArgs := ⟨exec Y⟩

section Steps

variable {Y : Yaml T V} {w : World T}

theorem exec_on {network : String} {step : NetworkStep} {N : Network} (hne : network ≠ "")
    (h : (w.networks network).exec step = .ok N) : (machine Y).exec w (.on network step) =
      .ok ({ w with networks := Function.update w.networks network N }, []) := by
  show exec Y w (.on network step) = _
  simp only [exec, if_neg hne, h]
  rfl

theorem exec_update {A : UpdateArgs} {files : Repository T}
    (h : updateSubgraphYaml Y A w.files = .ok files) :
    (machine Y).exec w (.update A) = .ok ({ w with manifests := files.manifests }, [A]) := by
  show exec Y w (.update A) = _
  simp only [exec, h]

end Steps

/-- Before the first release: networks with any number of blocks, and manifests. -/
def start (height : String → Nat) (manifests : String → Option T) : World T where
  networks network := ⟨fun _ => none, height network, fun _ => none, 0, []⟩
  manifests := manifests

/-- **One release of a network at a time.** -/
def OneAtATime (w : World T) : WorldStep → Prop
  | .on network step => (w.networks network).Alone step
  | .update _ => True

end World

/-! ## 4. What a release finds -/

/-- The names that come after the governor. -/
def afterGovernor : List String := ["OcnPaymentManager", "OcnRegistry"]

/-- **What is left of a release finds what it reads**, where these names are saved: it deploys no
    name twice, without a receipt the payment manager and nothing else, and that and the registry
    after the governor. -/
def sound : List String → List Action → Bool
  | _, [] => true
  | _, .reset :: rest => sound [] rest
  | names, .deploy contractName gets :: rest =>
      gets.all names.contains && !names.contains contractName &&
        (contractName != "OcnPaymentManager" &&
          (!afterGovernor.contains contractName || names.contains "OcnGovernor")) &&
        sound (contractName :: names) rest
  | names, .deployProxy contractName gets :: rest =>
      gets.all names.contains && !names.contains contractName &&
        (contractName == "OcnPaymentManager" &&
          (!afterGovernor.contains contractName || names.contains "OcnGovernor")) &&
        sound (contractName :: names) rest
  | names, .get gets :: rest => gets.all names.contains && sound names rest

/-- The names that are saved in the end. -/
def finish : List String → List Action → List String
  | names, [] => names
  | _, .reset :: rest => finish [] rest
  | names, .deploy contractName _ :: rest => finish (contractName :: names) rest
  | names, .deployProxy contractName _ :: rest => finish (contractName :: names) rest
  | names, .get _ :: rest => finish names rest

/-- The names that the update of the manifest needs. -/
def Script.needed : Script → List String
  | .prodWithExternalStablecoin _ =>
      ["OcnRegistry", "OcnPaymentManager", "OcnGovernor", "CertificateVerifier"]
  | _ => ["OcnRegistry", "OcnPaymentManager", "OcnGovernor", "CertificateVerifier", "MockERC20"]

/-- The names under which the contract of a data source is deployed. -/
def contractsOf (dataSourceName : String) : List String :=
  match dataSourceName with
  | "OCN_Registry_OLI" => ["OcnRegistry"]
  | "ERC1967Proxy" => ["OcnPaymentManager"]
  | "EuroStableCoin" => ["MockERC20", "EuroStableCoin"]
  | "OCNGovernor" => ["OcnGovernor"]
  | "OCN_Certificate_Verifier" => ["CertificateVerifier"]
  | _ => []

theorem sound_actions (script : Script) (names : List String) :
    sound names script.actions = true := by
  cases script <;> rfl

theorem needed_subset (script : Script) (names : List String) :
    script.needed ⊆ finish names script.actions := by
  cases script with
  | devNoOraclesWithMockErc20 =>
      show Script.needed .devNoOraclesWithMockErc20 ⊆ ["OcnRegistry", "PartyRegistrationValidator",
        "CertificateVerifier", "OcnPaymentManager", "MockERC20", "OcnGovernor", "Timelock",
        "OcnVoteToken"]
      decide
  | prodWithMockErc20 =>
      show Script.needed .prodWithMockErc20 ⊆ ["OcnRegistry", "PartyRegistrationValidator",
        "CPOOracle", "EMSPOracle", "CertificateVerifier", "OcnPaymentManager", "MockERC20",
        "OcnGovernor", "Timelock", "OcnVoteToken"]
      decide
  | prodWithExternalStablecoin stablecoinAddress =>
      show ["OcnRegistry", "OcnPaymentManager", "OcnGovernor", "CertificateVerifier"] ⊆
        ["OcnRegistry", "PartyRegistrationValidator", "CPOOracle", "EMSPOracle",
          "CertificateVerifier", "OcnPaymentManager", "OcnGovernor", "Timelock", "OcnVoteToken"]
      decide

/-! ## 5. What is saved -/

namespace Network

variable {N N' : Network} {contractName address : String} {names : List String}

/-- These names are saved and no others. -/
def Saved (N : Network) (names : List String) : Prop :=
  ∀ contractName, (N.deployments contractName).isSome = true ↔ contractName ∈ names

/-- **A file of the last release**: the contract it names was created in it under this name, and the
    payment manager and the registry not before the governor. Only the payment manager's has no
    receipt. -/
structure FileOf (N : Network) (contractName : String) (parsed : SavedDeployment) (birth : Birth) :
    Prop where
  address : ∃ address, parsed.address = some address ∧ address ≠ "" ∧ N.born address = some birth
  release : birth.release = N.releases
  label : birth.contractName = contractName
  positive : 0 < birth.block
  mined : birth.block ≤ N.height
  receipt : parsed.receipt =
    if contractName = "OcnPaymentManager" then none else some ⟨some (birth.block : Int)⟩
  governor : contractName ∈ afterGovernor →
    ∃ governor block, N.deployments "OcnGovernor" = some governor ∧
      governor.receipt = some ⟨some ((block : Nat) : Int)⟩ ∧ 0 < block ∧ block ≤ birth.block

/-- What is left of a release under way. -/
structure Ready (N : Network) (script : Script) (rest : List Action) (names : List String) :
    Prop where
  saved : N.Saved names ∨ ∃ tail, rest = .reset :: tail
  sound : sound names rest = true
  needed : script.needed ⊆ finish names rest
  called : script.WellCalled

/-- **What every step keeps.** -/
structure Kept (N : Network) : Prop where
  files : ∀ contractName parsed, N.deployments contractName = some parsed →
    ∃ birth, N.FileOf contractName parsed birth
  alone : N.running.length ≤ 1
  running : ∀ script rest, (script, rest) ∈ N.running → ∃ names, N.Ready script rest names

/-- `get` fails at a name that is not saved. -/
theorem get_eq_ok {gets : List String} :
    N.get gets = .ok () ↔ ∀ contractName ∈ gets, (N.deployments contractName).isSome = true := by
  unfold get
  cases hfind : gets.find? fun contractName => (N.deployments contractName).isNone with
  | none =>
      refine iff_of_true rfl fun contractName hmem => ?_
      have hnot := List.find?_eq_none.mp hfind contractName hmem
      simpa [Option.isSome_iff_ne_none] using hnot
  | some contractName =>
      refine iff_of_false (by simp) fun hall => ?_
      have hnone := List.find?_some hfind
      have hsome := hall contractName (List.mem_of_find?_eq_some hfind)
      simp [Option.isNone_iff_eq_none.mp hnone] at hsome

theorem fresh_eq_ok : N.fresh address = .ok () ↔ address ≠ "" ∧ N.born address = none := by
  unfold fresh
  split_ifs with h
  · refine iff_of_false (by simp) fun hok => ?_
    rcases h with h | h
    · exact hok.1 h
    · simp [hok.2] at h
  · rw [not_or] at h
    exact iff_of_true rfl ⟨h.1, by simpa using h.2⟩

/-- What `create` and `save` leave. -/
theorem create_born (h : N.born address = none) {a : String} {birth : Birth}
    (ha : N.born a = some birth) : (N.create contractName address).born a = some birth := by
  have hne : a ≠ address := by
    rintro rfl
    rw [h] at ha
    cases ha
  exact (Function.update_of_ne hne ..).trans ha

theorem saved_save {parsed : SavedDeployment} (h : N.Saved names) :
    (N.save contractName parsed).Saved (contractName :: names) := by
  intro other
  show (Function.update N.deployments contractName (some parsed) other).isSome = true ↔ _
  by_cases he : other = contractName
  · simp [he]
  · simp [he, h other]

section Create

variable (hkept : N.Kept) (hfresh : N.fresh address = .ok ())
  (hunsaved : N.deployments contractName = none)
include hkept hfresh hunsaved

/-- **A contract created and saved under a new name** keeps the files those of the release. -/
theorem files_create (parsed : SavedDeployment) (haddress : parsed.address = some address)
    (hreceipt : parsed.receipt = if contractName = "OcnPaymentManager" then none
      else some ⟨some ((N.height + 1 : Nat) : Int)⟩)
    (hgovernor : contractName ∈ afterGovernor → (N.deployments "OcnGovernor").isSome = true)
    (other : String) (file : SavedDeployment)
    (hfile : ((N.create contractName address).save contractName parsed).deployments other =
      some file) : ∃ birth,
        ((N.create contractName address).save contractName parsed).FileOf other file birth := by
  obtain ⟨hne, hnew⟩ := fresh_eq_ok.mp hfresh
  -- what was saved stays saved
  have hstays : ∀ {name : String} {saved : SavedDeployment}, N.deployments name = some saved →
      ((N.create contractName address).save contractName parsed).deployments name =
        some saved := by
    intro name saved hsaved
    have hname : name ≠ contractName := by
      rintro rfl
      rw [hunsaved] at hsaved
      cases hsaved
    exact (Function.update_of_ne hname ..).trans hsaved
  by_cases he : other = contractName
  · subst he
    have hself : ((N.create other address).save other parsed).deployments other = some parsed :=
      Function.update_self ..
    obtain rfl := Option.some.inj (hself.symm.trans hfile)
    refine ⟨⟨N.releases, other, N.height + 1⟩, ⟨address, haddress, hne, Function.update_self ..⟩,
      rfl, rfl, Nat.succ_pos _, le_refl _, hreceipt, fun hafter => ?_⟩
    obtain ⟨governor, hgovernor⟩ := Option.isSome_iff_exists.mp (hgovernor hafter)
    obtain ⟨birth, hbirth⟩ := hkept.files _ _ hgovernor
    exact ⟨governor, birth.block, hstays hgovernor, hbirth.receipt, hbirth.positive,
      Nat.le_succ_of_le hbirth.mined⟩
  · have hold : N.deployments other = some file := (Function.update_of_ne he ..).symm.trans hfile
    obtain ⟨birth, hbirth⟩ := hkept.files _ _ hold
    obtain ⟨a, ha, hane, hborn⟩ := hbirth.address
    refine ⟨birth, ⟨a, ha, hane, create_born hnew hborn⟩, hbirth.release, hbirth.label,
      hbirth.positive, Nat.le_succ_of_le hbirth.mined, hbirth.receipt, fun hafter => ?_⟩
    obtain ⟨governor, block, hgovernor, hgr, hpos, hle⟩ := hbirth.governor hafter
    exact ⟨governor, block, hstays hgovernor, hgr, hpos, hle⟩

end Create

/-! ## 6. One step -/

theorem FileOf.run {contractName : String} {parsed : SavedDeployment} {birth : Birth}
    (h : N.FileOf contractName parsed birth) (running : List (Script × List Action)) :
    { N with running := running }.FileOf contractName parsed birth :=
  ⟨h.address, h.release, h.label, h.positive, h.mined, h.receipt, h.governor⟩

/-- **The one release under way.** -/
theorem Kept.running_eq (h : N.Kept) {i : Nat} {release : Script × List Action}
    (hi : N.running[i]? = some release) : i = 0 ∧ N.running = [release] := by
  have halone := h.alone
  match hrunning : N.running with
  | [] =>
      rw [hrunning] at hi
      cases hi
  | [only] =>
      rw [hrunning] at hi
      obtain ⟨hlt, rfl⟩ := List.getElem?_eq_some_iff.mp hi
      obtain rfl : i = 0 := Nat.lt_one_iff.mp hlt
      exact ⟨rfl, rfl⟩
  | _ :: _ :: _ =>
      rw [hrunning] at halone
      exact absurd halone (by simp)

theorem Saved.get_eq_ok (h : N.Saved names) {gets : List String}
    (hgets : gets.all names.contains = true) : N.get gets = .ok () := by
  refine Network.get_eq_ok.mpr fun contractName hmem => (h contractName).mpr ?_
  simpa using List.all_eq_true.mp hgets contractName hmem

theorem Saved.unsaved (h : N.Saved names) (hnew : names.contains contractName = false) :
    N.deployments contractName = none := by
  cases hfile : N.deployments contractName with
  | none => rfl
  | some parsed =>
      have hmem := (h contractName).mp (by rw [hfile]; rfl)
      simp [hmem] at hnew

/-- A file for a contract just created, with a receipt or not. -/
theorem Kept.create (hkept : N.Kept) (hsaved : N.Saved names) (hfresh : N.fresh address = .ok ())
    (hnew : names.contains contractName = false) {receipt : Option Receipt} {script : Script}
    {rest : List Action}
    (hreceipt : receipt = if contractName = "OcnPaymentManager" then none
      else some ⟨some ((N.height + 1 : Nat) : Int)⟩)
    (hgovernor : (!afterGovernor.contains contractName || names.contains "OcnGovernor") = true)
    (hsound : Release.sound (contractName :: names) rest = true)
    (hneeded : script.needed ⊆ finish (contractName :: names) rest) (hcalled : script.WellCalled) :
    { (N.create contractName address).save contractName ⟨some address, receipt⟩ with
      running := [(script, rest)] }.Kept := by
  refine ⟨fun other file hfile => ?_, le_refl _, fun script' rest' hrun => ?_⟩
  · have hthere : contractName ∈ afterGovernor → (N.deployments "OcnGovernor").isSome = true :=
      fun hafter => (hsaved _).mpr (by simpa [hafter] using hgovernor)
    obtain ⟨birth, hbirth⟩ := files_create hkept hfresh (hsaved.unsaved hnew)
      ⟨some address, receipt⟩ rfl hreceipt hthere other file hfile
    exact ⟨birth, hbirth.run _⟩
  · cases List.mem_singleton.mp hrun
    exact ⟨contractName :: names, .inl (saved_save hsaved), hsound, hneeded, hcalled⟩

section Next

variable {script : Script} {action : Action} {rest : List Action} (hkept : N.Kept)
  (hrun : (script, action :: rest) ∈ N.running)
include hkept hrun

/-- **The next action of a release**: it is done, if its contract gets a fresh address, and keeps
    what every step keeps. -/
theorem perform_next (hfresh : action.creates = true → N.fresh address = .ok ()) : ∃ N',
    N.perform address action = .ok N' ∧ { N' with running := [(script, rest)] }.Kept := by
  obtain ⟨names, hready⟩ := hkept.running _ _ hrun
  have hsound := hready.sound
  have hneeded := hready.needed
  cases action with
  | reset =>
      refine ⟨_, rfl, fun other file hfile => (by cases hfile), le_refl _,
        fun script' rest' hrun' => ?_⟩
      cases List.mem_singleton.mp hrun'
      exact ⟨[], .inl fun other => by simp, hsound, hneeded, hready.called⟩
  | deploy contractName gets =>
      obtain hsaved | ⟨_, hreset⟩ := hready.saved
      · simp only [sound, Bool.and_eq_true, Bool.not_eq_true', bne_iff_ne] at hsound
        obtain ⟨⟨⟨hgets, hnew⟩, hname, hgovernor⟩, hsound⟩ := hsound
        refine ⟨_, ?_, hkept.create hsaved (hfresh rfl) hnew (if_neg hname).symm hgovernor hsound
          hneeded hready.called⟩
        simp only [perform, hsaved.get_eq_ok hgets, hfresh rfl]
        rfl
      · cases hreset
  | deployProxy contractName gets =>
      obtain hsaved | ⟨_, hreset⟩ := hready.saved
      · simp only [sound, Bool.and_eq_true, Bool.not_eq_true', beq_iff_eq] at hsound
        obtain ⟨⟨⟨hgets, hnew⟩, hname, hgovernor⟩, hsound⟩ := hsound
        refine ⟨_, ?_, hkept.create hsaved (hfresh rfl) hnew (if_pos hname).symm hgovernor hsound
          hneeded hready.called⟩
        simp only [perform, hsaved.get_eq_ok hgets, hfresh rfl]
        rfl
      · cases hreset
  | get gets =>
      obtain hsaved | ⟨_, hreset⟩ := hready.saved
      · simp only [sound, Bool.and_eq_true] at hsound
        refine ⟨N, ?_, fun other file hfile => ?_, le_refl _, fun script' rest' hrun' => ?_⟩
        · simp only [perform, hsaved.get_eq_ok hsound.1]
          rfl
        · obtain ⟨birth, hbirth⟩ := hkept.files other file hfile
          exact ⟨birth, hbirth.run _⟩
        · cases List.mem_singleton.mp hrun'
          exact ⟨names, .inl hsaved, hsound.2, hneeded, hready.called⟩
      · cases hreset

end Next

theorem fresh_of_perform {action : Action} (hcreates : action.creates = true)
    (hok : N.perform address action = .ok N') : N.fresh address = .ok () := by
  cases action with
  | deploy contractName gets =>
      obtain ⟨_, _, hok⟩ := bind_eq_ok.mp hok
      exact (bind_eq_ok.mp hok).choose_spec.1
  | deployProxy contractName gets =>
      obtain ⟨_, _, hok⟩ := bind_eq_ok.mp hok
      exact (bind_eq_ok.mp hok).choose_spec.1
  | reset => cases hcreates
  | get gets => cases hcreates

/-- **One step**: what is saved are contracts of the last release, and a release under way finds all
    it reads. -/
theorem kept_exec (hkept : N.Kept) {step : NetworkStep} (halone : N.Alone step)
    (hok : N.exec step = .ok N') : N'.Kept := by
  cases step with
  | mine =>
      cases hok
      refine ⟨fun other file hfile => ?_, hkept.alone, fun script rest hrun => ?_⟩
      · obtain ⟨birth, h⟩ := hkept.files other file hfile
        exact ⟨birth, h.address, h.release, h.label, h.positive, Nat.le_succ_of_le h.mined,
          h.receipt, h.governor⟩
      · obtain ⟨names, h⟩ := hkept.running script rest hrun
        exact ⟨names, h.saved, h.sound, h.needed, h.called⟩
  | start script =>
      have hidle : N.running = [] := halone
      simp only [exec] at hok
      split_ifs at hok with hcalled
      cases hok
      rw [hidle, List.nil_append]
      refine ⟨fun other file hfile => ?_, le_refl _, fun script' rest hrun => ?_⟩
      · obtain ⟨birth, hbirth⟩ := hkept.files other file hfile
        exact ⟨birth, hbirth.run _⟩
      · cases List.mem_singleton.mp hrun
        refine ⟨[], .inr ?_, sound_actions script [], needed_subset script [], hcalled⟩
        cases script <;> exact ⟨_, rfl⟩
  | act i address =>
      simp only [exec] at hok
      split at hok
      · rename_i script action rest hrun
        obtain ⟨rfl, hrunning⟩ := hkept.running_eq hrun
        obtain ⟨N₁, hperform, hok⟩ := bind_eq_ok.mp hok
        obtain ⟨N₂, hnext, hkept'⟩ := perform_next hkept (List.mem_of_getElem? hrun)
          fun hcreates => fresh_of_perform hcreates hperform
        obtain rfl := Except.ok.inj (hperform.symm.trans hnext)
        rw [hrunning] at hok
        cases hok
        exact hkept'
      · cases hok
  | reuse i =>
      -- no release deploys a name twice
      simp only [exec] at hok
      split at hok
      · rename_i script contractName gets rest hrun
        obtain ⟨_, hget, -⟩ := bind_eq_ok.mp hok
        obtain ⟨names, hready⟩ := hkept.running _ _ (List.mem_of_getElem? hrun)
        obtain hsaved | ⟨_, hreset⟩ := hready.saved
        · have hsound := hready.sound
          simp only [sound, Bool.and_eq_true, Bool.not_eq_true'] at hsound
          have hthere := get_eq_ok.mp hget contractName List.mem_cons_self
          rw [hsaved.unsaved hsound.1.1.2] at hthere
          cases hthere
        · cases hreset
      · cases hok
  | stop i =>
      cases hok
      refine ⟨fun other file hfile => ?_, ?_, fun script rest hrun => ?_⟩
      · obtain ⟨birth, hbirth⟩ := hkept.files other file hfile
        exact ⟨birth, hbirth.run _⟩
      · exact (List.eraseIdx_sublist ..).length_le.trans hkept.alone
      · obtain ⟨names, h⟩ := hkept.running script rest ((List.eraseIdx_sublist ..).subset hrun)
        exact ⟨names, h.saved, h.sound, h.needed, h.called⟩

/-- Contracts stay. -/
theorem born_exec {step : NetworkStep} (hok : N.exec step = .ok N') {a : String} {birth : Birth}
    (ha : N.born a = some birth) : N'.born a = some birth := by
  cases step with
  | mine =>
      cases hok
      exact ha
  | start script =>
      simp only [exec] at hok
      split_ifs at hok
      cases hok
      exact ha
  | act i address =>
      simp only [exec] at hok
      split at hok
      · rename_i script action rest hrun
        obtain ⟨N₁, hperform, hok⟩ := bind_eq_ok.mp hok
        cases hok
        cases action with
        | reset =>
            cases hperform
            exact ha
        | deploy contractName gets =>
            have hnew := (fresh_eq_ok.mp (fresh_of_perform rfl hperform)).2
            obtain ⟨_, _, hperform⟩ := bind_eq_ok.mp hperform
            obtain ⟨_, _, hperform⟩ := bind_eq_ok.mp hperform
            cases hperform
            exact create_born hnew ha
        | deployProxy contractName gets =>
            have hnew := (fresh_eq_ok.mp (fresh_of_perform rfl hperform)).2
            obtain ⟨_, _, hperform⟩ := bind_eq_ok.mp hperform
            obtain ⟨_, _, hperform⟩ := bind_eq_ok.mp hperform
            cases hperform
            exact create_born hnew ha
        | get gets =>
            obtain ⟨_, _, hperform⟩ := bind_eq_ok.mp hperform
            cases hperform
            exact ha
      · cases hok
  | reuse i =>
      simp only [exec] at hok
      split at hok
      · obtain ⟨_, _, hok⟩ := bind_eq_ok.mp hok
        cases hok
        exact ha
      · cases hok
  | stop i =>
      cases hok
      exact ha

/-! ## 7. The values of an update -/

/-- A block in which this release created a contract. -/
def Begins (N : Network) (release : Nat) (n : Int) : Prop :=
  ∃ a birth, N.born a = some birth ∧ birth.release = release ∧ n = birth.block

section Files

variable {parsed : SavedDeployment} {birth : Birth}

theorem FileOf.data_address (h : N.FileOf contractName parsed birth) :
    parsed.data.address ≠ "" ∧ N.born parsed.data.address = some birth := by
  obtain ⟨a, ha, hne, hborn⟩ := h.address
  have hdata : parsed.data.address = a := by simp [SavedDeployment.data, ha]
  rw [hdata]
  exact ⟨hne, hborn⟩

/-- The block of a file is that of the contract. -/
theorem FileOf.data_block (h : N.FileOf contractName parsed birth)
    (hne : contractName ≠ "OcnPaymentManager") : parsed.data.blockNumber = birth.block := by
  have hreceipt := h.receipt
  rw [if_neg hne] at hreceipt
  simp [SavedDeployment.data, hreceipt]

/-- The payment manager's file has none. -/
theorem FileOf.data_manager (h : N.FileOf "OcnPaymentManager" parsed birth) :
    parsed.data.blockNumber = 0 := by
  have hreceipt := h.receipt
  rw [if_pos rfl] at hreceipt
  simp [SavedDeployment.data, hreceipt]

theorem FileOf.begins (h : N.FileOf contractName parsed birth)
    (hne : contractName ≠ "OcnPaymentManager") : N.Begins N.releases parsed.data.blockNumber :=
  ⟨_, birth, h.data_address.2, h.release, h.data_block hne⟩

end Files

theorem Kept.addressed (hkept : N.Kept) : Addressed N.deployments := by
  intro contractName parsed hfile
  obtain ⟨birth, hbirth⟩ := hkept.files _ _ hfile
  obtain ⟨a, ha, hne, _⟩ := hbirth.address
  exact Option.isSome_iff_exists.mpr ⟨a, truthy_eq_some.mpr ⟨ha, hne⟩⟩

/-- A deployment that is read is one of the files. -/
theorem Kept.file (hkept : N.Kept) {data : DeploymentData}
    (h : (N.deployments contractName).map (·.data) = some data) :
    ∃ parsed birth, N.FileOf contractName parsed birth ∧ parsed.data = data := by
  obtain ⟨parsed, hparsed, hdata⟩ := Option.map_eq_some_iff.mp h
  obtain ⟨birth, hbirth⟩ := hkept.files _ _ hparsed
  exact ⟨parsed, birth, hbirth, hdata⟩

/-- A deployment that is read, other than the payment manager, has its contract's block. -/
theorem Kept.read (hkept : N.Kept) {data : DeploymentData}
    (hne : contractName ≠ "OcnPaymentManager")
    (h : (N.deployments contractName).map (·.data) = some data) :
    truthy (some data.address) = some data.address ∧ data.blockNumber ≠ 0 ∧
      ∃ birth, N.born data.address = some birth ∧ birth.release = N.releases ∧
        birth.contractName = contractName ∧ data.blockNumber = birth.block := by
  obtain ⟨parsed, birth, hfile, rfl⟩ := hkept.file h
  obtain ⟨haddress, hborn⟩ := hfile.data_address
  have hblock := hfile.data_block hne
  refine ⟨truthy_eq_some.mpr ⟨rfl, haddress⟩, ?_, birth, hborn, hfile.release, hfile.label, hblock⟩
  have hpos := hfile.positive
  omega

section Read

variable {network : String} {D : Deployed} (hkept : N.Kept)
  (hread : readDeployments N.deployments network = .ok D)
include hkept hread

/-- **The block that stands in** is that of the governor: the first contract of the three. -/
theorem fallback_eq : ∃ birth, N.born D.governor.address = some birth ∧
    birth.release = N.releases ∧ birth.contractName = "OcnGovernor" ∧
    D.fallbackStartBlock = birth.block := by
  obtain ⟨hr, hp, hg, _⟩ := (readDeployments_eq_ok hkept.addressed).mp hread
  obtain ⟨-, hne, birth, hborn, hrelease, hlabel, hblock⟩ := hkept.read (by decide) hg
  obtain ⟨hpos, hle⟩ := fallbackStartBlock_le (D := D) (n := D.governor.blockNumber)
    (by simp [Deployed.blocks]) (by omega)
  refine ⟨birth, hborn, hrelease, hlabel, hblock ▸ le_antisymm hle ?_⟩
  have hmem := mem_fallbackStartBlock hpos
  simp only [Deployed.blocks, List.mem_cons, List.not_mem_nil, or_false] at hmem
  rcases hmem with e | e | e
  · -- the registry comes after the governor
    obtain ⟨parsed, registry, hfile, hdata⟩ := hkept.file hr
    obtain ⟨governor, block, hgovernor, hgr, -, hlater⟩ := hfile.governor (by decide)
    rw [hgovernor] at hg
    have hsame : governor.data = D.governor := Option.some.inj hg
    rw [e, ← hdata, hfile.data_block (by decide), ← hsame]
    simpa [SavedDeployment.data, hgr] using hlater
  · obtain ⟨parsed, manager, hfile, hdata⟩ := hkept.file hp
    rw [e, ← hdata, hfile.data_manager] at hpos
    exact absurd hpos (lt_irrefl 0)
  · exact e.ge

/-- **The first block of a deployment** is one of the release's, and not after its creation. -/
theorem startBlock_le {parsed : SavedDeployment} {birth : Birth}
    (hfile : N.FileOf contractName parsed birth) :
    N.Begins N.releases (D.startBlock parsed.data) ∧ D.startBlock parsed.data ≤ birth.block := by
  by_cases hname : contractName = "OcnPaymentManager"
  · subst hname
    obtain ⟨first, hborn, hrelease, -, hfallback⟩ := fallback_eq hkept hread
    rw [Deployed.startBlock, hfile.data_manager, orNumber_zero]
    refine ⟨⟨_, first, hborn, hrelease, hfallback⟩, ?_⟩
    obtain ⟨governor, block, hgovernor, hgr, hpos, hlater⟩ := hfile.governor (by decide)
    obtain ⟨-, -, hg, -⟩ := (readDeployments_eq_ok hkept.addressed).mp hread
    rw [hgovernor] at hg
    have hsame : D.governor.blockNumber = block := by
      rw [← Option.some.inj hg]
      simp [SavedDeployment.data, hgr]
    have hle := (fallbackStartBlock_le (D := D) (n := D.governor.blockNumber)
      (by simp [Deployed.blocks]) (by omega)).2
    omega
  · have hne : parsed.data.blockNumber ≠ 0 := by
      have hpos := hfile.positive
      rw [hfile.data_block hname]
      omega
    rw [Deployed.startBlock, orNumber_of_ne hne]
    exact ⟨hfile.begins hname, (hfile.data_block hname).le⟩

/-- **The block the stablecoin's data source begins at**: that of a stablecoin of the release, or
    of its governor. -/
theorem stablecoinStartBlock_eq : ∃ a birth, N.born a = some birth ∧ birth.release = N.releases ∧
    birth.contractName ∈ ["MockERC20", "EuroStableCoin", "OcnGovernor"] ∧
    D.stablecoinStartBlock = birth.block := by
  obtain ⟨-, hp, -, -, hm, he⟩ := (readDeployments_eq_ok hkept.addressed).mp hread
  unfold Deployed.stablecoinStartBlock
  cases hmock : D.mockErc20 with
  | some mock =>
      rw [hmock] at hm
      obtain ⟨-, hne, birth, hborn, hrelease, hlabel, hblock⟩ := hkept.read (by decide) hm
      refine ⟨_, birth, hborn, hrelease, by simp [hlabel], ?_⟩
      rw [Option.map_some, Option.getD_some, orNumber_of_ne hne, hblock]
  | none =>
      cases heuro : D.euroStable with
      | some euro =>
          rw [heuro] at he
          obtain ⟨-, hne, birth, hborn, hrelease, hlabel, hblock⟩ := hkept.read (by decide) he
          refine ⟨_, birth, hborn, hrelease, by simp [hlabel], ?_⟩
          rw [Option.map_none, Option.getD_none, orNumber_zero, Option.map_some, Option.getD_some,
            orNumber_of_ne hne, hblock]
      | none =>
          obtain ⟨first, hborn, hrelease, hlabel, hfallback⟩ := fallback_eq hkept hread
          obtain ⟨parsed, manager, hfile, hdata⟩ := hkept.file hp
          refine ⟨_, first, hborn, hrelease, by simp [hlabel], ?_⟩
          rw [Option.map_none, Option.getD_none, orNumber_zero, orNumber_zero, ← hdata,
            hfile.data_manager, orNumber_zero, hfallback]

/-- **The stablecoin** of the release, where none is handed over. -/
theorem stablecoin_le {stablecoinOverrideArg : Option String} {stablecoinAddress : String}
    (hcoin : D.stablecoinAddress stablecoinOverrideArg = some stablecoinAddress)
    (hnone : truthy stablecoinOverrideArg = none) :
    ∃ birth, N.born stablecoinAddress = some birth ∧ birth.release = N.releases ∧
      birth.contractName ∈ ["MockERC20", "EuroStableCoin"] ∧
      D.stablecoinStartBlock ≤ birth.block := by
  obtain ⟨-, -, -, -, hm, he⟩ := (readDeployments_eq_ok hkept.addressed).mp hread
  have hcoin' : (truthy (D.mockErc20.map (·.address)) <|> truthy (D.euroStable.map (·.address))) =
      some stablecoinAddress := by
    simpa [Deployed.stablecoinAddress, hnone] using hcoin
  unfold Deployed.stablecoinStartBlock
  cases hmock : D.mockErc20 with
  | some mock =>
      rw [hmock] at hm hcoin'
      obtain ⟨htruthy, hne, birth, hborn, hrelease, hlabel, hblock⟩ := hkept.read (by decide) hm
      have haddress : some mock.address = some stablecoinAddress := by
        simpa [htruthy] using hcoin'
      obtain rfl := Option.some.inj haddress
      refine ⟨birth, hborn, hrelease, by simp [hlabel], ?_⟩
      rw [Option.map_some, Option.getD_some, orNumber_of_ne hne, hblock]
  | none =>
      cases heuro : D.euroStable with
      | none =>
          rw [hmock, heuro] at hcoin'
          cases hcoin'
      | some euro =>
          rw [heuro] at he
          rw [hmock, heuro] at hcoin'
          obtain ⟨htruthy, hne, birth, hborn, hrelease, hlabel, hblock⟩ := hkept.read (by decide) he
          have haddress : some euro.address = some stablecoinAddress := by
            rw [← htruthy]
            exact hcoin'
          obtain rfl := Option.some.inj haddress
          refine ⟨birth, hborn, hrelease, by simp [hlabel], ?_⟩
          rw [Option.map_none, Option.getD_none, orNumber_zero, Option.map_some, Option.getD_some,
            orNumber_of_ne hne, hblock]

end Read

/-- **Values of one release**: each data source has the address of its contract, created in this
    release, and begins no later than that, at a block of the release; only the stablecoin may be
    one that was handed over, and is then read from the block on in which the release created a
    stablecoin of its own, or its governor. -/
structure FromRelease (N : Network) (network : String) (stablecoinOverrideArg : Option String)
    (release : Nat) (updates : List (String × Values)) : Prop where
  names : updates.map Prod.fst = dataSourceNames
  network : ∀ update ∈ updates, update.2.network = network
  begins : ∀ update ∈ updates, N.Begins release update.2.startBlock
  contracts : ∀ update ∈ updates,
    (∃ birth, N.born update.2.address = some birth ∧ birth.release = release ∧
      birth.contractName ∈ contractsOf update.1 ∧ update.2.startBlock ≤ birth.block) ∨
    (update.1 = "EuroStableCoin" ∧ truthy stablecoinOverrideArg = some update.2.address ∧
      ∃ a birth, N.born a = some birth ∧ birth.release = release ∧
        birth.contractName ∈ ["MockERC20", "EuroStableCoin", "OcnGovernor"] ∧
        update.2.startBlock = birth.block)

/-- Contracts stay, so values stay those of their release. -/
theorem FromRelease.mono {network : String} {stablecoinOverrideArg : Option String} {release : Nat}
    {updates : List (String × Values)}
    (h : N.FromRelease network stablecoinOverrideArg release updates)
    (hborn : ∀ a birth, N.born a = some birth → N'.born a = some birth) :
    N'.FromRelease network stablecoinOverrideArg release updates := by
  refine ⟨h.names, h.network, fun update hmem => ?_, fun update hmem => ?_⟩
  · obtain ⟨a, birth, ha, hrelease, hblock⟩ := h.begins update hmem
    exact ⟨a, birth, hborn a birth ha, hrelease, hblock⟩
  · rcases h.contracts update hmem with
      ⟨birth, hb, hrelease, hlabel, hblock⟩ | ⟨hname, hcoin, a, birth, hb, hrest⟩
    · exact .inl ⟨birth, hborn _ _ hb, hrelease, hlabel, hblock⟩
    · exact .inr ⟨hname, hcoin, a, birth, hborn _ _ hb, hrest⟩

/-- **The values an update writes** are those of the network's last release. -/
theorem update_fromRelease (hkept : N.Kept) {network : String}
    {stablecoinOverrideArg : Option String} {updates : List (String × Values)}
    (h : deploymentValues N.deployments network stablecoinOverrideArg = .ok updates) :
    N.FromRelease network stablecoinOverrideArg N.releases updates := by
  obtain ⟨D, stablecoinAddress, hread, hcoin, -, rfl⟩ := deploymentValues_eq_ok.mp h
  obtain ⟨hr, hp, hg, hc, -, -⟩ := (readDeployments_eq_ok hkept.addressed).mp hread
  -- the four contracts that must be there
  have hone : ∀ {contractName : String} {data : DeploymentData},
      (N.deployments contractName).map (·.data) = some data →
      N.Begins N.releases (D.startBlock data) ∧ ∃ birth, N.born data.address = some birth ∧
        birth.release = N.releases ∧ birth.contractName = contractName ∧
        D.startBlock data ≤ birth.block := by
    intro contractName data hdata
    obtain ⟨parsed, birth, hfile, rfl⟩ := hkept.file hdata
    obtain ⟨hbegins, hle⟩ := startBlock_le hkept hread hfile
    exact ⟨hbegins, birth, hfile.data_address.2, hfile.release, hfile.label, hle⟩
  have hfour : ∀ {dataSourceName contractName : String} {data : DeploymentData},
      contractName ∈ contractsOf dataSourceName →
      (N.deployments contractName).map (·.data) = some data →
      ∃ birth, N.born data.address = some birth ∧ birth.release = N.releases ∧
        birth.contractName ∈ contractsOf dataSourceName ∧ D.startBlock data ≤ birth.block := by
    intro dataSourceName contractName data hmem hdata
    obtain ⟨-, birth, hborn, hrelease, hlabel, hle⟩ := hone hdata
    exact ⟨birth, hborn, hrelease, hlabel ▸ hmem, hle⟩
  obtain ⟨a, birth, hborn, hrelease, hlabel, hblock⟩ := stablecoinStartBlock_eq hkept hread
  refine ⟨rfl, ?_, ?_, ?_⟩ <;> simp only [Deployed.updates, List.forall_mem_cons]
  · exact ⟨trivial, trivial, trivial, trivial, trivial, fun _ hnil => absurd hnil List.not_mem_nil⟩
  · exact ⟨(hone hr).1, (hone hp).1, ⟨a, birth, hborn, hrelease, hblock⟩, (hone hg).1,
      (hone hc).1, fun _ hnil => absurd hnil List.not_mem_nil⟩
  · refine ⟨.inl (hfour (by decide) hr), .inl (hfour (by decide) hp), ?_,
      .inl (hfour (by decide) hg), .inl (hfour (by decide) hc),
      fun _ hnil => absurd hnil List.not_mem_nil⟩
    cases hover : truthy stablecoinOverrideArg with
    | none => exact .inl (stablecoin_le hkept hread hcoin hover)
    | some coin =>
        rw [Deployed.stablecoinAddress, hover] at hcoin
        obtain rfl : coin = stablecoinAddress := Option.some.inj hcoin
        exact .inr ⟨trivial, rfl, a, birth, hborn, hrelease, hlabel, hblock⟩

/-- **At the end of a release** the files give the values of an update. -/
theorem Kept.values (hkept : N.Kept) {script : Script} (hrun : (script, []) ∈ N.running)
    (network : String) :
    ∃ updates, deploymentValues N.deployments network (some script.stablecoinOverride) =
      .ok updates := by
  obtain ⟨names, hready⟩ := hkept.running _ _ hrun
  obtain hsaved | ⟨_, hreset⟩ := hready.saved
  · have hthere : ∀ contractName ∈ script.needed, ∃ data,
        (N.deployments contractName).map (·.data) = some data := by
      intro contractName hmem
      obtain ⟨parsed, hparsed⟩ :=
        Option.isSome_iff_exists.mp ((hsaved contractName).mpr (hready.needed hmem))
      exact ⟨parsed.data, by rw [hparsed]; rfl⟩
    have hfour : ["OcnRegistry", "OcnPaymentManager", "OcnGovernor", "CertificateVerifier"] ⊆
        script.needed := by
      cases script with
      | devNoOraclesWithMockErc20 => decide
      | prodWithMockErc20 => decide
      | prodWithExternalStablecoin => exact List.Subset.refl _
    obtain ⟨registry, hr⟩ := hthere "OcnRegistry" (hfour (by decide))
    obtain ⟨paymentManager, hp⟩ := hthere "OcnPaymentManager" (hfour (by decide))
    obtain ⟨governor, hg⟩ := hthere "OcnGovernor" (hfour (by decide))
    obtain ⟨certificateVerifier, hc⟩ := hthere "CertificateVerifier" (hfour (by decide))
    let D : Deployed := ⟨registry, paymentManager, governor, certificateVerifier,
      (N.deployments "MockERC20").map (·.data), (N.deployments "EuroStableCoin").map (·.data)⟩
    have hread : readDeployments N.deployments network = .ok D :=
      (readDeployments_eq_ok hkept.addressed).mpr ⟨hr, hp, hg, hc, rfl, rfl⟩
    -- the governor has a receipt, and some stablecoin is named
    obtain ⟨-, hne, birth, -, -, -, hblock⟩ := hkept.read (by decide) hg
    have hpos : 0 < D.fallbackStartBlock :=
      (fallbackStartBlock_le (n := governor.blockNumber) (by simp [D, Deployed.blocks])
        (by omega)).1
    have hcoin : ∃ stablecoinAddress,
        D.stablecoinAddress (some script.stablecoinOverride) = some stablecoinAddress := by
      have hmock : "MockERC20" ∈ script.needed → ∃ stablecoinAddress,
          D.stablecoinAddress (some "") = some stablecoinAddress := by
        intro hmem
        obtain ⟨mock, hmock⟩ := hthere "MockERC20" hmem
        have haddress := (truthy_eq_some.mp (hkept.read (by decide) hmock).1).2
        exact ⟨mock.address, by simp [D, Deployed.stablecoinAddress, hmock, haddress, truthy]⟩
      cases script with
      | devNoOraclesWithMockErc20 => exact hmock (by decide)
      | prodWithMockErc20 => exact hmock (by decide)
      | prodWithExternalStablecoin stablecoinAddress =>
          have hcalled : stablecoinAddress ≠ "" := hready.called
          refine ⟨stablecoinAddress, ?_⟩
          simp [Deployed.stablecoinAddress, Script.stablecoinOverride, truthy, hcalled]
    obtain ⟨stablecoinAddress, hcoin⟩ := hcoin
    exact ⟨_, deploymentValues_eq_ok.mpr ⟨D, stablecoinAddress, hread, hcoin, hpos, rfl⟩⟩
  · cases hreset

end Network

/-! ## 8. The manifests -/

section Manifests

variable {T V : Type} (Y : Yaml T V)

/-- **A manifest revised**: five data sources are there, and the first of each name has these
    values; the rest is that of the other text. -/
def Revised (updates : List (String × Values)) (text₀ text : T) : Prop :=
  ∃ manifest dataSources dataSources', Y.parse text₀ = some manifest ∧
    manifest.dataSources = some dataSources ∧
    Y.parse text = some { manifest with dataSources := some dataSources' } ∧
    (∀ dataSourceName ∈ dataSourceNames, ∃ d ∈ dataSources, d.name = some dataSourceName) ∧
    Amend.Amended DataSource.name (updates.map amendment) dataSources dataSources'

/-- The manifest follows the last update of it: revised with the values of one release. -/
def Follows (w : World T) (text₀ text : T) (A : UpdateArgs) : Prop :=
  ∃ network release updates, truthy A.networkArg = some network ∧
    (w.networks network).FromRelease network A.stablecoinOverrideArg release updates ∧
    Revised Y updates text₀ text

/-- **A manifest of the run**: as it was before any update of it, or following the last one. -/
def Current (manifests₀ : String → Option T) (h : List UpdateArgs) (w : World T) (path : String) :
    Prop :=
  match (h.filter fun A => decide (A.subgraphManifestPath = path)).getLast? with
  | none => w.manifests path = manifests₀ path
  | some A => ∃ text₀ text, manifests₀ path = some text₀ ∧ w.manifests path = some text ∧
      Follows Y w text₀ text A

variable {Y}

/-- **One update** revises the manifest. -/
theorem revised_update {A : UpdateArgs} {R R' : Repository T}
    (hok : updateSubgraphYaml Y A R = .ok R') :
    ∃ network updates text text', truthy A.networkArg = some network ∧
      deploymentValues (R.deployments network) network A.stablecoinOverrideArg = .ok updates ∧
      R.manifests A.subgraphManifestPath = some text ∧
      R'.manifests = Function.update R.manifests A.subgraphManifestPath (some text') ∧
      (updates.map Prod.fst = dataSourceNames → Revised Y updates text text') := by
  obtain ⟨network, text, updates, manifest, dataSources, dataSources', hnetwork, htext, hvalues,
    hparse, hsources, hall, rfl⟩ := updateSubgraphYaml_eq_ok.mp hok
  refine ⟨network, updates, text, _, hnetwork, hvalues, htext, rfl, fun hnames => ?_⟩
  have hkeep := update_keeps (V := V) updates
  have hfst := amendments_names (V := V) hnames
  refine ⟨manifest, dataSources, dataSources', hparse, hsources, Y.parse_stringify _, ?_,
    Amend.all_amended hkeep (updates_once hnames) hall⟩
  have hthere := (Amend.all_isSome hkeep).mp (by rw [hall]; rfl)
  intro dataSourceName hmem
  obtain ⟨a, ha, hname⟩ := List.mem_map.mp (hfst ▸ List.mem_map_of_mem (f := some) hmem)
  rw [← hname]
  exact hthere a ha

/-- An update after another one hides it. -/
theorem Revised.over {updates updates' : List (String × Values)} {text₀ text text' : T}
    (h : Revised Y updates text₀ text) (h' : Revised Y updates' text text')
    (hnames : updates.map Prod.fst = dataSourceNames)
    (hnames' : updates'.map Prod.fst = dataSourceNames) : Revised Y updates' text₀ text' := by
  obtain ⟨manifest, dataSources, dataSources₁, hparse, hsources, hparse₁, hthere, ham⟩ := h
  obtain ⟨manifest₁, dataSources₂, dataSources', hparse₁', hsources₁, hparse', -, ham'⟩ := h'
  obtain rfl := Option.some.inj (hparse₁.symm.trans hparse₁')
  obtain rfl := Option.some.inj hsources₁
  refine ⟨manifest, dataSources, dataSources', hparse, hsources, hparse', hthere,
    ham.over ham' ?_ fun a ha b hb x => ?_⟩
  · rw [amendments_names hnames, amendments_names hnames']
  · obtain ⟨update, _, rfl⟩ := List.mem_map.mp ha
    obtain ⟨update', _, rfl⟩ := List.mem_map.mp hb
    rfl

/-- A manifest with the five data sources, revised, has them still. -/
theorem Revised.names {updates : List (String × Values)} {text₀ text : T}
    (h : Revised Y updates text₀ text) : ∃ manifest dataSources, Y.parse text = some manifest ∧
      manifest.dataSources = some dataSources ∧
      ∀ dataSourceName ∈ dataSourceNames, ∃ d ∈ dataSources, d.name = some dataSourceName := by
  obtain ⟨manifest, dataSources, dataSources', _, _, hparse, hthere, ham⟩ := h
  exact ⟨_, dataSources', hparse, rfl, fun dataSourceName hmem =>
    (Amend.mem_names_iff ham.names).mpr (hthere dataSourceName hmem)⟩

/-! ## 9. Runs -/

section Runs

variable {manifests₀ : String → Option T} {h : List UpdateArgs} {w w' : World T} {path : String}
  {A : UpdateArgs}

/-- **What holds of the updates so far and the world.** -/
structure Invariant (Y : Yaml T V) (manifests₀ : String → Option T) (h : List UpdateArgs)
    (w : World T) : Prop where
  kept : ∀ network, (w.networks network).Kept
  unnamed : (w.networks "").running = []
  current : ∀ path, Current Y manifests₀ h w path

/-- Where contracts stay and the manifest stays, it follows what it followed. -/
theorem Current.mono (hcurrent : Current Y manifests₀ h w path)
    (hpath : w'.manifests path = w.manifests path)
    (hborn : ∀ network a birth, (w.networks network).born a = some birth →
      (w'.networks network).born a = some birth) : Current Y manifests₀ h w' path := by
  unfold Current at hcurrent ⊢
  cases hlast : (h.filter fun A => decide (A.subgraphManifestPath = path)).getLast? with
  | none =>
      rw [hlast] at hcurrent
      exact hpath.trans hcurrent
  | some A =>
      rw [hlast] at hcurrent
      obtain ⟨text₀, text, h₀, htext, network, release, updates, hnetwork, hfrom, hrevised⟩ :=
        hcurrent
      exact ⟨text₀, text, h₀, hpath.trans htext, network, release, updates, hnetwork,
        hfrom.mono (hborn network), hrevised⟩

/-- **An update of another manifest** leaves this one as it was. -/
theorem Current.update_of_ne (hcurrent : Current Y manifests₀ h w path)
    (hne : path ≠ A.subgraphManifestPath) (text' : T) :
    Current Y manifests₀ (h ++ [A])
      { w with manifests := Function.update w.manifests A.subgraphManifestPath (some text') }
      path := by
  have hnot : (h ++ [A]).filter (fun B => decide (B.subgraphManifestPath = path)) =
      h.filter fun B => decide (B.subgraphManifestPath = path) := by
    rw [List.filter_append, List.filter_cons_of_neg (by simp [Ne.symm hne]), List.filter_nil,
      List.append_nil]
  have hsame : Current Y manifests₀ h
      { w with manifests := Function.update w.manifests A.subgraphManifestPath (some text') }
      path :=
    hcurrent.mono (Function.update_of_ne hne ..) fun _ _ _ ha => ha
  unfold Current at hsame ⊢
  rw [hnot]
  exact hsame

/-- **An update, after any others**: the manifest follows it. -/
theorem Current.update (hcurrent : Current Y manifests₀ h w A.subgraphManifestPath)
    {network : String} {release : Nat} {updates : List (String × Values)} {text text' : T}
    (hnetwork : truthy A.networkArg = some network)
    (hfrom : (w.networks network).FromRelease network A.stablecoinOverrideArg release updates)
    (htext : w.manifests A.subgraphManifestPath = some text)
    (hrevised : Revised Y updates text text') :
    Current Y manifests₀ (h ++ [A])
      { w with manifests := Function.update w.manifests A.subgraphManifestPath (some text') }
      A.subgraphManifestPath := by
  have hlast : ((h ++ [A]).filter fun B =>
      decide (B.subgraphManifestPath = A.subgraphManifestPath)).getLast? = some A := by
    rw [List.filter_append, List.filter_cons_of_pos (by simp), List.filter_nil,
      List.getLast?_append, List.getLast?_singleton]
    rfl
  unfold Current at hcurrent ⊢
  rw [hlast]
  cases hbefore : (h.filter fun B =>
      decide (B.subgraphManifestPath = A.subgraphManifestPath)).getLast? with
  | none =>
      rw [hbefore] at hcurrent
      exact ⟨text, text', hcurrent.symm.trans htext, Function.update_self .., network, release,
        updates, hnetwork, hfrom, hrevised⟩
  | some B =>
      rw [hbefore] at hcurrent
      obtain ⟨text₀, text₁, h₀, htext₁, _, _, updates₁, _, hfrom₁, hrevised₁⟩ := hcurrent
      obtain rfl := Option.some.inj (htext₁.symm.trans htext)
      exact ⟨text₀, text', h₀, Function.update_self .., network, release, updates, hnetwork, hfrom,
        hrevised₁.over hrevised hfrom₁.names hfrom.names⟩

/-- **One step of the world.** -/
theorem invariant_exec (hI : Invariant Y manifests₀ h w) {t : WorldStep} {ev : List UpdateArgs}
    (hone : w.OneAtATime t) (hok : World.exec Y w t = .ok (w', ev)) :
    Invariant Y manifests₀ (h ++ ev) w' := by
  cases t with
  | on network step =>
      simp only [World.exec] at hok
      split_ifs at hok with hname
      obtain ⟨N, hexec, hok⟩ := bind_eq_ok.mp hok
      cases hok
      rw [List.append_nil]
      refine ⟨fun other => ?_, ?_, fun path =>
        (hI.current path).mono rfl fun other a birth ha => ?_⟩
      · show (Function.update w.networks network N other).Kept
        by_cases he : other = network
        · rw [he, Function.update_self]
          exact Network.kept_exec (hI.kept network) hone hexec
        · rw [Function.update_of_ne he]
          exact hI.kept other
      · exact (congrArg Network.running (Function.update_of_ne (Ne.symm hname) ..)).trans hI.unnamed
      · show (Function.update w.networks network N other).born a = some birth
        by_cases he : other = network
        · rw [he] at ha ⊢
          rw [Function.update_self]
          exact Network.born_exec hexec ha
        · rwa [Function.update_of_ne he]
  | update A =>
      simp only [World.exec] at hok
      split at hok
      · rename_i files hupdate
        cases hok
        obtain ⟨network, updates, text, text', hnetwork, hvalues, htext, hfiles, hrevised⟩ :=
          revised_update hupdate
        have hfrom := Network.update_fromRelease (hI.kept network) hvalues
        refine ⟨hI.kept, hI.unnamed, fun path => ?_⟩
        rw [hfiles]
        by_cases he : path = A.subgraphManifestPath
        · rw [he]
          exact (hI.current _).update hnetwork hfrom htext (hrevised hfrom.names)
        · exact (hI.current path).update_of_ne he text'
      · cases hok

theorem invariant_run (Y : Yaml T V) (height : String → Nat) (manifests₀ : String → Option T)
    {ts : List WorldStep}
    (hone : (World.machine Y).Along World.OneAtATime (World.start height manifests₀) ts) :
    Invariant Y manifests₀ ((World.machine Y).history (World.start height manifests₀) ts)
      ((World.machine Y).run (World.start height manifests₀) ts) := by
  refine Machine.history_invariant_of_step (I := Invariant Y manifests₀) (M := World.machine Y)
    (fun h w t w' ev hI hone hok => invariant_exec hI hone hok) hone ?_
  exact ⟨fun network => ⟨fun _ _ hfile => (by cases hfile), Nat.zero_le 1,
    fun _ _ hrun => absurd hrun List.not_mem_nil⟩, rfl, fun path => rfl⟩

/-- The manifest at this path is there, with a data source of each name. -/
def Listed (Y : Yaml T V) (manifests : String → Option T) (path : String) : Prop :=
  ∃ text manifest dataSources, manifests path = some text ∧ Y.parse text = some manifest ∧
    manifest.dataSources = some dataSources ∧
    ∀ dataSourceName ∈ dataSourceNames, ∃ d ∈ dataSources, d.name = some dataSourceName

/-- A manifest that had its data sources has them. -/
theorem Current.listed (hcurrent : Current Y manifests₀ h w path)
    (h₀ : Listed Y manifests₀ path) : Listed Y w.manifests path := by
  unfold Current at hcurrent
  cases hlast : (h.filter fun A => decide (A.subgraphManifestPath = path)).getLast? with
  | none =>
      rw [hlast] at hcurrent
      unfold Listed
      rw [hcurrent]
      exact h₀
  | some A =>
      rw [hlast] at hcurrent
      obtain ⟨text₀, text, _, htext, network, release, updates, _, _, hrevised⟩ := hcurrent
      obtain ⟨manifest, dataSources, hparse, hsources, hnames⟩ := hrevised.names
      exact ⟨text, manifest, dataSources, htext, hparse, hsources, hnames⟩

/-- **The update at the end of a release** is made. -/
theorem accepts_update (hI : Invariant Y manifests₀ h w) {network : String} {script : Script}
    (hrun : (script, []) ∈ (w.networks network).running) (SUBGRAPH_MANIFEST : Option String)
    (hlisted : Listed Y manifests₀
      (script.updateArgs network SUBGRAPH_MANIFEST).subgraphManifestPath) :
    (World.machine Y).Accepts w (.update (script.updateArgs network SUBGRAPH_MANIFEST)) := by
  obtain ⟨updates, hvalues⟩ := (hI.kept network).values hrun network
  obtain ⟨text, manifest, dataSources, htext, hparse, hsources, hnames⟩ :=
    (hI.current _).listed hlisted
  have hfrom := Network.update_fromRelease (hI.kept network) hvalues
  have hne : network ≠ "" := by
    rintro rfl
    rw [hI.unnamed] at hrun
    exact absurd hrun List.not_mem_nil
  -- every amendment finds its data source
  have hall : (Amend.all DataSource.name (updates.map amendment) dataSources).isSome = true := by
    refine (Amend.all_isSome (update_keeps updates)).mpr fun a ha => ?_
    obtain ⟨update, hmem, rfl⟩ := List.mem_map.mp ha
    exact hnames update.1 (hfrom.names ▸ List.mem_map_of_mem hmem)
  obtain ⟨dataSources', hall⟩ := Option.isSome_iff_exists.mp hall
  have hok : updateSubgraphYaml Y (script.updateArgs network SUBGRAPH_MANIFEST) w.files = .ok _ :=
    updateSubgraphYaml_eq_ok.mpr ⟨network, text, updates, manifest, dataSources, dataSources',
      truthy_eq_some.mpr ⟨rfl, hne⟩, htext, hvalues, hparse, hsources, hall, rfl⟩
  exact ⟨_, World.exec_update hok⟩

/-- **The next action of a release** is done. -/
theorem accepts_act (hI : Invariant Y manifests₀ h w) {network : String} {script : Script} {i : Nat}
    {action : Action} {rest : List Action} {address : String}
    (hrun : (w.networks network).running[i]? = some (script, action :: rest))
    (hfresh : action.creates = true →
      address ≠ "" ∧ (w.networks network).born address = none) :
    (World.machine Y).Accepts w (.on network (.act i address)) := by
  have hne : network ≠ "" := by
    rintro rfl
    rw [hI.unnamed] at hrun
    cases hrun
  obtain ⟨N', hperform, -⟩ := Network.perform_next (hI.kept network) (List.mem_of_getElem? hrun)
    fun hcreates => Network.fresh_eq_ok.mpr (hfresh hcreates)
  have hexec : (w.networks network).exec (.act i address) =
      .ok { N' with running := (w.networks network).running.set i (script, rest) } := by
    simp only [Network.exec, hrun]
    exact bind_eq_ok.mpr ⟨N', hperform, rfl⟩
  exact ⟨_, World.exec_on hne hexec⟩

/-- **Manifests follow releases**: in every run of releases and updates, of any networks and in any
    order of their steps, as long as a release of a network starts only when no other of it is under
    way, each manifest is as it was, or follows its last update: its five data sources have the
    contracts of one release of the update's network, each from a block of the release that is not
    after the contract's creation, so that no log of it is missed; a stablecoin that was handed over
    is read from the block of the release's own stablecoin or governor on; the rest of the manifest
    is as it was. And no release stops for want of a file: its next action is done, if a contract it
    creates gets a new address, and at its end the update is made, if the manifest had the five data
    sources. -/
theorem manifest_follows_release (Y : Yaml T V) (height : String → Nat)
    (manifests₀ : String → Option T) (ts : List WorldStep)
    (hone : (World.machine Y).Along World.OneAtATime (World.start height manifests₀) ts) :
    let w := (World.machine Y).run (World.start height manifests₀) ts
    (∀ path, Current Y manifests₀
      ((World.machine Y).history (World.start height manifests₀) ts) w path) ∧
    (∀ network i script action rest address,
      (w.networks network).running[i]? = some (script, action :: rest) →
      (action.creates = true → address ≠ "" ∧ (w.networks network).born address = none) →
      (World.machine Y).Accepts w (.on network (.act i address))) ∧
    ∀ network script SUBGRAPH_MANIFEST, (script, []) ∈ (w.networks network).running →
      Listed Y manifests₀ (script.updateArgs network SUBGRAPH_MANIFEST).subgraphManifestPath →
      (World.machine Y).Accepts w (.update (script.updateArgs network SUBGRAPH_MANIFEST)) := by
  have hI := invariant_run Y height manifests₀ hone
  refine ⟨hI.current, fun network i script action rest address hrun hfresh => ?_,
    fun network script SUBGRAPH_MANIFEST hrun hlisted => ?_⟩
  · exact accepts_act hI hrun hfresh
  · exact accepts_update hI hrun SUBGRAPH_MANIFEST hlisted

end Runs

end Manifests

namespace Sample

abbrev Text := SubgraphManifest Unit

def yaml : Yaml Text Unit := ⟨some, id, fun _ => rfl⟩

def manifest : Text :=
  ⟨some (dataSourceNames.map fun name => ⟨some name, some "localhost", none, []⟩), []⟩

/-- A release from block 46 on; no addresses where no contract is created. -/
def release : List WorldStep :=
  .on "chiado" (.start .devNoOraclesWithMockErc20) ::
    (["", "0x1", "0x2", "0x3", "", "0x4", "0x5", "", "0x6", "", "0x7", "0x8", ""].map
      fun address => .on "chiado" (.act 0 address)) ++
    [.update (Script.devNoOraclesWithMockErc20.updateArgs "chiado" none)]

/-- The payment manager, created in block 51, is read from the governor's block on. -/
example : ((((World.machine yaml).run (World.start (fun _ => 46) fun _ => some manifest)
    release).manifests "thegraph-indexer/ocn-registry-oli/subgraph.yaml").bind
      (·.dataSources)).map (fun dataSources => dataSources.map fun d =>
        d.source.map fun s => (s.address, s.startBlock)) =
    some [some (some "0x8", some 54), some (some "0x5", some 49), some (some "0x4", some 50),
      some (some "0x3", some 49), some (some "0x6", some 52)] := by decide

/-- Only one release starts. -/
theorem release_oneAtATime : (World.machine yaml).Along World.OneAtATime
    (World.start (fun _ => 46) fun _ => some manifest) release := by
  refine ⟨rfl, Machine.along_of_forall fun t ht w => ?_⟩
  rcases List.mem_append.mp ht with ht | ht
  · obtain ⟨address, _, rfl⟩ := List.mem_map.mp ht
    trivial
  · obtain rfl := List.mem_singleton.mp ht
    trivial

end Sample

/-- The sample release's manifest follows its update, and it can be made again. -/
theorem manifest_follows_release_sample :
    let w := (World.machine Sample.yaml).run
      (World.start (fun _ => 46) fun _ => some Sample.manifest) Sample.release
    Current Sample.yaml (fun _ => some Sample.manifest)
        ((World.machine Sample.yaml).history
          (World.start (fun _ => 46) fun _ => some Sample.manifest) Sample.release) w
        "thegraph-indexer/ocn-registry-oli/subgraph.yaml" ∧
      (World.machine Sample.yaml).Accepts w
        (.update (Script.devNoOraclesWithMockErc20.updateArgs "chiado" none)) := by
  intro w
  obtain ⟨hcurrent, -, haccepts⟩ := manifest_follows_release Sample.yaml (fun _ => 46)
    (fun _ => some Sample.manifest) Sample.release Sample.release_oneAtATime
  have hdone : (w.networks "chiado").running = [(.devNoOraclesWithMockErc20, [])] := rfl
  refine ⟨hcurrent _, haccepts "chiado" .devNoOraclesWithMockErc20 none ?_ ?_⟩
  · rw [hdone]
    exact List.mem_singleton_self _
  · exact ⟨Sample.manifest, Sample.manifest, _, rfl, rfl, rfl, by decide⟩

end Release

end Ocn
