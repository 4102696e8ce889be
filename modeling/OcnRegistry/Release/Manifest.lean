/-
  File:      OcnRegistry/Release/Manifest.lean
  Subject:   THE SUBGRAPH'S MANIFEST, brought up to date after a deployment. Translated from
             scripts/deployment/update-subgraph-yaml.ts.

  The script reads the files that deployments of a network left and rewrites five data sources of
  the manifest. It writes last, so where it fails it has written nothing. A file without a receipt,
  as the payment manager's is, has block 0, and then the first block of registry, payment manager
  and governor stands in for it.

  * `updateSubgraphYaml_eq_ok` -- when the script comes to its end, and what it writes: the first
    data source of each of the five names, and nothing else of the manifest;
  * `updateSubgraphYaml_again` -- a second run changes nothing;
  * `fallbackStartBlock_le`, `mem_fallbackStartBlock` -- the block that stands in.
-/
import OcnRegistry.Library.Amend
import OcnRegistry.Solidity
import Mathlib.Data.List.Sort

namespace Ocn

namespace Release

/-! ## 1. The files -/

structure Receipt where
  blockNumber : Option Int

/-- The file of a deployment. -/
structure SavedDeployment where
  address : Option String
  receipt : Option Receipt

structure DeploymentData where
  address : String
  blockNumber : Int

/-- `source` of a data source; `others` are the entries the script does not name. -/
structure Source (V : Type) where
  address : Option String
  startBlock : Option Int
  others : List (String × V)

structure DataSource (V : Type) where
  name : Option String
  network : Option String
  source : Option (Source V)
  others : List (String × V)

/-- The manifest; `dataSources` is none where it is no array. -/
structure SubgraphManifest (V : Type) where
  dataSources : Option (List (DataSource V))
  others : List (String × V)

/-- **The `yaml` library**: what it writes it reads back. -/
structure Yaml (T V : Type) where
  parse : T → Option (SubgraphManifest V)
  stringify : SubgraphManifest V → T
  parse_stringify : ∀ manifest, parse (stringify manifest) = some manifest

/-- The files of the repository: of each network the deployments by their names, and manifests by
    their paths. -/
structure Repository (T : Type) where
  deployments : String → String → Option SavedDeployment
  manifests : String → Option T

/-- `writeFileSync` to a manifest. -/
def Repository.write {T : Type} (R : Repository T) (path : String) (text : T) : Repository T :=
  { R with manifests := Function.update R.manifests path (some text) }

inductive ManifestError where
  | usage
  | manifestNotFound (manifestName : String)
  | noAddress (deploymentName : String)
  | missingDeployment (deploymentName network : String)
  | missingStablecoin (network : String)
  | noStartBlock (network : String)
  | notYaml
  | noDataSources (manifestName : String)
  | dataSourceNotFound (dataSourceName manifestName : String)
  deriving DecidableEq

/-! ## 2. The script -/

/-- A text as the language takes it in a condition: the empty one is none. -/
def truthy (text : Option String) : Option String := text.filter fun t => decide (t ≠ "")

/-- `||` of numbers. -/
def orNumber (a b : Int) : Int := if a ≠ 0 then a else b

def orFail {α : Type} (error : ManifestError) : Option α → Except ManifestError α
  | some a => .ok a
  | none => .error error

def readDeployment (files : String → Option SavedDeployment) (deploymentName : String) :
    Except ManifestError (Option DeploymentData) :=
  match files deploymentName with
  | none => .ok none
  | some parsed => do
      let address ← orFail (.noAddress deploymentName) (truthy parsed.address)
      .ok (some ⟨address, (parsed.receipt.bind (·.blockNumber)).getD 0⟩)

/-- The deployments the script reads. -/
structure Deployed where
  registry : DeploymentData
  paymentManager : DeploymentData
  governor : DeploymentData
  certificateVerifier : DeploymentData
  mockErc20 : Option DeploymentData
  euroStable : Option DeploymentData

def readDeployments (files : String → Option SavedDeployment) (network : String) :
    Except ManifestError Deployed := do
  let registry ← readDeployment files "OcnRegistry"
  let paymentManager ← readDeployment files "OcnPaymentManager"
  let governor ← readDeployment files "OcnGovernor"
  let certificateVerifier ← readDeployment files "CertificateVerifier"
  let mockErc20 ← readDeployment files "MockERC20"
  let euroStable ← readDeployment files "EuroStableCoin"
  let registry ← orFail (.missingDeployment "OcnRegistry" network) registry
  let paymentManager ← orFail (.missingDeployment "OcnPaymentManager" network) paymentManager
  let governor ← orFail (.missingDeployment "OcnGovernor" network) governor
  let certificateVerifier ←
    orFail (.missingDeployment "CertificateVerifier" network) certificateVerifier
  .ok ⟨registry, paymentManager, governor, certificateVerifier, mockErc20, euroStable⟩

namespace Deployed

variable (D : Deployed)

def stablecoinAddress (stablecoinOverrideArg : Option String) : Option String :=
  truthy stablecoinOverrideArg <|> truthy (D.mockErc20.map (·.address)) <|>
    truthy (D.euroStable.map (·.address))

def fallbackStartBlock : Int :=
  ((([D.registry.blockNumber, D.paymentManager.blockNumber, D.governor.blockNumber].filter
    fun n => decide (0 < n)).insertionSort (· ≤ ·)).head?).getD 0

def stablecoinStartBlock : Int :=
  orNumber ((D.mockErc20.map (·.blockNumber)).getD 0)
    (orNumber ((D.euroStable.map (·.blockNumber)).getD 0)
      (orNumber D.paymentManager.blockNumber D.fallbackStartBlock))

end Deployed

structure Values where
  network : String
  address : String
  startBlock : Int

/-- The first block of a deployment, as the script takes it. -/
def Deployed.startBlock (D : Deployed) (deployment : DeploymentData) : Int :=
  orNumber deployment.blockNumber D.fallbackStartBlock

/-- The five updates, by the data sources' names. -/
def Deployed.updates (D : Deployed) (network stablecoinAddress : String) : List (String × Values) :=
  [("OCN_Registry_OLI", ⟨network, D.registry.address, D.startBlock D.registry⟩),
    ("ERC1967Proxy", ⟨network, D.paymentManager.address, D.startBlock D.paymentManager⟩),
    ("EuroStableCoin", ⟨network, stablecoinAddress, D.stablecoinStartBlock⟩),
    ("OCNGovernor", ⟨network, D.governor.address, D.startBlock D.governor⟩),
    ("OCN_Certificate_Verifier",
      ⟨network, D.certificateVerifier.address, D.startBlock D.certificateVerifier⟩)]

def dataSourceNames : List String :=
  ["OCN_Registry_OLI", "ERC1967Proxy", "EuroStableCoin", "OCNGovernor", "OCN_Certificate_Verifier"]

theorem Deployed.updates_names (D : Deployed) (network stablecoinAddress : String) :
    (D.updates network stablecoinAddress).map Prod.fst = dataSourceNames := rfl

def deploymentValues (files : String → Option SavedDeployment) (network : String)
    (stablecoinOverrideArg : Option String) : Except ManifestError (List (String × Values)) := do
  let D ← readDeployments files network
  let stablecoinAddress ←
    orFail (.missingStablecoin network) (D.stablecoinAddress stablecoinOverrideArg)
  if D.fallbackStartBlock ≤ 0 then .error (.noStartBlock network)
  else .ok (D.updates network stablecoinAddress)

/-- What an update makes of a data source. -/
def DataSource.update {V : Type} (values : Values) (dataSource : DataSource V) : DataSource V :=
  { dataSource with
    network := some values.network
    source := some { dataSource.source.getD ⟨none, none, []⟩ with
      address := some values.address
      startBlock := some values.startBlock } }

def updateDataSource {V : Type} (manifestName : String) (dataSources : List (DataSource V))
    (update : String × Values) : Except ManifestError (List (DataSource V)) :=
  orFail (.dataSourceNotFound update.1 manifestName)
    (Amend.first DataSource.name (some update.1) (DataSource.update update.2) dataSources)

/-- The arguments of the script and what it reads of the environment. -/
structure UpdateArgs where
  networkArg : Option String
  stablecoinOverrideArg : Option String
  manifestPathArg : Option String
  SUBGRAPH_MANIFEST : Option String

def UpdateArgs.subgraphManifestPath (A : UpdateArgs) : String :=
  (truthy A.manifestPathArg <|> truthy A.SUBGRAPH_MANIFEST).getD
    "thegraph-indexer/ocn-registry-oli/subgraph.yaml"

/-- The file's name without its folders. -/
def basename (path : String) : String := String.ofList ((path.toList.splitOn '/').getLastD [])

/-- **The script**: the files it leaves. -/
def updateSubgraphYaml {T V : Type} (Y : Yaml T V) (A : UpdateArgs) (R : Repository T) :
    Except ManifestError (Repository T) := do
  let network ← orFail .usage (truthy A.networkArg)
  let path := A.subgraphManifestPath
  let yamlOriginal ← orFail (.manifestNotFound (basename path)) (R.manifests path)
  let updates ← deploymentValues (R.deployments network) network A.stablecoinOverrideArg
  let manifest ← orFail .notYaml (Y.parse yamlOriginal)
  let dataSources ← orFail (.noDataSources (basename path)) manifest.dataSources
  let dataSources ← updates.foldlM (updateDataSource (basename path)) dataSources
  .ok (R.write path (Y.stringify { manifest with dataSources := some dataSources }))

/-! ## 3. When the script comes to its end -/

theorem orFail_eq_ok {α : Type} {error : ManifestError} {o : Option α} {a : α} :
    orFail error o = .ok a ↔ o = some a := by
  cases o <;> simp [orFail]

theorem truthy_eq_some {text : Option String} {t : String} :
    truthy text = some t ↔ text = some t ∧ t ≠ "" := by
  simp [truthy, Option.filter_eq_some_iff]

/-- What the script takes from a file. -/
def SavedDeployment.data (parsed : SavedDeployment) : DeploymentData :=
  ⟨parsed.address.getD "", (parsed.receipt.bind (·.blockNumber)).getD 0⟩

/-- Every file has an address. -/
def Addressed (files : String → Option SavedDeployment) : Prop :=
  ∀ deploymentName parsed, files deploymentName = some parsed → (truthy parsed.address).isSome

theorem readDeployment_eq {files : String → Option SavedDeployment} (h : Addressed files)
    (deploymentName : String) :
    readDeployment files deploymentName = .ok ((files deploymentName).map (·.data)) := by
  unfold readDeployment
  cases hfile : files deploymentName with
  | none => rfl
  | some parsed =>
      obtain ⟨address, haddress⟩ := Option.isSome_iff_exists.mp (h deploymentName parsed hfile)
      obtain ⟨hparsed, -⟩ := truthy_eq_some.mp haddress
      simp only [SavedDeployment.data, haddress, Option.map_some, bind_eq_ok, orFail_eq_ok]
      exact ⟨address, rfl, by rw [hparsed]; rfl⟩

/-- What the script reads, where every file has an address. -/
theorem readDeployments_eq_ok {files : String → Option SavedDeployment} (h : Addressed files)
    {network : String} {D : Deployed} : readDeployments files network = .ok D ↔
      (files "OcnRegistry").map (·.data) = some D.registry ∧
      (files "OcnPaymentManager").map (·.data) = some D.paymentManager ∧
      (files "OcnGovernor").map (·.data) = some D.governor ∧
      (files "CertificateVerifier").map (·.data) = some D.certificateVerifier ∧
      (files "MockERC20").map (·.data) = D.mockErc20 ∧
      (files "EuroStableCoin").map (·.data) = D.euroStable := by
  unfold readDeployments
  simp only [readDeployment_eq h, bind_eq_ok, orFail_eq_ok, Except.ok.injEq]
  refine ⟨fun hread => ?_, fun hread => ?_⟩
  · obtain ⟨_, rfl, _, rfl, _, rfl, _, rfl, _, rfl, _, rfl, hread⟩ := hread
    obtain ⟨registry, hr, paymentManager, hp, governor, hg, certificateVerifier, hc, rfl⟩ := hread
    exact ⟨hr, hp, hg, hc, rfl, rfl⟩
  · obtain ⟨hr, hp, hg, hc, hm, he⟩ := hread
    refine ⟨_, rfl, _, rfl, _, rfl, _, rfl, _, rfl, _, rfl, _, hr, _, hp, _, hg, _, hc, ?_⟩
    rw [hm, he]

theorem deploymentValues_eq_ok {files : String → Option SavedDeployment} {network : String}
    {stablecoinOverrideArg : Option String} {updates : List (String × Values)} :
    deploymentValues files network stablecoinOverrideArg = .ok updates ↔
      ∃ D stablecoinAddress, readDeployments files network = .ok D ∧
        D.stablecoinAddress stablecoinOverrideArg = some stablecoinAddress ∧
        0 < D.fallbackStartBlock ∧ updates = D.updates network stablecoinAddress := by
  unfold deploymentValues
  simp only [bind_eq_ok, orFail_eq_ok]
  refine ⟨fun h => ?_, fun h => ?_⟩
  · obtain ⟨D, hread, stablecoinAddress, hcoin, h⟩ := h
    split_ifs at h with hblock
    exact ⟨D, stablecoinAddress, hread, hcoin, not_le.mp hblock, (Except.ok.inj h).symm⟩
  · obtain ⟨D, stablecoinAddress, hread, hcoin, hblock, rfl⟩ := h
    exact ⟨D, hread, stablecoinAddress, hcoin, by rw [if_neg (not_le.mpr hblock)]⟩

section Updates

variable {V : Type}

/-- An update as an amendment of the list of data sources. -/
def amendment (update : String × Values) : Option String × (DataSource V → DataSource V) :=
  (some update.1, DataSource.update update.2)

theorem foldlM_updateDataSource {manifestName : String} {updates : List (String × Values)}
    {dataSources dataSources' : List (DataSource V)} :
    updates.foldlM (updateDataSource manifestName) dataSources = .ok dataSources' ↔
      Amend.all DataSource.name (updates.map amendment) dataSources = some dataSources' := by
  induction updates generalizing dataSources with
  | nil => simp [Amend.all, pure, Except.pure]
  | cons update updates ih =>
      rw [List.foldlM_cons, List.map_cons, Amend.all, bind_eq_ok, Option.bind_eq_some_iff]
      refine exists_congr fun dataSources₁ => and_congr orFail_eq_ok ih

theorem update_keeps (updates : List (String × Values)) :
    ∀ a ∈ updates.map (amendment (V := V)), ∀ dataSource,
      (a.2 dataSource).name = dataSource.name := by
  intro a ha dataSource
  obtain ⟨update, _, rfl⟩ := List.mem_map.mp ha
  rfl

theorem update_again (updates : List (String × Values)) :
    ∀ a ∈ updates.map (amendment (V := V)), ∀ dataSource,
      a.2 (a.2 dataSource) = a.2 dataSource := by
  intro a ha dataSource
  obtain ⟨update, _, rfl⟩ := List.mem_map.mp ha
  rfl

/-- The names of the updates, as amendments. -/
theorem amendments_names {updates : List (String × Values)}
    (h : updates.map Prod.fst = dataSourceNames) :
    (updates.map (amendment (V := V))).map Prod.fst = dataSourceNames.map some := by
  rw [← h, List.map_map, List.map_map]
  rfl

theorem updates_once {updates : List (String × Values)}
    (h : updates.map Prod.fst = dataSourceNames) :
    ((updates.map (amendment (V := V))).map Prod.fst).Nodup := by
  rw [amendments_names h]
  decide

end Updates

section Script

variable {T V : Type} {Y : Yaml T V} {A : UpdateArgs} {R R' : Repository T}

/-- **The script comes to its end** exactly if the manifest is there and can be read, the files of
    the deployments give the values, and the manifest has a data source of each name; and then the
    first one of each is updated, and written with the rest of the manifest. -/
theorem updateSubgraphYaml_eq_ok : updateSubgraphYaml Y A R = .ok R' ↔
    ∃ network text updates manifest dataSources dataSources', truthy A.networkArg = some network ∧
      R.manifests A.subgraphManifestPath = some text ∧
      deploymentValues (R.deployments network) network A.stablecoinOverrideArg = .ok updates ∧
      Y.parse text = some manifest ∧ manifest.dataSources = some dataSources ∧
      Amend.all DataSource.name (updates.map amendment) dataSources = some dataSources' ∧
      R' = R.write A.subgraphManifestPath
        (Y.stringify { manifest with dataSources := some dataSources' }) := by
  unfold updateSubgraphYaml
  simp only [bind_eq_ok, orFail_eq_ok, foldlM_updateDataSource, Except.ok.injEq]
  refine ⟨fun h => ?_, fun h => ?_⟩
  · obtain ⟨network, hnetwork, text, htext, updates, hvalues, manifest, hparse, h⟩ := h
    obtain ⟨dataSources, hsources, dataSources', hall, rfl⟩ := h
    exact ⟨network, text, updates, manifest, dataSources, dataSources', hnetwork, htext, hvalues,
      hparse, hsources, hall, rfl⟩
  · obtain ⟨network, text, updates, manifest, dataSources, dataSources', h⟩ := h
    obtain ⟨hnetwork, htext, hvalues, hparse, hsources, hall, rfl⟩ := h
    exact ⟨network, hnetwork, text, htext, updates, hvalues, manifest, hparse, dataSources,
      hsources, dataSources', hall, rfl⟩

/-- **A second run changes nothing.** -/
theorem updateSubgraphYaml_again (h : updateSubgraphYaml Y A R = .ok R') :
    updateSubgraphYaml Y A R' = .ok R' := by
  obtain ⟨network, text, updates, manifest, dataSources, dataSources', hnetwork, htext, hvalues,
    hparse, hsources, hall, rfl⟩ := updateSubgraphYaml_eq_ok.mp h
  obtain ⟨D, stablecoinAddress, _, _, _, rfl⟩ := deploymentValues_eq_ok.mp hvalues
  have hkeep := update_keeps (V := V) (D.updates network stablecoinAddress)
  have honce := updates_once (V := V) (D.updates_names network stablecoinAddress)
  have hagain := (Amend.all_amended hkeep honce hall).again hkeep honce
    (update_again (D.updates network stablecoinAddress)) (by rw [hall]; rfl)
  refine updateSubgraphYaml_eq_ok.mpr ⟨network, _, _, _, dataSources', dataSources', hnetwork,
    Function.update_self .., hvalues, Y.parse_stringify _, rfl, hagain, ?_⟩
  unfold Repository.write
  rw [Function.update_idem]

end Script

/-! ## 4. The block that stands in -/

section Fallback

variable {D : Deployed} {n : Int}

/-- The blocks the script chooses from. -/
def Deployed.blocks (D : Deployed) : List Int :=
  [D.registry.blockNumber, D.paymentManager.blockNumber, D.governor.blockNumber]

theorem fallbackStartBlock_eq (D : Deployed) : D.fallbackStartBlock =
    (((D.blocks.filter fun n => decide (0 < n)).insertionSort (· ≤ ·)).head?).getD 0 := rfl

/-- It is the block of one of the three deployments, if it is any. -/
theorem mem_fallbackStartBlock (h : 0 < D.fallbackStartBlock) :
    D.fallbackStartBlock ∈ D.blocks := by
  rw [fallbackStartBlock_eq] at h ⊢
  cases hhead : ((D.blocks.filter fun n => decide (0 < n)).insertionSort (· ≤ ·)).head? with
  | none =>
      rw [hhead] at h
      cases h
  | some n =>
      have hmem := (List.mem_insertionSort _).mp (List.mem_of_mem_head? hhead)
      exact (List.mem_filter.mp hmem).1

/-- It is positive and no later than any positive one of them. -/
theorem fallbackStartBlock_le (hn : n ∈ D.blocks) (hpos : 0 < n) :
    0 < D.fallbackStartBlock ∧ D.fallbackStartBlock ≤ n := by
  have hmem : n ∈ (D.blocks.filter fun n => decide (0 < n)).insertionSort (· ≤ ·) :=
    (List.mem_insertionSort _).mpr (List.mem_filter.mpr ⟨hn, decide_eq_true hpos⟩)
  have hsorted := List.pairwise_insertionSort (· ≤ ·) (D.blocks.filter fun n => decide (0 < n))
  rw [fallbackStartBlock_eq]
  cases hsort : (D.blocks.filter fun n => decide (0 < n)).insertionSort (· ≤ ·) with
  | nil =>
      rw [hsort] at hmem
      cases hmem
  | cons m rest =>
      rw [hsort] at hmem hsorted
      have hm : m ∈ (D.blocks.filter fun n => decide (0 < n)).insertionSort (· ≤ ·) := by
        rw [hsort]
        exact List.mem_cons_self
      have hmpos := of_decide_eq_true (List.mem_filter.mp ((List.mem_insertionSort _).mp hm)).2
      refine ⟨hmpos, ?_⟩
      rcases List.mem_cons.mp hmem with rfl | hrest
      · exact le_refl _
      · exact List.rel_of_pairwise_cons hsorted hrest

theorem orNumber_of_ne {a b : Int} (h : a ≠ 0) : orNumber a b = a := if_pos h

@[simp] theorem orNumber_zero (b : Int) : orNumber 0 b = b := if_neg (not_not_intro rfl)

end Fallback

end Release

end Ocn
