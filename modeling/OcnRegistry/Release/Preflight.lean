/-
  File:      OcnRegistry/Release/Preflight.lean
  Subject:   THE PREFLIGHT CHECK of a release, and what the deployment makes of what it lets
             through. Translated from scripts/deployment/preflight.ts, hardhat.config.ts and the
             release scripts.

  The check reads the environment before anything is deployed. What it looks at, hardhat and the
  scripts of deploy/ look at later: the key at the start of every command, the operator and the
  stablecoin with the payment manager, the verifiers at the very end, when contracts are deployed
  already. They ask for more: a key that is one, and verifiers as a contract call takes them. Left
  out: what is printed.

  * `preflight_eq_ok` -- what the check lets through;
  * `preflight_tells_end` -- what it lets through comes to its end, if there is an account to send
    with, every verifier is written with `0x`, none is zero or named twice, and the test
    certificates have signers where they are asked for; what it refuses would not come to its end
    either, but for a stablecoin the release ignores.
-/
import OcnRegistry.Gate.Keys
import OcnRegistry.Governance
import OcnRegistry.Release.Releases

namespace Ocn

open Transaction

namespace Release

/-! ## 1. The check -/

/-- The environment of the process; `getAddress` is that of the `ethers` library. -/
structure ProcessEnv where
  DEPLOYER_PRIVATE_KEY : Option String
  GRAPH_DEPLOY_KEY : Option String
  DEFAULT_OPERATOR : Option String
  ALLOWED_VERIFIERS : Option String
  STABLECOIN_ADDRESS : Option String
  getAddress : Gate.Text → Option Address

inductive PreflightError where
  | usage
  | required (name : String)
  | invalidFormat (name : String)
  | invalid (name : String) (value : Gate.Text)

namespace ProcessEnv

variable (P : ProcessEnv)

/-- `isAddress` of the library: `getAddress` takes it. -/
def isAddress (value : Gate.Text) : Bool := (P.getAddress value).isSome

def normalizePrivateKey (pk : Gate.Text) : Gate.Text :=
  if Gate.startsWith pk "0x" then pk else '0' :: 'x' :: pk

/-- The expression `0x` and 64 hexadecimal digits. -/
def isKeyFormat (key : Gate.Text) : Bool :=
  Gate.startsWith key "0x" && (key.drop 2).all Gate.isHexDigit && decide ((key.drop 2).length = 64)

def assertPrivateKey (name : String) (value : Option String) : Except PreflightError Unit :=
  match truthy value with
  | none => .error (.required name)
  | some value =>
      if isKeyFormat (normalizePrivateKey value.toList) then .ok ()
      else .error (.invalidFormat name)

def assertAddress (name : String) (value : Option String) : Except PreflightError Unit :=
  match truthy value with
  | none => .error (.required name)
  | some value =>
      if P.isAddress value.toList then .ok () else .error (.invalid name value.toList)

/-- An address, or nothing. -/
def checkOptional (name : String) (value : Option String) : Except PreflightError Unit :=
  match truthy value with
  | none => .ok ()
  | some value =>
      if P.isAddress value.toList then .ok () else .error (.invalid name value.toList)

def parseAllowedVerifiers (raw : Option String) : List Gate.Text :=
  match truthy raw with
  | none => []
  | some raw => ((raw.toList.splitOn ',').map Gate.trim).filter fun v => decide (0 < v.length)

def checkVerifiers (verifiers : List Gate.Text) : Except PreflightError Unit :=
  match verifiers.find? fun verifier => !P.isAddress verifier with
  | some verifier => .error (.invalid "ALLOWED_VERIFIERS" verifier)
  | none => .ok ()

/-- With the mode `mock`, a stablecoin of the environment is ignored later. -/
def checkEnvironment (modeArg : Option String) : Except PreflightError Unit :=
  if modeArg = some "mock" then P.checkOptional "STABLECOIN_ADDRESS" P.STABLECOIN_ADDRESS
  else .ok ()

def checkArgument (modeArg stablecoinArg : Option String) : Except PreflightError Unit :=
  if modeArg = some "external" then P.assertAddress "stablecoin-address argument" stablecoinArg
  else .ok ()

/-- **The check**: whether there is a key to deploy the subgraph with. -/
def preflight (modeArg stablecoinArg : Option String) : Except PreflightError Bool := do
  if modeArg ≠ some "mock" ∧ modeArg ≠ some "external" then .error .usage
  else do
    assertPrivateKey "DEPLOYER_PRIVATE_KEY" P.DEPLOYER_PRIVATE_KEY
    let hasGraphDeployKey := (truthy P.GRAPH_DEPLOY_KEY).isSome
    P.checkOptional "DEFAULT_OPERATOR" P.DEFAULT_OPERATOR
    P.checkVerifiers (parseAllowedVerifiers P.ALLOWED_VERIFIERS)
    P.checkEnvironment modeArg
    P.checkArgument modeArg stablecoinArg
    .ok hasGraphDeployKey

end ProcessEnv

/-! ## 2. The key -/

namespace ProcessEnv

/-- What hardhat.config.ts makes of the key: nothing, and the command ends, if its form is not
    right. -/
def deployerPrivateKey (P : ProcessEnv) : Option Gate.Text :=
  match truthy P.DEPLOYER_PRIVATE_KEY with
  | none => none
  | some rawDeployerPrivateKey =>
      let normalizedDeployerPrivateKey := normalizePrivateKey rawDeployerPrivateKey.toList
      if isKeyFormat normalizedDeployerPrivateKey then some normalizedDeployerPrivateKey else none

/-- The networks of hardhat.config.ts whose only account is that of the key. -/
def keyNetworks : List String := ["amoy", "volta", "chiado", "gnosis"]

/-- The order of the curve. -/
def secp256k1Order : Nat := 0xFFFFFFFFFFFFFFFFFFFFFFFFFFFFFFFEBAAEDCE6AF48A03BBFD25E8CD0364141

/-- A key is a number from one on below the order of the curve. -/
def isPrivateKey (key : Gate.Text) : Bool :=
  decide (0 < Gate.hexValue (key.drop 2)) && decide (Gate.hexValue (key.drop 2) < secp256k1Order)

/-- **There is an account to send with**: on `localhost` it is the node's, on the other networks of
    the configuration the key's. -/
def hasAccount (P : ProcessEnv) (network : String) : Bool :=
  match P.deployerPrivateKey with
  | none => false
  | some key =>
      decide (network = "localhost") || (keyNetworks.contains network && isPrivateKey key)

end ProcessEnv

/-! ## 3. The release -/

/-- **Where a release takes place**: the network, the contracts it deploys, and the signers of the
    test certificates. -/
structure Site where
  network : String
  contracts : Deploy.Contracts
  mockErc20 : Address
  cpoOracle : Address
  emspOracle : Address
  verifyCPO : Except Revert Address
  verifyEMP : Except Revert Address

namespace Script

/-- The arguments of the check. -/
def preflightArgs : Script → Option String × Option String
  | prodWithExternalStablecoin stablecoinAddress => (some "external", some stablecoinAddress)
  | _ => (some "mock", none)

/-- The environment of 06_deployOcnPaymentManager.ts; the first two scripts blank the address, so
    that the deployed MockERC20 is taken. -/
def paymentEnvironment (P : ProcessEnv) (S : Site) : Script → Deploy.PaymentEnvironment
  | prodWithExternalStablecoin stablecoinAddress =>
      ⟨some stablecoinAddress, P.DEFAULT_OPERATOR, none, P.getAddress⟩
  | _ => ⟨some "", P.DEFAULT_OPERATOR, some S.mockErc20, P.getAddress⟩

/-- The environment of 09_deployOcnRegistry.ts; the first script deploys no oracles. -/
def registryEnvironment (P : ProcessEnv) (S : Site) : Script → Deploy.Environment
  | devNoOraclesWithMockErc20 =>
      ⟨P.ALLOWED_VERIFIERS, S.network, P.getAddress, S.verifyCPO, S.verifyEMP, none, none⟩
  | _ => ⟨P.ALLOWED_VERIFIERS, S.network, P.getAddress, S.verifyCPO, S.verifyEMP,
      some S.cpoOracle, some S.emspOracle⟩

end Script

/-- The contracts a release leaves. -/
structure Released where
  timelock : RoleMembers
  manager : OcnPaymentManager
  setup : Deploy.Setup

/-- **The scripts of deploy/ that hand contracts over**, one after the other: what they leave, if
    hardhat can send transactions and none of them stops. -/
def deployAll (script : Script) (P : ProcessEnv) (S : Site) : Option Released :=
  if !P.hasAccount S.network then none
  else match Deploy.setupGovernor S.contracts,
      Deploy.deployOcnPaymentManager (script.paymentEnvironment P S) S.contracts,
      Deploy.deployOcnRegistry (script.registryEnvironment P S) S.contracts with
  | (timelock, true), .ok manager, (setup, true) => some ⟨timelock, manager, setup⟩
  | _, _, _ => none

/-! ## 4. What the check lets through -/

section Check

variable {P : ProcessEnv} {name : String} {value : Option String}

/-- **The keys the check lets through**: 64 hexadecimal digits, with `0x` or without. -/
theorem isKeyFormat_normalize {pk : Gate.Text} :
    ProcessEnv.isKeyFormat (ProcessEnv.normalizePrivateKey pk) = true ↔
      ∃ digits : Gate.Text, digits.length = 64 ∧ digits.all Gate.isHexDigit = true ∧
        (pk = digits ∨ pk = '0' :: 'x' :: digits) := by
  have hformat : ∀ digits : Gate.Text, ProcessEnv.isKeyFormat ('0' :: 'x' :: digits) = true ↔
      digits.length = 64 ∧ digits.all Gate.isHexDigit = true := by
    intro digits
    have hstart : Gate.startsWith ('0' :: 'x' :: digits) "0x" = true :=
      Gate.startsWith_0x.mpr ⟨digits, rfl⟩
    simp [ProcessEnv.isKeyFormat, hstart, and_comm]
  unfold ProcessEnv.normalizePrivateKey
  split_ifs with h
  · obtain ⟨rest, rfl⟩ := Gate.startsWith_0x.mp h
    rw [hformat]
    refine ⟨fun hrest => ⟨rest, hrest.1, hrest.2, .inr rfl⟩, fun hpk => ?_⟩
    obtain ⟨digits, hlength, hhex, hpk | hpk⟩ := hpk
    · -- the x of the mark is no digit
      rw [← hpk] at hhex
      simp [Gate.isHexDigit, Gate.isDigit] at hhex
    · cases hpk
      exact ⟨hlength, hhex⟩
  · rw [hformat]
    refine ⟨fun hpk => ⟨pk, hpk.1, hpk.2, .inl rfl⟩, fun hpk => ?_⟩
    obtain ⟨digits, hlength, hhex, rfl | rfl⟩ := hpk
    · exact ⟨hlength, hhex⟩
    · exact absurd (Gate.startsWith_0x.mpr ⟨digits, rfl⟩) h

theorem assertPrivateKey_eq_ok : ProcessEnv.assertPrivateKey name value = .ok () ↔
    ∃ pk, truthy value = some pk ∧
      ProcessEnv.isKeyFormat (ProcessEnv.normalizePrivateKey pk.toList) = true := by
  unfold ProcessEnv.assertPrivateKey
  cases truthy value with
  | none => simp
  | some pk => simp

theorem assertAddress_eq_ok : P.assertAddress name value = .ok () ↔
    ∃ a, truthy value = some a ∧ P.isAddress a.toList = true := by
  unfold ProcessEnv.assertAddress
  cases truthy value with
  | none => simp
  | some a => simp

theorem checkOptional_eq_ok : P.checkOptional name value = .ok () ↔
    ∀ a, truthy value = some a → P.isAddress a.toList = true := by
  unfold ProcessEnv.checkOptional
  cases truthy value with
  | none => simp
  | some a => simp

theorem checkVerifiers_eq_ok {verifiers : List Gate.Text} :
    P.checkVerifiers verifiers = .ok () ↔ ∀ v ∈ verifiers, P.isAddress v = true := by
  unfold ProcessEnv.checkVerifiers
  cases hfind : verifiers.find? fun verifier => !P.isAddress verifier with
  | none =>
      refine iff_of_true rfl fun v hv => ?_
      simpa using List.find?_eq_none.mp hfind v hv
  | some v =>
      refine iff_of_false (by simp) fun hall => ?_
      have hnot := List.find?_some hfind
      simp [hall v (List.mem_of_find?_eq_some hfind)] at hnot

/-- A key of the form the check asks for. -/
def ProcessEnv.HasKey (P : ProcessEnv) : Prop :=
  ∃ pk digits, truthy P.DEPLOYER_PRIVATE_KEY = some pk ∧ digits.length = 64 ∧
    digits.all Gate.isHexDigit = true ∧ (pk.toList = digits ∨ pk.toList = '0' :: 'x' :: digits)

/-- **The key signs**, if it is asked to. -/
def ProcessEnv.KeySigns (P : ProcessEnv) (network : String) : Prop :=
  network = "localhost" ∨ (network ∈ ProcessEnv.keyNetworks ∧
    ∀ key, P.deployerPrivateKey = some key → ProcessEnv.isPrivateKey key = true)

/-- **When there is an account**: hardhat asks for the form the check asks for, and for a key that
    signs. -/
theorem hasAccount_iff {network : String} :
    P.hasAccount network = true ↔ P.HasKey ∧ P.KeySigns network := by
  have hkey : P.HasKey ↔ P.deployerPrivateKey.isSome = true := by
    unfold ProcessEnv.deployerPrivateKey ProcessEnv.HasKey
    cases truthy P.DEPLOYER_PRIVATE_KEY with
    | none => exact iff_of_false (fun ⟨_, _, h, _⟩ => (by cases h)) Bool.false_ne_true
    | some raw =>
        dsimp only
        rw [Option.isSome_ite, isKeyFormat_normalize]
        exact ⟨fun ⟨_, digits, hpk, h⟩ => Option.some.inj hpk ▸ ⟨digits, h⟩,
          fun ⟨digits, h⟩ => ⟨raw, digits, rfl, h⟩⟩
  unfold ProcessEnv.hasAccount ProcessEnv.KeySigns
  rw [hkey]
  cases P.deployerPrivateKey with
  | none => simp
  | some key => simp

/-- The stablecoin of the environment, which the first two scripts check and then ignore. -/
def Script.IgnoredStablecoin (P : ProcessEnv) : Script → Prop
  | .prodWithExternalStablecoin _ => True
  | _ => ∀ a, truthy P.STABLECOIN_ADDRESS = some a → P.isAddress a.toList = true

/-- The stablecoin the third script is called with. -/
def Script.Stablecoin (P : ProcessEnv) : Script → Prop
  | .prodWithExternalStablecoin stablecoinAddress =>
      stablecoinAddress ≠ "" ∧ P.isAddress stablecoinAddress.toList = true
  | _ => True

theorem checkEnvironment_eq_ok (script : Script) :
    P.checkEnvironment script.preflightArgs.1 = .ok () ↔ script.IgnoredStablecoin P := by
  cases script <;>
    simp [ProcessEnv.checkEnvironment, Script.preflightArgs, Script.IgnoredStablecoin,
      checkOptional_eq_ok]

theorem checkArgument_eq_ok (script : Script) :
    P.checkArgument script.preflightArgs.1 script.preflightArgs.2 = .ok () ↔
      script.Stablecoin P := by
  cases script <;>
    simp [ProcessEnv.checkArgument, Script.preflightArgs, Script.Stablecoin, assertAddress_eq_ok,
      truthy_eq_some, and_assoc]

/-- **What the check lets through.** -/
theorem preflight_eq_ok (script : Script) {hasGraphDeployKey : Bool} :
    P.preflight script.preflightArgs.1 script.preflightArgs.2 = .ok hasGraphDeployKey ↔
      P.HasKey ∧ (∀ a, truthy P.DEFAULT_OPERATOR = some a → P.isAddress a.toList = true) ∧
        (∀ v ∈ ProcessEnv.parseAllowedVerifiers P.ALLOWED_VERIFIERS, P.isAddress v = true) ∧
        script.IgnoredStablecoin P ∧ script.Stablecoin P ∧
        hasGraphDeployKey = (truthy P.GRAPH_DEPLOY_KEY).isSome := by
  have hkey : ProcessEnv.assertPrivateKey "DEPLOYER_PRIVATE_KEY" P.DEPLOYER_PRIVATE_KEY = .ok () ↔
      P.HasKey := by
    rw [assertPrivateKey_eq_ok]
    simp only [isKeyFormat_normalize, ProcessEnv.HasKey]
    exact ⟨fun ⟨pk, hpk, digits, h⟩ => ⟨pk, digits, hpk, h⟩,
      fun ⟨pk, digits, hpk, h⟩ => ⟨pk, hpk, digits, h⟩⟩
  have hunit : ∀ {x : Except PreflightError Unit} {p : Prop},
      (∃ a, x = .ok a ∧ p) ↔ x = .ok () ∧ p :=
    fun {_ _} => ⟨fun ⟨_, hx, hp⟩ => ⟨hx, hp⟩, fun ⟨hx, hp⟩ => ⟨(), hx, hp⟩⟩
  have hmode : ¬ (script.preflightArgs.1 ≠ some "mock" ∧
      script.preflightArgs.1 ≠ some "external") := by
    cases script <;> simp [Script.preflightArgs]
  unfold ProcessEnv.preflight
  rw [if_neg hmode]
  simp only [bind_eq_ok, hunit, hkey, checkOptional_eq_ok, checkVerifiers_eq_ok,
    checkEnvironment_eq_ok, checkArgument_eq_ok, Except.ok.injEq, exists_const]
  rw [eq_comm (a := hasGraphDeployKey)]

end Check

/-! ## 5. What the scripts make of it -/

section Scripts

variable {P : ProcessEnv} {S : Site}

/-- The scripts read the verifiers as the check does. -/
theorem allowedFromEnv_eq (script : Script) : (script.registryEnvironment P S).allowedFromEnv =
    ProcessEnv.parseAllowedVerifiers P.ALLOWED_VERIFIERS := by
  have hread : (script.registryEnvironment P S).ALLOWED_VERIFIERS = P.ALLOWED_VERIFIERS := by
    cases script <;> rfl
  unfold Deploy.Environment.allowedFromEnv ProcessEnv.parseAllowedVerifiers
  rw [hread]
  cases P.ALLOWED_VERIFIERS with
  | none => rfl
  | some raw =>
      by_cases hraw : raw = ""
      · subst hraw
        rfl
      · rw [truthy_eq_some.mpr ⟨rfl, hraw⟩]
        rfl

theorem orNotAnAddress_isOk {a : Option Address} :
    (∃ address, Deploy.PaymentEnvironment.orNotAnAddress a = .ok address) ↔ a.isSome = true := by
  cases a <;> simp [Deploy.PaymentEnvironment.orNotAnAddress]

theorem defaultOperator_isOk {E : Deploy.PaymentEnvironment} :
    (∃ operator, E.defaultOperator = .ok operator) ↔
      ∀ a, truthy E.DEFAULT_OPERATOR = some a → (E.getAddress a.toList).isSome = true := by
  unfold Deploy.PaymentEnvironment.defaultOperator
  cases E.DEFAULT_OPERATOR with
  | none => simp [truthy]
  | some a =>
      by_cases ha : a = ""
      · simp [truthy, ha]
      · simp [truthy, ha, orNotAnAddress_isOk]

theorem stablecoinAddress_isOk (script : Script) :
    (∃ stablecoin, (script.paymentEnvironment P S).stablecoinAddress = .ok stablecoin) ↔
      script.Stablecoin P := by
  cases script with
  | devNoOraclesWithMockErc20 => exact iff_of_true ⟨S.mockErc20, rfl⟩ trivial
  | prodWithMockErc20 => exact iff_of_true ⟨S.mockErc20, rfl⟩ trivial
  | prodWithExternalStablecoin a =>
      by_cases ha : a = ""
      · simp [Deploy.PaymentEnvironment.stablecoinAddress, Script.paymentEnvironment,
          Script.Stablecoin, ha, Deploy.PaymentEnvironment.orNotAnAddress]
      · simp [Deploy.PaymentEnvironment.stablecoinAddress, Script.paymentEnvironment,
          Script.Stablecoin, ha, orNotAnAddress_isOk, ProcessEnv.isAddress]

/-- **The payment manager is deployed** exactly with an operator and a stablecoin that the check
    lets through. -/
theorem payment_iff (script : Script) :
    (∃ manager, Deploy.deployOcnPaymentManager (script.paymentEnvironment P S) S.contracts =
      .ok manager) ↔
      (∀ a, truthy P.DEFAULT_OPERATOR = some a → P.isAddress a.toList = true) ∧
        script.Stablecoin P := by
  have hoperator := defaultOperator_isOk (E := script.paymentEnvironment P S)
  have henv : (script.paymentEnvironment P S).DEFAULT_OPERATOR = P.DEFAULT_OPERATOR ∧
      (script.paymentEnvironment P S).getAddress = P.getAddress := by
    cases script <;> exact ⟨rfl, rfl⟩
  rw [henv.1, henv.2] at hoperator
  rw [← stablecoinAddress_isOk (S := S)]
  refine Iff.trans ?_ (and_congr_left' hoperator)
  refine ⟨fun h => ?_, fun h => ?_⟩
  · obtain ⟨manager, hmanager⟩ := h
    obtain ⟨stablecoin, operator, hstablecoin, hop, -⟩ :=
      Deploy.deployOcnPaymentManager_eq_ok.mp hmanager
    exact ⟨⟨operator, hop⟩, stablecoin, hstablecoin⟩
  · obtain ⟨⟨operator, hop⟩, stablecoin, hstablecoin⟩ := h
    exact ⟨_, Deploy.deployOcnPaymentManager_eq_ok.mpr
      ⟨stablecoin, operator, hstablecoin, hop, rfl⟩⟩

/-- **What the check does not look at in the verifiers**: each is written as a call takes it, none
    is zero, none is named twice, and where the test certificates are asked they have signers. -/
def Trusted (E : Deploy.Environment) : Prop :=
  (∀ v ∈ E.allowedFromEnv, Gate.isHexAddress v = true) ∧
  ∃ verifiers, E.verifiersToAllow = .ok verifiers ∧ some 0 ∉ verifiers ∧
    (verifiers.filter Option.isSome).Nodup

/-- A text of the list is resolved exactly where it is an address and has the mark. -/
theorem resolveAddress_ne_none (script : Script) (v : Gate.Text) :
    (script.registryEnvironment P S).resolveAddress v ≠ none ↔
      P.isAddress v = true ∧ Gate.isHexAddress v = true := by
  have hgetAddress : (script.registryEnvironment P S).getAddress = P.getAddress := by
    cases script <;> rfl
  unfold Deploy.Environment.resolveAddress ProcessEnv.isAddress
  rw [hgetAddress]
  cases Gate.isHexAddress v <;> simp [Option.isSome_iff_ne_none]

/-- **The verifiers the script reads** are all resolved exactly if the texts of the list are. -/
theorem none_not_mem_verifiers (script : Script) {verifiers : List (Option Address)}
    (h : (script.registryEnvironment P S).verifiersToAllow = .ok verifiers) :
    none ∉ verifiers ↔ ∀ v ∈ ProcessEnv.parseAllowedVerifiers P.ALLOWED_VERIFIERS,
      P.isAddress v = true ∧ Gate.isHexAddress v = true := by
  have hresolve := resolveAddress_ne_none (P := P) (S := S) script
  unfold Deploy.Environment.verifiersToAllow at h
  rw [allowedFromEnv_eq] at h
  split_ifs at h with hlist hdev
  · obtain rfl := Except.ok.inj h
    rw [List.mem_map]
    refine ⟨fun hnone v hv => (hresolve v).mp fun e => hnone ⟨v, hv, e⟩, fun hall hnone => ?_⟩
    obtain ⟨v, hv, e⟩ := hnone
    exact (hresolve v).mpr (hall v hv) e
  · -- no list: the signers of the test certificates
    rw [List.length_pos_iff, Classical.not_not] at hlist
    obtain ⟨_, _, h⟩ := bind_eq_ok.mp h
    obtain ⟨_, _, h⟩ := bind_eq_ok.mp h
    obtain rfl := Except.ok.inj h
    simp [hlist]
  · rw [List.length_pos_iff, Classical.not_not] at hlist
    obtain rfl := Except.ok.inj h
    simp [hlist]

theorem filter_isSome_eq {verifiers : List (Option Address)} (h : none ∉ verifiers) :
    verifiers.filter Option.isSome = verifiers := by
  rw [List.filter_eq_self]
  intro a ha
  exact Option.isSome_iff_ne_none.mpr fun e => h (e ▸ ha)

/-- **The registry's script comes to its end** exactly if the verifiers are addresses and
    trusted. -/
theorem registry_iff (script : Script) :
    (Deploy.deployOcnRegistry (script.registryEnvironment P S) S.contracts).2 = true ↔
      (∀ v ∈ ProcessEnv.parseAllowedVerifiers P.ALLOWED_VERIFIERS, P.isAddress v = true) ∧
        Trusted (script.registryEnvironment P S) := by
  rw [Deploy.finished_iff, Trusted, allowedFromEnv_eq]
  refine ⟨fun h => ?_, fun h => ?_⟩
  · obtain ⟨verifiers, hverifiers, husable⟩ := h
    have hall := (none_not_mem_verifiers script hverifiers).mp husable.addresses
    refine ⟨fun v hv => (hall v hv).1, fun v hv => (hall v hv).2, verifiers, hverifiers,
      husable.nonzero, ?_⟩
    rw [filter_isSome_eq husable.addresses]
    exact husable.once
  · obtain ⟨haddresses, hmarked, verifiers, hverifiers, hzero, honce⟩ := h
    have hnone := (none_not_mem_verifiers script hverifiers).mpr fun v hv =>
      ⟨haddresses v hv, hmarked v hv⟩
    rw [filter_isSome_eq hnone] at honce
    exact ⟨verifiers, hverifiers, hnone, hzero, honce⟩

/-- **What the scripts leave**, and when: the timelock's roles are always set up. -/
theorem deployAll_eq_some (script : Script) {R : Released} : deployAll script P S = some R ↔
    P.hasAccount S.network = true ∧ R.timelock = (Deploy.setupGovernor S.contracts).1 ∧
      Deploy.deployOcnPaymentManager (script.paymentEnvironment P S) S.contracts = .ok R.manager ∧
      Deploy.deployOcnRegistry (script.registryEnvironment P S) S.contracts = (R.setup, true) := by
  have hgovernor : Deploy.setupGovernor S.contracts =
      ((Deploy.setupGovernor S.contracts).1, true) := by rw [Deploy.setupGovernor_eq]
  unfold deployAll
  cases P.hasAccount S.network with
  | false => exact iff_of_false (fun h => (by cases h)) fun h => Bool.false_ne_true h.1
  | true =>
      rw [hgovernor, if_neg (by decide), and_iff_right rfl]
      cases hpayment :
          Deploy.deployOcnPaymentManager (script.paymentEnvironment P S) S.contracts with
      | error e => simp
      | ok manager =>
          obtain ⟨setup, finished⟩ :=
            Deploy.deployOcnRegistry (script.registryEnvironment P S) S.contracts
          cases finished with
          | false => simp
          | true =>
              obtain ⟨timelock, manager', setup'⟩ := R
              simp only [Option.some.injEq, Released.mk.injEq, Except.ok.injEq, Prod.mk.injEq,
                and_true]
              exact and_congr_left' eq_comm

/-- **The check tells the end of a release**: for each of the three release scripts, in every
    environment, it lets through exactly the releases that come to their end, but for a bad
    STABLECOIN_ADDRESS that the first two scripts ignore, which it refuses, and what it does not
    look at: a key of the right form that signs nothing, verifiers without the mark, that are zero
    or named twice, or test certificates without a signer. A release that comes to its end leaves
    timelock, payment manager, validator and registry with the timelock as their only admin. -/
theorem preflight_tells_end (script : Script) (P : ProcessEnv) (S : Site) :
    ((∃ hasGraphDeployKey, P.preflight script.preflightArgs.1 script.preflightArgs.2 =
        .ok hasGraphDeployKey) ∧ P.KeySigns S.network ∧
          Trusted (script.registryEnvironment P S) ↔
      script.IgnoredStablecoin P ∧ (deployAll script P S).isSome = true) ∧
    ∀ R, deployAll script P S = some R →
      Deploy.SoleAdmin S.contracts.timelock R.timelock ∧
        Deploy.SoleAdmin S.contracts.timelock R.manager.members ∧
        R.setup.InHandsOf S.contracts.timelock := by
  refine ⟨⟨fun h => ?_, fun h => ?_⟩, fun R hR => ?_⟩
  · obtain ⟨⟨_, hcheck⟩, hsigns, htrusted⟩ := h
    obtain ⟨hkey, hoperator, hverifiers, hignored, hcoin, -⟩ := (preflight_eq_ok script).mp hcheck
    obtain ⟨manager, hmanager⟩ := (payment_iff (S := S) script).mpr ⟨hoperator, hcoin⟩
    have hend := (registry_iff (S := S) script).mpr ⟨hverifiers, htrusted⟩
    have hsetup : Deploy.deployOcnRegistry (script.registryEnvironment P S) S.contracts =
        ((Deploy.deployOcnRegistry (script.registryEnvironment P S) S.contracts).1, true) :=
      Prod.ext rfl hend
    exact ⟨hignored, Option.isSome_iff_exists.mpr ⟨⟨_, manager, _⟩,
      (deployAll_eq_some script).mpr ⟨hasAccount_iff.mpr ⟨hkey, hsigns⟩, rfl, hmanager, hsetup⟩⟩⟩
  · obtain ⟨hignored, hdeployed⟩ := h
    obtain ⟨R, hR⟩ := Option.isSome_iff_exists.mp hdeployed
    obtain ⟨haccount, -, hmanager, hsetup⟩ := (deployAll_eq_some script).mp hR
    obtain ⟨hkey, hsigns⟩ := hasAccount_iff.mp haccount
    obtain ⟨hoperator, hcoin⟩ := (payment_iff script).mp ⟨_, hmanager⟩
    obtain ⟨hverifiers, htrusted⟩ := (registry_iff (S := S) script).mp (by rw [hsetup])
    exact ⟨⟨_, (preflight_eq_ok script).mpr ⟨hkey, hoperator, hverifiers, hignored, hcoin, rfl⟩⟩,
      hsigns, htrusted⟩
  · obtain ⟨-, htimelock, hmanager, hsetup⟩ := (deployAll_eq_some script).mp hR
    obtain ⟨stablecoin, operator, -, -, hstate⟩ := Deploy.deployOcnPaymentManager_eq_ok.mp hmanager
    obtain ⟨verifiers, hread, husable⟩ := Deploy.finished_iff.mp
      (show (Deploy.deployOcnRegistry _ _).2 = true by rw [hsetup])
    obtain ⟨M, M', hM, hM', hfinished⟩ := Deploy.deploy_finished (C := S.contracts) hread husable
    rw [hsetup] at hfinished
    obtain ⟨hsetup', -⟩ := Prod.mk.inj hfinished
    refine ⟨?_, ?_, ?_⟩
    · rw [htimelock]
      exact Deploy.setupGovernor_admin S.contracts
    · rw [hstate]
      exact Deploy.soleAdmin_transferred S.contracts stablecoin operator
    · rw [hsetup']
      exact ⟨hM, hM'⟩

end Scripts

end Release

end Ocn
