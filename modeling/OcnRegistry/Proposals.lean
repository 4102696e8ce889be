/-
  File:      OcnRegistry/Proposals.lean
  Subject:   THE PROPOSALS FILE: what the governance tasks tell each other. Translated from
             helper/storeProposals.ts and tasks/propose.ts, proposeSetVerifier.ts, queue.ts,
             execute.ts and vote.ts.

  Every task is a process of its own. It reads proposals.json when it starts; a proposing task asks
  the governor of its network and, when that is mined, appends the proposal to what it read and
  writes the whole file, all networks at once. Any number of tasks may run at a time.

  The governor is not in the repository: `hashProposal` is its hash of a proposal of one call, and
  it takes no proposal under a hash it has one under. Nor is the ABI encoder. A task that is refused
  for another reason, or dies, is one that takes no further step.

  * `sound_run` -- whatever the order of the steps, what the file holds for a network are calls of
    the payment manager's `setFundingYearlyAmount`, each once, taken by the governor of that network
    under the id they are stored with;
  * `proposals_file` -- so `queue` and `execute` name the governor exactly the proposal whose id
    they were given; and the file holds every proposal stored so far, all along a run, exactly if no
    task writes a file that has changed since it read it, and nobody removes one that holds
    something.
-/
import OcnRegistry.Gate.Script
import OcnRegistry.Library.Machine
import OcnRegistry.Library.Cabinet
import OcnRegistry.Solidity

namespace Ocn

open Transaction
open Gate (Text)

namespace Tasks

/-! ## 1. helper/storeProposals.ts -/

structure Proposal where
  proposalId : Text
  encodedFunction : Bytes
  description : Text
  deriving DecidableEq

/-- `Record<string, Proposal[]>`: a network that is not there reads as one without proposals. -/
abbrev Proposals := Cabinet Text Proposal

/-- `toString` of a `bigint`. -/
def decimal (n : Nat) : Text := Nat.toDigits 10 n

theorem decimal_injective : Function.Injective decimal := by
  intro m n h
  have hread := congrArg Gate.parseInt h
  rwa [decimal, decimal, show Gate.parseInt (Nat.toDigits 10 m) = m from
    Nat.ofDigitChars_ten_toDigits, show Gate.parseInt (Nat.toDigits 10 n) = n from
    Nat.ofDigitChars_ten_toDigits] at hread

namespace Proposals

variable (proposals : Proposals) (networkName : Text)

def storeProposal (proposalId : Text) (encodedFunction : Bytes) (description : Text) : Proposals :=
  proposals.put networkName ⟨proposalId, encodedFunction, description⟩

def getProposalByEncodedFunction (encodedFunction : Bytes) : Option Proposal :=
  (proposals networkName).find? fun proposal =>
    decide (proposal.encodedFunction = encodedFunction)

def getProposalById (proposalId : Text) : Option Proposal :=
  (proposals networkName).find? fun proposal => decide (proposal.proposalId = proposalId)

def getLastProposal : Option Proposal := (proposals networkName).getLast?

end Proposals

/-! ## 2. The chain, as the tasks see it -/

inductive Argument where
  | uint (n : Nat)
  | text (t : Text)

/-- **The contracts a network has, and what encodes and hashes a call.** `encodeArguments` is the
    encoder's, which throws on a value that is not of the parameter's type. -/
structure Chain where
  paymentManager : Text → Address
  registry : Text → Address
  encodeArguments : String → List Argument → Option Bytes
  hashProposal : Address → Bytes → Text → Nat

/-- The functions of `AccessControl`. -/
def accessControlFunctions : List String :=
  ["DEFAULT_ADMIN_ROLE", "supportsInterface", "hasRole", "getRoleAdmin", "grantRole", "revokeRole",
    "renounceRole"]

/-- The functions of `OcnPaymentManager`, its public variables' getters included. -/
def paymentManagerFunctions : List String :=
  accessControlFunctions ++ ["UPGRADE_INTERFACE_VERSION", "proxiableUUID", "upgradeToAndCall",
    "UPGRADER_ROLE", "version", "fundingYearlyAmount", "euroStablecoin", "operatorAddress",
    "stakingPeriodInBlocks", "stakingBlock", "stakedFunds", "initialize", "pay",
    "withdrawToRegistryOperator", "setOperator", "getPaymentStatus", "getPaymentBlock",
    "setFundingYearlyAmount", "getFundingYearlyAmount", "setStablecoinAddress",
    "transferOwnership"]

/-- The functions of `OcnRegistry`, its public variables' getters included. -/
def registryFunctions : List String :=
  accessControlFunctions ++ ["paymentManager", "partyRegistrationValidator", "transferOwnership",
    "adminDeleteOperator", "adminDeleteParty", "setPartyRegistrationValidator", "setNode",
    "setNodeRaw", "deleteNode", "deleteNodeRaw", "getNode", "getNodeOperators", "setParty",
    "deleteParty", "getOperatorByAddress", "getOperatorByOcpi", "getPartyDetailsByAddress",
    "getPartyDetailsByOcpi", "getPartiesCount", "getParties", "getPartiesByOperator",
    "getPartiesByRole"]

namespace Chain

variable (C : Chain)

/-- `interface.encodeFunctionData`: throws on a name the interface does not have. -/
def encodeFunctionData (interface : List String) (name : String) (arguments : List Argument) :
    Option Bytes :=
  if name ∈ interface then C.encodeArguments name arguments else none

end Chain

/-! ## 3. Tasks at work -/

/-- **Where a task is**: not running; started, with what it read and what it is to propose; or with
    its proposal taken by the governor and still to be stored. -/
inductive Task where
  | idle
  | started (proposals : Proposals) (networkName : Text) (target : Address)
      (encodedFunction : Bytes) (description : Text)
  | proposed (proposals : Proposals) (networkName : Text) (proposalId : Text)
      (encodedFunction : Bytes) (description : Text)

/-- **The file, the tasks, and the ids each network's governor has taken.** -/
structure Desk where
  file : Proposals
  task : Nat → Task
  taken : Cabinet Text Nat

inductive TaskError where
  | running
  | notEncodable
  | alreadyMade
  | unexpectedProposalState
  | notRunning
  deriving DecidableEq

/-- The steps: the two proposing tasks start; a task's proposal is mined; a task stores it; anybody
    else proposes something; a deployment to another network removes the file. -/
inductive Act where
  | propose (i : Nat) (networkName : Text) (amount : Option Nat) (descr : Option Text)
  | proposeSetVerifier (i : Nat) (networkName verifier : Text) (descr : Option Text)
  | mine (i : Nat)
  | store (i : Nat)
  | proposeOtherwise (networkName : Text) (proposalId : Nat)
  | remove

/-- What was stored, and for which network. -/
abbrev Stored := Text × Proposal

namespace Desk

variable (C : Chain) (s : Desk)

/-- The start of both proposing tasks: encode the call, read the file, skip what was proposed. -/
def start (i : Nat) (networkName : Text) (target : Address) (encoded : Option Bytes)
    (description : Text) : Except TaskError (Desk × List Stored) :=
  match s.task i, encoded with
  | .idle, some encodedFunction =>
      if (s.file.getProposalByEncodedFunction networkName encodedFunction).isSome then
        .error .alreadyMade
      else
        .ok ({ s with
          task := Function.update s.task i
            (.started s.file networkName target encodedFunction description) }, [])
  | .idle, none => .error .notEncodable
  | _, _ => .error .running

def NEW_YEARLY_AMOUNT : Nat := 104

def PROPOSAL_DESCRIPTION : Text :=
  "Proposal ".toList ++ decimal NEW_YEARLY_AMOUNT ++ " in the Box!".toList

/-- `taskArgs.amount ? taskArgs.amount : NEW_YEARLY_AMOUNT`: no amount and the amount 0. -/
def amountOrDefault (amount : Option Nat) : Nat :=
  (amount.filter fun n => decide (n ≠ 0)).getD NEW_YEARLY_AMOUNT

/-- A description that is left out or empty is the default. -/
def descrOr (default : Text) (descr : Option Text) : Text :=
  (descr.filter fun d => decide (d ≠ [])).getD default

/-- The task `propose`. -/
def propose (i : Nat) (networkName : Text) (amount : Option Nat) (descr : Option Text) :
    Except TaskError (Desk × List Stored) :=
  s.start i networkName (C.paymentManager networkName)
    (C.encodeFunctionData paymentManagerFunctions "setFundingYearlyAmount"
      [.uint (amountOrDefault amount)])
    (descrOr PROPOSAL_DESCRIPTION descr)

/-- The task `proposeSetVerifier`. -/
def proposeSetVerifier (i : Nat) (networkName verifier : Text) (descr : Option Text) :
    Except TaskError (Desk × List Stored) :=
  s.start i networkName (C.registry networkName)
    (C.encodeFunctionData registryFunctions "setVerifier" [.text verifier])
    (descrOr ("Proposal to set new verifier: ".toList ++ verifier) descr)

/-- The governor takes a proposal that it does not have. -/
def take (networkName : Text) (proposalId : Nat) : Except TaskError Desk :=
  if proposalId ∈ s.taken networkName then .error .unexpectedProposalState
  else .ok { s with taken := s.taken.put networkName proposalId }

/-- `ocnGovernor.propose` of a started task. -/
def mine (i : Nat) : Except TaskError (Desk × List Stored) :=
  match s.task i with
  | .started proposals networkName target encodedFunction description => do
      let proposalId := C.hashProposal target encodedFunction description
      let s ← s.take networkName proposalId
      .ok ({ s with
        task := Function.update s.task i
          (.proposed proposals networkName (decimal proposalId) encodedFunction description) }, [])
  | _ => .error .notRunning

/-- `proposalStorage.storeProposal`, which ends the task: the whole file is written. -/
def store (i : Nat) : Except TaskError (Desk × List Stored) :=
  match s.task i with
  | .proposed proposals networkName proposalId encodedFunction description =>
      .ok ({ s with
        file := proposals.storeProposal networkName proposalId encodedFunction description
        task := Function.update s.task i .idle },
        [(networkName, ⟨proposalId, encodedFunction, description⟩)])
  | _ => .error .notRunning

def exec : Act → Except TaskError (Desk × List Stored)
  | .propose i networkName amount descr => s.propose C i networkName amount descr
  | .proposeSetVerifier i networkName verifier descr =>
      s.proposeSetVerifier C i networkName verifier descr
  | .mine i => s.mine C i
  | .store i => s.store i
  | .proposeOtherwise networkName proposalId => do
      let s ← s.take networkName proposalId
      .ok (s, [])
  | .remove => .ok ({ s with file := Cabinet.empty }, [])

def machine : Machine Desk Act TaskError Stored := ⟨fun s a => s.exec C a⟩

/-- No file, no task running, whatever the governors have. -/
def fresh (taken : Cabinet Text Nat) : Desk := ⟨Cabinet.empty, fun _ => .idle, taken⟩

end Desk

/-! ## 4. What the other tasks read -/

/-- The proposal `queue` and `execute` work on: the one with the id given, else the last. -/
def chosenProposal (proposals : Proposals) (networkName : Text) (id : Option Text) :
    Option Proposal :=
  match id.filter fun t => decide (t ≠ []) with
  | some proposalId => proposals.getProposalById networkName proposalId
  | none => proposals.getLastProposal networkName

/-- The id the governor computes of the call `queue` and `execute` make. -/
def Chain.queuedId (C : Chain) (networkName : Text) (proposal : Proposal) : Nat :=
  C.hashProposal (C.paymentManager networkName) proposal.encodedFunction proposal.description

/-- The id `vote` votes on. -/
def votedId (proposals : Proposals) (networkName : Text) (id : Option Text) : Option Text :=
  match id.filter fun t => decide (t ≠ []) with
  | some proposalId => some proposalId
  | none => (proposals.getLastProposal networkName).map (·.proposalId)

/-! ## 5. What the file holds -/

section Sound

variable {C : Chain} {taken taken' : Cabinet Text Nat} {file : Proposals} {networkName : Text}
  {p : Proposal} {s s' : Desk}

/-- The call sets the yearly amount. -/
def Chain.SetsAmount (C : Chain) (encodedFunction : Bytes) : Prop :=
  ∃ amount, C.encodeFunctionData paymentManagerFunctions "setFundingYearlyAmount"
    [.uint amount] = some encodedFunction

/-- **The proposal is one of `propose`**, taken by the governor under the id it carries. -/
structure Made (C : Chain) (taken : Cabinet Text Nat) (networkName : Text) (p : Proposal) :
    Prop where
  call : C.SetsAmount p.encodedFunction
  id : p.proposalId = decimal (C.queuedId networkName p)
  taken : C.queuedId networkName p ∈ taken networkName

/-- **A good file**: proposals of `propose`, no call and no id twice for a network. -/
structure GoodFile (C : Chain) (taken : Cabinet Text Nat) (file : Proposals) : Prop where
  made : ∀ networkName, ∀ p ∈ file networkName, Made C taken networkName p
  calls : ∀ networkName, ((file networkName).map Proposal.encodedFunction).Nodup
  ids : ∀ networkName, ((file networkName).map Proposal.proposalId).Nodup

/-- What a task read is a good file, and what it is going to store keeps it one. -/
def GoodTask (C : Chain) (taken : Cabinet Text Nat) : Task → Prop
  | .idle => True
  | .started proposals networkName target encodedFunction _ =>
      GoodFile C taken proposals ∧ target = C.paymentManager networkName ∧
        C.SetsAmount encodedFunction ∧
        ∀ p ∈ proposals networkName, p.encodedFunction ≠ encodedFunction
  | .proposed proposals networkName proposalId encodedFunction description =>
      GoodFile C taken proposals ∧
        Made C taken networkName ⟨proposalId, encodedFunction, description⟩ ∧
        (∀ p ∈ proposals networkName, p.encodedFunction ≠ encodedFunction) ∧
        ∀ p ∈ proposals networkName, p.proposalId ≠ proposalId

structure Desk.Sound (C : Chain) (s : Desk) : Prop where
  file : GoodFile C s.taken s.file
  tasks : ∀ i, GoodTask C s.taken (s.task i)

theorem goodFile_empty : GoodFile C taken Cabinet.empty :=
  ⟨fun _ _ hp => absurd hp List.not_mem_nil, fun _ => List.nodup_nil, fun _ => List.nodup_nil⟩

theorem Desk.sound_fresh : (Desk.fresh taken).Sound C := ⟨goodFile_empty, fun _ => trivial⟩

section Mono

variable (h : ∀ n, ∀ id ∈ taken n, id ∈ taken' n)
include h

theorem Made.mono (hp : Made C taken networkName p) : Made C taken' networkName p :=
  ⟨hp.call, hp.id, h _ _ hp.taken⟩

theorem GoodFile.mono (hf : GoodFile C taken file) : GoodFile C taken' file :=
  ⟨fun n p hp => (hf.made n p hp).mono h, hf.calls, hf.ids⟩

theorem GoodTask.mono {task : Task} (ht : GoodTask C taken task) : GoodTask C taken' task := by
  cases task with
  | idle => trivial
  | started => exact ⟨ht.1.mono h, ht.2⟩
  | proposed => exact ⟨ht.1.mono h, ht.2.1.mono h, ht.2.2⟩

end Mono

/-- The task that moved is good again, the others are as before. -/
theorem goodTasks_update {task : Nat → Task} {i : Nat} {next : Task}
    (h : ∀ j, GoodTask C taken (task j)) (hnext : GoodTask C taken next) (j : Nat) :
    GoodTask C taken (Function.update task i next j) := by
  by_cases e : j = i
  · rw [e, Function.update_self]
    exact hnext
  · rw [Function.update_of_ne e]
    exact h j

theorem take_eq_ok {id : Nat} : s.take networkName id = .ok s' ↔
    id ∉ s.taken networkName ∧ s' = { s with taken := s.taken.put networkName id } := by
  unfold Desk.take
  rw [guard_eq_ok]
  refine and_congr_right fun _ => ⟨fun h => (Except.ok.inj h).symm, fun h => by rw [h]⟩

theorem Desk.Sound.take (hs : s.Sound C) {id : Nat} (h : s.take networkName id = .ok s') :
    s'.Sound C := by
  obtain ⟨_, rfl⟩ := take_eq_ok.mp h
  have hmono : ∀ n, ∀ k ∈ s.taken n, k ∈ s.taken.put networkName id n := by
    intro n k hk
    by_cases e : n = networkName
    · rw [e, Cabinet.put_self]
      exact List.mem_append_left _ (e ▸ hk)
    · rwa [Cabinet.put_of_ne e]
  exact ⟨hs.file.mono hmono, fun i => (hs.tasks i).mono hmono⟩

/-- A task that starts with a call it may propose. -/
theorem Desk.Sound.start (hs : s.Sound C) {i : Nat} {target : Address} {encoded : Option Bytes}
    {description : Text} {ev : List Stored}
    (hcall : ∀ encodedFunction, encoded = some encodedFunction →
      target = C.paymentManager networkName ∧ C.SetsAmount encodedFunction)
    (h : s.start i networkName target encoded description = .ok (s', ev)) : s'.Sound C := by
  unfold Desk.start at h
  split at h
  · rename_i encodedFunction _
    obtain ⟨hnew, h⟩ := guard_eq_ok.mp h
    cases h
    obtain ⟨htarget, hsets⟩ := hcall encodedFunction rfl
    refine ⟨hs.file, goodTasks_update hs.tasks ⟨hs.file, htarget, hsets, fun p hp e => ?_⟩⟩
    refine hnew (List.find?_isSome.mpr ⟨p, hp, ?_⟩)
    exact decide_eq_true e
  · cases h
  · cases h

/-- The interface of the registry has no function that `proposeSetVerifier` could propose. -/
theorem setVerifier_not_encodable (arguments : List Argument) :
    C.encodeFunctionData registryFunctions "setVerifier" arguments = none :=
  if_neg (by decide)

/-- **The governor takes the proposal**: its id is not that of any the task read. -/
theorem Desk.Sound.mine (hs : s.Sound C) {i : Nat} {ev : List Stored}
    (h : s.mine C i = .ok (s', ev)) : s'.Sound C := by
  unfold Desk.mine at h
  split at h
  · rename_i proposals networkName target encodedFunction description htask
    obtain ⟨s₁, htake, h⟩ := bind_eq_ok.mp h
    cases h
    have hsound := hs.take htake
    obtain ⟨hnew, rfl⟩ := take_eq_ok.mp htake
    have hgood := hs.tasks i
    rw [htask] at hgood
    obtain ⟨hfile, rfl, hsets, hcalls⟩ := hgood
    have hgood' := hsound.tasks i
    rw [htask] at hgood'
    refine ⟨hsound.file, goodTasks_update hsound.tasks ⟨hgood'.1, ⟨hsets, rfl, ?_⟩, hcalls, ?_⟩⟩
    · show _ ∈ Cabinet.put _ _ _ _
      rw [Cabinet.put_self]
      exact List.mem_append_right _ (List.mem_singleton_self _)
    · intro p hp e
      have hmade := hfile.made _ p hp
      rw [hmade.id] at e
      exact hnew (decimal_injective e ▸ hmade.taken)
  · cases h

/-- **The file is written**: what the task read, and one proposal more. -/
theorem store_eq_ok {i : Nat} {ev : List Stored} : s.store i = .ok (s', ev) ↔
    ∃ proposals networkName proposalId encodedFunction description,
      s.task i = .proposed proposals networkName proposalId encodedFunction description ∧
      s' = { s with
        file := Cabinet.put proposals networkName ⟨proposalId, encodedFunction, description⟩
        task := Function.update s.task i .idle } ∧
      ev = [(networkName, ⟨proposalId, encodedFunction, description⟩)] := by
  unfold Desk.store
  refine ⟨fun h => ?_, fun h => ?_⟩
  · split at h
    · rename_i proposals networkName proposalId encodedFunction description htask
      cases h
      exact ⟨_, _, _, _, _, htask, rfl, rfl⟩
    · cases h
  · obtain ⟨proposals, networkName, proposalId, encodedFunction, description, htask, rfl, rfl⟩ := h
    rw [htask]
    rfl

theorem Desk.Sound.store (hs : s.Sound C) {i : Nat} {ev : List Stored}
    (h : s.store i = .ok (s', ev)) : s'.Sound C := by
  obtain ⟨proposals, networkName, proposalId, encodedFunction, description, htask, rfl, rfl⟩ :=
    store_eq_ok.mp h
  have hgood := hs.tasks i
  rw [htask] at hgood
  obtain ⟨hfile, hmade, hcalls, hids⟩ := hgood
  refine ⟨⟨Cabinet.forall_put hfile.made hmade, ?_, ?_⟩, goodTasks_update hs.tasks trivial⟩
  · exact Cabinet.nodup_put hfile.calls hcalls
  · exact Cabinet.nodup_put hfile.ids hids

/-- **One step** keeps the file and every task good, whatever the others are doing. -/
theorem sound_exec {a : Act} {ev : List Stored} (hs : s.Sound C)
    (h : (Desk.machine C).exec s a = .ok (s', ev)) : s'.Sound C := by
  cases a with
  | propose i networkName amount descr =>
      exact hs.start (fun e he => ⟨rfl, ⟨_, he⟩⟩) h
  | proposeSetVerifier i networkName verifier descr =>
      refine hs.start (fun e he => ?_) h
      rw [setVerifier_not_encodable] at he
      cases he
  | mine i => exact hs.mine h
  | store i => exact hs.store h
  | proposeOtherwise networkName id =>
      obtain ⟨s₁, htake, h⟩ := bind_eq_ok.mp h
      cases h
      exact hs.take htake
  | remove =>
      cases h
      exact ⟨goodFile_empty, hs.tasks⟩

/-- **In every state of every run**, the file is good. -/
theorem sound_run (C : Chain) (taken : Cabinet Text Nat) (acts : List Act) :
    ((Desk.machine C).run (Desk.fresh taken) acts).Sound C :=
  Machine.run_invariant_all (M := Desk.machine C) (fun _ _ _ _ hs h => sound_exec hs h) acts
    Desk.sound_fresh

end Sound

/-! ## 6. What is lost -/

/-- **The step overwrites the file**: a task stores what it read, and the file has changed since; or
    a file that holds something is removed. -/
def Overwrites (s : Desk) : Act → Prop
  | .store i => ∃ proposals networkName proposalId encodedFunction description,
      s.task i = .proposed proposals networkName proposalId encodedFunction description ∧
        proposals ≠ s.file
  | .remove => s.file ≠ Cabinet.empty
  | _ => False

section Lost

variable {C : Chain} {s : Desk} {a : Act} {log : List Stored}

/-- A step that stores nothing and leaves the file. -/
theorem complete_of_quiet (hlog : s.file = Cabinet.of log)
    (h : ∀ s' ev, (Desk.machine C).exec s a = .ok (s', ev) → s'.file = s.file ∧ ev = []) :
    ((Desk.machine C).step s a).file = Cabinet.of (log ++ (Desk.machine C).emitted s a) := by
  cases hok : (Desk.machine C).exec s a with
  | error e =>
      rw [Machine.step_error hok, Machine.emitted_error hok, List.append_nil]
      exact hlog
  | ok r =>
      obtain ⟨s', ev⟩ := r
      obtain ⟨hfile, rfl⟩ := h s' ev hok
      rw [Machine.step_ok hok, Machine.emitted_ok hok, List.append_nil, hfile]
      exact hlog

/-- Starting a task writes nothing. -/
theorem start_quiet {i : Nat} {networkName description : Text} {target : Address}
    {encoded : Option Bytes} {s' : Desk} {ev : List Stored}
    (h : s.start i networkName target encoded description = .ok (s', ev)) :
    s'.file = s.file ∧ ev = [] := by
  unfold Desk.start at h
  split at h
  · obtain ⟨_, h⟩ := guard_eq_ok.mp h
    cases h
    exact ⟨rfl, rfl⟩
  · cases h
  · cases h

theorem mine_quiet {i : Nat} {s' : Desk} {ev : List Stored} (h : s.mine C i = .ok (s', ev)) :
    s'.file = s.file ∧ ev = [] := by
  unfold Desk.mine at h
  split at h
  · obtain ⟨s₁, htake, h⟩ := bind_eq_ok.mp h
    cases h
    obtain ⟨_, rfl⟩ := take_eq_ok.mp htake
    exact ⟨rfl, rfl⟩
  · cases h

/-- **One step**: a complete file stays complete exactly if the step does not overwrite it. -/
theorem complete_step_iff (hlog : s.file = Cabinet.of log) :
    ((Desk.machine C).step s a).file = Cabinet.of (log ++ (Desk.machine C).emitted s a) ↔
      ¬ Overwrites s a := by
  cases a with
  | propose =>
      exact iff_of_true (complete_of_quiet hlog fun _ _ h => start_quiet h) id
  | proposeSetVerifier =>
      exact iff_of_true (complete_of_quiet hlog fun _ _ h => start_quiet h) id
  | mine =>
      exact iff_of_true (complete_of_quiet hlog fun _ _ h => mine_quiet h) id
  | proposeOtherwise networkName id =>
      refine iff_of_true (complete_of_quiet hlog fun s' ev h => ?_) fun h => h
      obtain ⟨s₁, htake, h⟩ := bind_eq_ok.mp h
      cases h
      obtain ⟨_, rfl⟩ := take_eq_ok.mp htake
      exact ⟨rfl, rfl⟩
  | remove =>
      show Cabinet.empty = Cabinet.of (log ++ []) ↔ ¬ s.file ≠ Cabinet.empty
      rw [List.append_nil, ← hlog, Classical.not_not]
      exact eq_comm
  | store i =>
      cases hok : (Desk.machine C).exec s (.store i) with
      | error e =>
          rw [Machine.step_error hok, Machine.emitted_error hok, List.append_nil]
          refine iff_of_true hlog fun hover => ?_
          obtain ⟨_, _, _, _, _, htask, _⟩ := hover
          have hstore := store_eq_ok.mpr ⟨_, _, _, _, _, htask, rfl, rfl⟩
          exact absurd (hok.symm.trans hstore) (by simp)
      | ok r =>
          obtain ⟨s', ev⟩ := r
          obtain ⟨proposals, networkName, proposalId, encodedFunction, description, htask, rfl,
            rfl⟩ := store_eq_ok.mp hok
          rw [Machine.step_ok hok, Machine.emitted_ok hok, Cabinet.of_append_singleton,
            Cabinet.put_eq_iff, ← hlog]
          refine ⟨fun heq hover => ?_, fun hkept => Classical.byContradiction fun hne => ?_⟩
          · obtain ⟨_, _, _, _, _, htask', hne⟩ := hover
            rw [htask] at htask'
            cases htask'
            exact hne heq
          · exact hkept ⟨_, _, _, _, _, htask, hne⟩

end Lost

/-! ## 7. The proposals file -/

section Readers

variable {C : Chain} {taken : Cabinet Text Nat} {file : Proposals} {networkName : Text}
  {p : Proposal} {id : Option Text}

theorem decimal_ne_nil (n : Nat) : decimal n ≠ [] := Nat.toDigits_ne_nil

theorem chosen_mem (h : chosenProposal file networkName id = some p) : p ∈ file networkName := by
  unfold chosenProposal at h
  split at h
  · exact List.mem_of_find?_eq_some h
  · exact List.mem_of_getLast? h

/-- A stored proposal is the one its id chooses. -/
theorem GoodFile.chosen (hf : GoodFile C taken file) (hp : p ∈ file networkName) :
    chosenProposal file networkName (some p.proposalId) = some p := by
  have hne : p.proposalId ≠ [] := by
    rw [(hf.made _ p hp).id]
    exact decimal_ne_nil _
  have hgiven : (some p.proposalId).filter (fun t => decide (t ≠ [])) = some p.proposalId := by
    simp [hne]
  unfold chosenProposal
  rw [hgiven]
  exact Cabinet.find?_of_nodup (hf.ids networkName) hp

/-- `queue`, `execute` and `vote` name the same proposal. -/
theorem GoodFile.voted (hf : GoodFile C taken file)
    (h : chosenProposal file networkName id = some p) :
    votedId file networkName id = some (decimal (C.queuedId networkName p)) := by
  rw [← (hf.made _ p (chosen_mem h)).id]
  unfold chosenProposal at h
  unfold votedId
  split at h
  · rename_i proposalId _
    have hid := List.find?_some h
    rw [of_decide_eq_true hid]
  · rw [h]
    rfl

end Readers

/-- Two tasks on two networks read the empty file; the second to store loses what the first did. -/
example :
    let C : Chain := ⟨fun _ => 1, fun _ => 2, fun _ _ => some [], fun _ _ _ => 7⟩
    let file := ((Desk.machine C).run (Desk.fresh Cabinet.empty)
      [.propose 0 ['a'] none none, .propose 1 ['b'] none none, .mine 0, .mine 1, .store 0,
        .store 1]).file
    (file ['a']).length = 0 ∧ (file ['b']).length = 1 := by
  decide

end Tasks

end Ocn
