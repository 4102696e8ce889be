/-
  File:      OcnRegistry/Client/Sessions.lean
  Subject:   CHECK, THEN ACT: the client's node requests, on their way while others transact.

  `setNode` and `setNodeRaw` of the client ask the registry whether the wallet has a node, send a
  transaction, and wait until it is mined. Between the check and the mining anything can happen. A
  step here is a request (its check, and the transaction it sends), the mining of any transaction on
  its way, or a transaction of somebody who does not use the client.

  The contract lets an operator replace its domain in place, and the old domain is lost then. The
  client's check keeps this from happening, if a wallet waits for one request before the next.

  * `setNode_eq`, `setNodeRaw_eq` -- a request is its check and its transaction;
  * `deleteNodeRaw_eq` -- a raw deletion is a direct one of the signer's wallet, in every state;
  * `client_keeps_domains` -- under any interleaving of requests, no domain is lost and every check
    stays true until its request is mined, exactly as long as nobody else sets a node for an
    operator that has one or has asked the client for one.
-/
import OcnRegistry.Client.Signing
import OcnRegistry.Registry.Nodes
import Mathlib.Data.List.Nodup

namespace Ocn

open Transaction Packed

namespace Client

/-! ## 1. The requests -/

section Requests

variable {X : Crypto} (st : OcnRegistry)

/-- The transaction of `setNode`, once its check has passed. -/
def setNodeTx (parser : UrlParser) (answers : External) (wallet : Wallet X) (domain : String) :
    Except ClientError Tx :=
  match parser.origin domain with
  | none => .error .invalidUrl
  | some origin => do
      checkForExistingNode st wallet.account.address
      .ok ⟨wallet.account, .setNode (Utf8.encode origin), answers⟩

/-- The transaction of `setNodeRaw`, once its check has passed. -/
def setNodeRawTx (P : SolidityPacking) (answers : External) (spender : Account) (wallet : Wallet X)
    (domain : String) : Except ClientError Tx := do
  checkForExistingNode st wallet.account.address
  let (v, r, s) ← signSetNodeRaw P wallet domain
  .ok ⟨spender, .setNodeRaw wallet.account.address (Utf8.encode domain) v r s, answers⟩

/-- `sign.deleteNodeRaw`. -/
def signDeleteNodeRaw (wallet : Wallet X) : BitVec 8 × Bytes32 × Bytes32 :=
  wallet.signMessage (X.keccak256 (packAddress wallet.account.address))

def deleteNodeTx (answers : External) (wallet : Wallet X) : Tx :=
  ⟨wallet.account, .deleteNode, answers⟩

def deleteNodeRawTx (answers : External) (spender : Account) (wallet : Wallet X) : Tx :=
  let (v, r, s) := signDeleteNodeRaw wallet
  ⟨spender, .deleteNodeRaw wallet.account.address v r s, answers⟩

/-- `deleteNode`. -/
def deleteNode (answers : External) (wallet : Wallet X) :
    Except ClientError (Outcome OcnRegistry Event) :=
  ofContract (OcnRegistry.exec X st (deleteNodeTx answers wallet))

/-- `deleteNodeRaw`. -/
def deleteNodeRaw (answers : External) (spender : Account) (wallet : Wallet X) :
    Except ClientError (Outcome OcnRegistry Event) :=
  ofContract (OcnRegistry.exec X st (deleteNodeRawTx answers spender wallet))

variable {st} {parser : UrlParser} {P : SolidityPacking} {answers : External} {spender : Account}
  {wallet : Wallet X} {domain : String} {t : Tx}

/-- A call of `setNode` that nothing comes between. -/
theorem setNode_eq : setNode st parser answers wallet domain =
    setNodeTx st parser answers wallet domain >>=
      fun t => ofContract (OcnRegistry.exec X st t) := by
  unfold setNode setNodeTx
  cases parser.origin domain with
  | none => rfl
  | some origin => cases checkForExistingNode st wallet.account.address <;> rfl

/-- A call of `setNodeRaw` that nothing comes between. -/
theorem setNodeRaw_eq : setNodeRaw st P answers spender wallet domain =
    setNodeRawTx st P answers spender wallet domain >>=
      fun t => ofContract (OcnRegistry.exec X st t) := by
  unfold setNodeRaw setNodeRawTx
  cases checkForExistingNode st wallet.account.address with
  | error e => rfl
  | ok _ => cases signSetNodeRaw P wallet domain <;> rfl

/-- **A request that passes its check** comes from a wallet without a node, and its transaction sets
    no other address's node. -/
theorem setNodeTx_asks (h : setNodeTx st parser answers wallet domain = .ok t) :
    st.nodeOf wallet.account.address = [] ∧
      ∀ operator name, OcnRegistry.SetsNode X t operator name →
        operator = wallet.account.address := by
  unfold setNodeTx at h
  cases horigin : parser.origin domain with
  | none =>
      rw [horigin] at h
      cases h
  | some o =>
      rw [horigin] at h
      obtain ⟨_, hfree, h⟩ := bind_eq_ok.mp h
      cases h
      refine ⟨checkForExistingNode_eq_ok.mp hfree, fun operator name hask => ?_⟩
      cases hask with
      | direct => rfl
      | raw hcall => cases hcall

/-- The same of a raw request, if the text is packed as its bytes: then the contract recovers the
    wallet from its signature. -/
theorem setNodeRawTx_asks (hpack : P.pack domain = some (Utf8.encode domain))
    (h : setNodeRawTx st P answers spender wallet domain = .ok t) :
    st.nodeOf wallet.account.address = [] ∧
      ∀ operator name, OcnRegistry.SetsNode X t operator name →
        operator = wallet.account.address := by
  unfold setNodeRawTx signSetNodeRaw at h
  obtain ⟨_, hfree, h⟩ := bind_eq_ok.mp h
  rw [hpack] at h
  cases h
  refine ⟨checkForExistingNode_eq_ok.mp hfree, fun operator name hask => ?_⟩
  cases hask with
  | direct hcall => cases hcall
  | raw hcall =>
      cases hcall
      exact rawSigner_of_packed

/-- The signature of `deleteNodeRaw` speaks for the wallet. -/
theorem deleteNodeSigner_sign : OcnRegistry.deleteNodeSigner X wallet.account.address
    (signDeleteNodeRaw wallet).1 (signDeleteNodeRaw wallet).2.1 (signDeleteNodeRaw wallet).2.2 =
      wallet.account.address := wallet.recovers _

/-- **Both ways to delete a node do the same**, whoever sends the raw transaction. -/
theorem deleteNodeRaw_eq : deleteNodeRaw st answers spender wallet =
    deleteNode st answers wallet := by
  have hraw : OcnRegistry.exec X st (deleteNodeRawTx answers spender wallet) =
      st.deleteNodeInternal wallet.account.address :=
    (OcnRegistry.exec_deleteNodeRaw rfl).trans (congrArg _ deleteNodeSigner_sign)
  unfold deleteNodeRaw
  rw [hraw]
  rfl

end Requests

/-! ## 2. Requests on their way -/

/-- A transaction on its way, and the wallet that waits for it. -/
structure Sent where
  wallet : Address
  tx : Tx

structure Sessions where
  registry : OcnRegistry
  pending : List Sent

/-- Nothing is on its way to a new registry. -/
def Sessions.start (D : Deployment) : Sessions := ⟨D.start, []⟩

inductive Step (X : Crypto) where
  | setNode (wallet : Wallet X) (domain : String) (answers : External)
  | setNodeRaw (spender : Account) (wallet : Wallet X) (domain : String) (answers : External)
  | deleteNode (wallet : Wallet X) (answers : External)
  | deleteNodeRaw (spender : Account) (wallet : Wallet X) (answers : External)
  /-- One of the transactions on their way is mined, in any order. -/
  | mined (i : Nat)
  /-- A transaction that did not come through the client. -/
  | other (t : Tx)

namespace Sessions

/-- The transaction is on its way. -/
def send (s : Sessions) (wallet : Address) (t : Tx) : Outcome Sessions Event :=
  ({ s with pending := s.pending ++ [⟨wallet, t⟩] }, [])

/-- The transaction is mined, and succeeds or reverts. -/
def mine (X : Crypto) (s : Sessions) (t : Tx) : Outcome Sessions Event :=
  ({ s with registry := (OcnRegistry.machine X).step s.registry t },
    (OcnRegistry.machine X).emitted s.registry t)

def exec (X : Crypto) (parser : UrlParser) (P : SolidityPacking) (s : Sessions) :
    Step X → Except ClientError (Outcome Sessions Event)
  | .setNode wallet domain answers => do
      let t ← setNodeTx s.registry parser answers wallet domain
      .ok (s.send wallet.account.address t)
  | .setNodeRaw spender wallet domain answers => do
      let t ← setNodeRawTx s.registry P answers spender wallet domain
      .ok (s.send wallet.account.address t)
  | .deleteNode wallet answers => .ok (s.send wallet.account.address (deleteNodeTx answers wallet))
  | .deleteNodeRaw spender wallet answers =>
      .ok (s.send wallet.account.address (deleteNodeRawTx answers spender wallet))
  | .mined i =>
      match s.pending[i]? with
      | none => .ok (s, [])
      | some sent => .ok (mine X { s with pending := s.pending.eraseIdx i } sent.tx)
  | .other t => .ok (mine X s t)

def machine (X : Crypto) (parser : UrlParser) (P : SolidityPacking) :
    Machine Sessions (Step X) ClientError Event := ⟨exec X parser P⟩

/-- The wallet waits for a transaction. -/
def Waits (s : Sessions) (wallet : Address) : Prop := wallet ∈ s.pending.map (·.wallet)

instance (s : Sessions) (wallet : Address) : Decidable (s.Waits wallet) :=
  inferInstanceAs (Decidable (wallet ∈ s.pending.map (·.wallet)))

/-- **One at a time**: a wallet makes a request when it waits for none, as a caller does that awaits
    each call; and what it asks to sign is packed as its bytes. -/
def OneAtATime {X : Crypto} (P : SolidityPacking) (s : Sessions) : Step X → Prop
  | .setNode wallet _ _ => ¬ s.Waits wallet.account.address
  | .setNodeRaw _ wallet domain _ =>
      ¬ s.Waits wallet.account.address ∧ P.pack domain = some (Utf8.encode domain)
  | .deleteNode wallet _ => ¬ s.Waits wallet.account.address
  | .deleteNodeRaw _ wallet _ => ¬ s.Waits wallet.account.address
  | .mined _ => True
  | .other _ => True

instance {X : Crypto} (P : SolidityPacking) (s : Sessions) :
    (step : Step X) → Decidable (s.OneAtATime P step)
  | .setNode wallet _ _ | .deleteNode wallet _ | .deleteNodeRaw _ wallet _ =>
      inferInstanceAs (Decidable (¬ s.Waits wallet.account.address))
  | .setNodeRaw _ wallet domain _ => inferInstanceAs
      (Decidable (¬ s.Waits wallet.account.address ∧ P.pack domain = some (Utf8.encode domain)))
  | .mined _ | .other _ => isTrue trivial

/-- **Every check is still true**: an operator for whom a node is to be set has none. -/
def ChecksHold (X : Crypto) (s : Sessions) : Prop :=
  ∀ sent ∈ s.pending, ∀ operator domain, OcnRegistry.SetsNode X sent.tx operator domain →
    s.registry.nodeOf operator = []

/-- Somebody who does not use the client sets a free domain for an operator that has a node, or for
    whom one is on its way. -/
def Intrudes {X : Crypto} (s : Sessions) : Step X → Prop
  | .other t => ∃ operator domain, OcnRegistry.SetsNode X t operator domain ∧ domain ≠ [] ∧
      s.registry.uniqueDomains domain = false ∧
      (s.registry.nodeOf operator ≠ [] ∨
        ∃ sent ∈ s.pending, ∃ domain', OcnRegistry.SetsNode X sent.tx operator domain')
  | _ => False

/-! ## 3. What a step does -/

section Steps

variable {X : Crypto} {parser : UrlParser} {P : SolidityPacking} {s : Sessions} {step : Step X}
  {t : Tx}

/-- **The invariant**: the book of domains is sound and complete, every wallet waits for one
    transaction at most, which sets no other node, and every check is still true. -/
structure InOrder (X : Crypto) (s : Sessions) : Prop where
  book : s.registry.domainBook.Sound []
  complete : s.registry.NoDomainLost
  apart : (s.pending.map (·.wallet)).Nodup
  own : ∀ sent ∈ s.pending, ∀ operator domain, OcnRegistry.SetsNode X sent.tx operator domain →
    operator = sent.wallet
  checks : s.ChecksHold X

theorem inOrder_start (D : Deployment) : InOrder X (start D) where
  book := OcnRegistry.domainBook_sound_construct D
  complete := fun _ h => by cases h
  apart := List.nodup_nil
  own := fun _ h => absurd h List.not_mem_nil
  checks := fun _ h => absurd h List.not_mem_nil

/-- **A request** leaves everything in order, if its wallet waits for nothing, its transaction sets
    no other node and its check passed. -/
theorem InOrder.send (h : InOrder X s) {wallet : Address} (hfree : ¬ s.Waits wallet)
    (hown : ∀ operator domain, OcnRegistry.SetsNode X t operator domain →
      operator = wallet ∧ s.registry.nodeOf wallet = []) : InOrder X (s.send wallet t).1 := by
  have hmem : ∀ sent ∈ (s.send wallet t).1.pending, sent ∈ s.pending ∨ sent = ⟨wallet, t⟩ :=
    fun sent hsent => (List.mem_append.mp hsent).imp_right List.mem_singleton.mp
  refine ⟨h.book, h.complete, ?_, fun sent hsent operator domain hask => ?_,
    fun sent hsent operator domain hask => ?_⟩
  · unfold Sessions.send
    dsimp only
    rw [List.map_append]
    refine List.nodup_append'.mpr ⟨h.apart, List.nodup_singleton _, fun a ha hw => hfree ?_⟩
    have e : a = wallet := List.mem_singleton.mp hw
    exact e ▸ ha
  · rcases hmem sent hsent with hold | rfl
    · exact h.own sent hold operator domain hask
    · exact (hown operator domain hask).1
  · rcases hmem sent hsent with hold | rfl
    · exact h.checks sent hold operator domain hask
    · obtain ⟨e, hnode⟩ := hown operator domain hask
      rw [e]
      exact hnode

/-- **A transaction that is mined** leaves everything in order, if it sets a node only for an
    operator that has none and for whom none is on its way. -/
theorem InOrder.mine (h : InOrder X s)
    (hquiet : ∀ operator domain, OcnRegistry.SetsNode X t operator domain → domain ≠ [] →
      s.registry.uniqueDomains domain = false → s.registry.nodeOf operator = [] ∧
        ∀ sent ∈ s.pending, ∀ domain', ¬ OcnRegistry.SetsNode X sent.tx operator domain') :
    InOrder X (mine X s t).1 where
  book := Machine.step_preserves (M := OcnRegistry.machine X)
    (I := fun st => st.domainBook.Sound []) h.book
    fun _ _ hok => OcnRegistry.domainBook_sound_step h.book hok
  complete := by
    refine (OcnRegistry.noDomainLost_step_iff h.book h.complete).mpr fun hreplaces => ?_
    obtain ⟨operator, domain, hask, hd, hu, hnode⟩ := hreplaces
    exact hnode (hquiet operator domain hask hd hu).1
  apart := h.apart
  own := h.own
  checks := by
    intro sent hsent operator domain hask
    have hfree := h.checks sent hsent operator domain hask
    rcases OcnRegistry.nodeOf_step X s.registry t operator with e | ⟨domain', hask', hd, hu, _⟩ |
      ⟨_, e⟩
    · exact e.trans hfree
    · exact absurd hask ((hquiet operator domain' hask' hd hu).2 sent hsent domain)
    · exact e

/-- A wallet that has got its answer waits for nothing. -/
theorem not_waits_of_mined {i : Nat} {sent : Sent} (hapart : (s.pending.map (·.wallet)).Nodup)
    (hsent : s.pending[i]? = some sent) :
    sent.wallet ∉ (s.pending.eraseIdx i).map (·.wallet) := by
  intro hmem
  obtain ⟨other, hother, e⟩ := List.mem_map.mp hmem
  obtain ⟨j, hj, hget⟩ := List.mem_eraseIdx_iff_getElem?.mp hother
  have hwallet : (s.pending.map (·.wallet))[j]? = (s.pending.map (·.wallet))[i]? := by
    rw [List.getElem?_map, List.getElem?_map, hget, hsent]
    exact congrArg some e
  have hj' : j < (s.pending.map (·.wallet)).length := by
    rw [List.length_map]
    exact (List.getElem?_eq_some_iff.mp hget).1
  exact hj ((List.getElem?_inj hj' hapart).mp hwallet)

/-- **One step.** -/
theorem inOrder_step (hone : s.OneAtATime P step) (h : InOrder X s) (hquiet : ¬ s.Intrudes step) :
    InOrder X ((machine X parser P).step s step) := by
  refine Machine.step_preserves (M := machine X parser P) h fun s' ev hok => ?_
  cases step with
  | setNode wallet domain answers =>
      obtain ⟨t, ht, hok⟩ := bind_eq_ok.mp hok
      cases hok
      obtain ⟨hfree, hown⟩ := setNodeTx_asks ht
      exact h.send hone fun operator name hask => ⟨hown operator name hask, hfree⟩
  | setNodeRaw spender wallet domain answers =>
      obtain ⟨t, ht, hok⟩ := bind_eq_ok.mp hok
      cases hok
      obtain ⟨hfree, hown⟩ := setNodeRawTx_asks hone.2 ht
      exact h.send hone.1 fun operator name hask => ⟨hown operator name hask, hfree⟩
  | deleteNode wallet answers =>
      cases hok
      refine h.send hone fun operator name hask => ?_
      cases hask with
      | direct hcall | raw hcall => cases hcall
  | deleteNodeRaw spender wallet answers =>
      cases hok
      refine h.send hone fun operator name hask => ?_
      cases hask with
      | direct hcall | raw hcall => cases hcall
  | mined i =>
      have hexec : (match s.pending[i]? with
        | none => Except.ok (s, [])
        | some sent => .ok (Sessions.mine X { s with pending := s.pending.eraseIdx i } sent.tx)) =
          (.ok (s', ev) : Except ClientError (Outcome Sessions Event)) := hok
      cases hsent : s.pending[i]? with
      | none =>
          rw [hsent] at hexec
          cases hexec
          exact h
      | some sent =>
          rw [hsent] at hexec
          cases hexec
          have hmem := List.mem_of_getElem? hsent
          have hrest : ∀ other ∈ s.pending.eraseIdx i, other ∈ s.pending :=
            fun other hother => (List.eraseIdx_sublist _ _).subset hother
          have hafter : InOrder X { s with pending := s.pending.eraseIdx i } :=
            ⟨h.book, h.complete, h.apart.sublist ((List.eraseIdx_sublist _ _).map _),
              fun other hother => h.own other (hrest other hother),
              fun other hother => h.checks other (hrest other hother)⟩
          refine hafter.mine fun operator domain hask _ _ =>
            ⟨h.checks sent hmem operator domain hask, fun other hother domain' hask' => ?_⟩
          -- both would be for one wallet, which waits for one transaction only
          refine not_waits_of_mined h.apart hsent ?_
          rw [← h.own sent hmem operator domain hask,
            h.own other (hrest other hother) operator domain' hask']
          exact List.mem_map_of_mem hother
  | other t =>
      cases hok
      refine h.mine fun operator domain hask hd hu => ⟨?_, fun sent hsent domain' hask' => ?_⟩
      · exact Classical.byContradiction fun hnode =>
          hquiet ⟨operator, domain, hask, hd, hu, .inl hnode⟩
      · exact hquiet ⟨operator, domain, hask, hd, hu, .inr ⟨sent, hsent, domain', hask'⟩⟩

/-- **An intrusion** loses a domain or breaks a check. -/
theorem not_intrudes (h : InOrder X s)
    (hafter : ((machine X parser P).step s step).registry.NoDomainLost ∧
      ((machine X parser P).step s step).ChecksHold X) : ¬ s.Intrudes step := by
  intro hintrudes
  cases step with
  | setNode | setNodeRaw | deleteNode | deleteNodeRaw | mined => exact hintrudes
  | other t =>
      obtain ⟨operator, domain, hask, hd, hu, hcase⟩ := hintrudes
      have hstep : (machine X parser P).step s (.other t) = (Sessions.mine X s t).1 := rfl
      rw [hstep] at hafter
      rcases hcase with hnode | ⟨sent, hsent, domain', hask'⟩
      · exact (OcnRegistry.noDomainLost_step_iff h.book h.complete).mp hafter.1
          ⟨operator, domain, hask, hd, hu, hnode⟩
      · have hset := hafter.2 sent hsent operator domain' hask'
        unfold Sessions.mine at hset
        dsimp only at hset
        rw [OcnRegistry.step_setsNode hask hd hu, OcnRegistry.storeNode_nodeOf,
          Function.update_self] at hset
        exact hd hset

end Steps

end Sessions

/-! ## 4. Runs -/

/-- **The client keeps domains**: in every run in which each wallet waits for its request before it
    makes the next, whatever the order in which transactions are mined, the states all along have
    every marked domain held by an operator and every check of a waiting request still true, exactly
    when nobody else ever sets a free domain for an operator that has a node or for whom one is on
    its way. -/
theorem client_keeps_domains (X : Crypto) (parser : UrlParser) (P : SolidityPacking)
    (D : Deployment) (steps : List (Step X))
    (hone : (Sessions.machine X parser P).Along (fun s step => s.OneAtATime P step)
      (Sessions.start D) steps) :
    (Sessions.machine X parser P).Throughout
        (fun s => s.registry.NoDomainLost ∧ s.ChecksHold X) (Sessions.start D) steps ↔
      (Sessions.machine X parser P).Along (fun s step => ¬ s.Intrudes step) (Sessions.start D)
        steps :=
  Machine.throughout_iff_along_given (M := Sessions.machine X parser P)
    (K := Sessions.InOrder X) (fun _ h => ⟨h.complete, h.checks⟩)
    (fun _ _ _ h hafter => Sessions.not_intrudes h hafter)
    (fun _ _ hone h hquiet => Sessions.inOrder_step hone h hquiet) hone
    (Sessions.inOrder_start D)

end Client

namespace Sample

/-- The operator lists its node and deletes it; a transaction of a stranger comes in between. -/
def oneAtATime : List (Client.Step operatorCrypto) :=
  [.setNode operatorWallet "https://node.ocn.org" external, .other (tx stranger .deleteNode),
    .mined 0, .deleteNodeRaw stranger operatorWallet external, .mined 0]

/-- The operator does not wait for its first request. -/
def twoAtOnce : List (Client.Step operatorCrypto) :=
  [.setNode operatorWallet "https://node.ocn.org" external,
    .setNodeRaw stranger operatorWallet "https://node.ocn.org/" external, .mined 0, .mined 0]

end Sample

namespace Client

theorem client_keeps_domains_sample :
    (Sessions.machine Sample.operatorCrypto Sample.urlParser Sample.packing).Throughout
      (fun s => s.registry.NoDomainLost ∧ s.ChecksHold Sample.operatorCrypto)
      (Sessions.start Sample.deployment) Sample.oneAtATime := by
  refine (client_keeps_domains _ _ _ _ _ ?_).mpr ⟨not_false, ?_, not_false, not_false, not_false,
    trivial⟩
  · have hfirst : (Sessions.start Sample.deployment).OneAtATime Sample.packing
        (.setNode Sample.operatorWallet "https://node.ocn.org" Sample.external) := by decide
    refine ⟨hfirst, trivial, trivial, ?_, trivial, trivial⟩
    show Sessions.OneAtATime Sample.packing _ _
    decide +kernel
  · intro hintrudes
    obtain ⟨operator, domain, hask, _⟩ := hintrudes
    cases hask with
    | direct hcall | raw hcall => cases hcall

/-- Both requests pass their checks, and the first domain is lost. -/
example :
    let M := Sessions.machine Sample.operatorCrypto Sample.urlParser Sample.packing
    let s := M.run (Sessions.start Sample.deployment) Sample.twoAtOnce
    s.registry.nodeOf Sample.operator.address = utf8 "https://node.ocn.org/" ∧
      s.registry.uniqueDomains (utf8 "https://node.ocn.org") = true := by
  decide +kernel

end Client

end Ocn
