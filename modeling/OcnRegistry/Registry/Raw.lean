/-
  File:      OcnRegistry/Registry/Raw.lean
  Subject:   RAW NODE CALLS: whom a signature speaks for, and how often.

  `setNodeRaw` and `deleteNodeRaw` hash the `operator` they are given and then act on whoever the
  signature recovers to; `operator` is never compared with the recovered address.

  * `node_authorized` -- still, if signatures are unforgeable and hashes do not collide, a wallet's
    node only changes by its own calls, an admin's deletion, or a raw call with a signature the
    wallet made for exactly that: the two packed messages are read back uniquely;
  * `malformed_signature_lists_zero`, `raw_acts_for_operator_iff` -- the recovered address need not
    be the named one: exactly when, by what accounts have signed, a raw call acts for the operator
    it names, and when no node is listed for the zero address;
  * `raw_signature_replayed`, `raw_replay_iff` -- nothing marks a signature as used: exactly when
    the same raw call succeeds again, and what must have happened in between.
-/
import OcnRegistry.Registry.Nodes

namespace Ocn

open Transaction Packed

namespace OcnRegistry

variable {X : Crypto} {st st' : OcnRegistry} {t : Tx} {ev : List Event}

/-! ## 1. When a raw call succeeds -/

theorem exec_setNodeRaw {operator : Address} {domain : Bytes} {v : BitVec 8} {r s : Bytes32}
    (h : t.call = .setNodeRaw operator domain v r s) :
    exec X st t = st.setNodeInternal (setNodeSigner X operator domain v r s) domain := by
  unfold exec
  rw [h]
  rfl

theorem exec_deleteNodeRaw {operator : Address} {v : BitVec 8} {r s : Bytes32}
    (h : t.call = .deleteNodeRaw operator v r s) :
    exec X st t = st.deleteNodeInternal (deleteNodeSigner X operator v r s) := by
  unfold exec
  rw [h]
  rfl

/-- A `setNodeRaw` call succeeds whenever its domain is free, whatever its signature. -/
theorem accepts_setNodeRaw {operator : Address} {domain : Bytes} {v : BitVec 8} {r s : Bytes32}
    (h : t.call = .setNodeRaw operator domain v r s) :
    (machine X).Accepts st t ↔ domain ≠ [] ∧ st.uniqueDomains domain = false := by
  refine ⟨fun hacc => ?_, fun hfree => ?_⟩
  · obtain ⟨⟨st', ev⟩, hok⟩ := hacc
    have hset := (exec_setNodeRaw h).symm.trans hok
    obtain ⟨hd, hu, _⟩ := setNodeInternal_eq_ok.mp hset
    exact ⟨hd, hu⟩
  · exact accepts_of_change (.nodeSet _ domain (.raw h) hfree.1 hfree.2)

/-- A `deleteNodeRaw` call succeeds whenever the recovered address has a node. -/
theorem accepts_deleteNodeRaw {operator : Address} {v : BitVec 8} {r s : Bytes32}
    (h : t.call = .deleteNodeRaw operator v r s) :
    (machine X).Accepts st t ↔ st.nodeOf (deleteNodeSigner X operator v r s) ≠ [] := by
  refine ⟨fun hacc => ?_, fun hn => ?_⟩
  · obtain ⟨⟨st', ev⟩, hok⟩ := hacc
    have hdel := (exec_deleteNodeRaw h).symm.trans hok
    exact (deleteNodeInternal_eq_ok.mp hdel).1
  · exact accepts_of_change (.nodeDeleted _ (.raw h) hn)

/-! ## 2. The two messages -/

/-- The outer hash adds a constant prefix, so it loses nothing the inner one has. -/
theorem keccak_twice_injective (hk : Function.Injective X.keccak256) {m m' : Bytes}
    (h : X.keccak256 (signedMessagePrefix ++ X.digestBytes (X.keccak256 m)) =
      X.keccak256 (signedMessagePrefix ++ X.digestBytes (X.keccak256 m'))) : m = m' :=
  hk (X.digestBytes_injective (List.append_cancel_left (hk h)))

/-- A listing message is read back uniquely. -/
theorem setNodeDigest_injective (hk : Function.Injective X.keccak256) {a b : Address}
    {d e : Bytes} (h : setNodeDigest X a d = setNodeDigest X b e) : a = b ∧ d = e :=
  word_append_injective (n := 20) (keccak_twice_injective hk h)

/-- **A listing message for a non-empty domain is never a deletion message.** -/
theorem setNodeDigest_eq_delete (hk : Function.Injective X.keccak256) {a b : Address} {d : Bytes}
    (h : setNodeDigest X a d = deleteNodeDigest X b) : a = b ∧ d = [] :=
  word_append_eq_word (n := 20) (keccak_twice_injective hk h)

theorem deleteNodeDigest_injective (hk : Function.Injective X.keccak256) {a b : Address}
    (h : deleteNodeDigest X a = deleteNodeDigest X b) : a = b :=
  wordBytes_injective 20 (keccak_twice_injective hk h)

/-! ## 3. Authorization -/

/-- **What a wallet has signed**: listings of its own address under some non-empty domains, and
    possibly the deletion of its node. -/
structure Wallet where
  lists : Bytes → Prop
  deletes : Prop
  nonempty : ∀ domain, lists domain → domain ≠ []

/-- The digests of those messages, for the wallet with address `op`. -/
def Wallet.Signed (W : Wallet) (X : Crypto) (op : Address) (digest : X.Digest) : Prop :=
  (∃ domain, W.lists domain ∧ digest = setNodeDigest X op domain) ∨
    (W.deletes ∧ digest = deleteNodeDigest X op)

/-- A signature recovers to the wallet only on a digest it signed. -/
def Wallet.Unforgeable (W : Wallet) (X : Crypto) (op : Address) : Prop :=
  ∀ digest v r s, X.ecrecover digest v r s = op → W.Signed X op digest

/-- The call lists `op` under `domain` with its authority: its own call, or a signature it made for
    exactly this listing. -/
def AuthorizedSet (X : Crypto) (W : Wallet) (op : Address) (t : Tx) (domain : Bytes) : Prop :=
  (t.call = .setNode domain ∧ t.sender.address = op) ∨
    ∃ v r s, t.call = .setNodeRaw op domain v r s ∧ W.lists domain ∧
      X.ecrecover (setNodeDigest X op domain) v r s = op

/-- The call deletes `op`'s node with its authority, or with an admin's. -/
def AuthorizedDelete (X : Crypto) (W : Wallet) (op : Address) (st : OcnRegistry) (t : Tx) : Prop :=
  (t.call = .deleteNode ∧ t.sender.address = op) ∨
    (t.call = .adminDeleteOperator op ∧ st.members DEFAULT_ADMIN_ROLE t.sender.address = true) ∨
    ∃ v r s, t.call = .deleteNodeRaw op v r s ∧ W.deletes ∧
      X.ecrecover (deleteNodeDigest X op) v r s = op

section Authorization

variable {W : Wallet} {op : Address}

/-- A listing signature recovered to the wallet names the wallet and a domain it signed. -/
theorem signer_of_set (hk : Function.Injective X.keccak256) (hW : W.Unforgeable X op)
    {operator : Address} {domain : Bytes} {v : BitVec 8} {r s : Bytes32} (hd : domain ≠ [])
    (h : setNodeSigner X operator domain v r s = op) : operator = op ∧ W.lists domain := by
  rcases hW _ v r s h with hl | hdel
  · obtain ⟨d, hd', e⟩ := hl
    obtain ⟨rfl, rfl⟩ := setNodeDigest_injective hk e
    exact ⟨rfl, hd'⟩
  · exact absurd (setNodeDigest_eq_delete hk hdel.2).2 hd

/-- A deletion signature recovered to the wallet names the wallet, which signed a deletion. -/
theorem signer_of_delete (hk : Function.Injective X.keccak256) (hW : W.Unforgeable X op)
    {operator : Address} {v : BitVec 8} {r s : Bytes32}
    (h : deleteNodeSigner X operator v r s = op) : operator = op ∧ W.deletes := by
  rcases hW _ v r s h with hl | hdel
  · obtain ⟨d, hd, e⟩ := hl
    -- a listing the wallet signed has a domain, a deletion message has none
    exact absurd (setNodeDigest_eq_delete hk e.symm).2 (W.nonempty d hd)
  · exact ⟨deleteNodeDigest_injective hk hdel.2, hdel.1⟩

theorem authorizedSet_of_setsNode (hk : Function.Injective X.keccak256) (hW : W.Unforgeable X op)
    {a : Address} {domain : Bytes} (hd : domain ≠ []) (h : SetsNode X t a domain) (e : a = op) :
    AuthorizedSet X W op t domain := by
  cases h with
  | direct hcall => exact Or.inl ⟨hcall, e⟩
  | raw hcall =>
      obtain ⟨rfl, hl⟩ := signer_of_set hk hW hd e
      exact Or.inr ⟨_, _, _, hcall, hl, e⟩

theorem authorizedDelete_of_deletesNode (hk : Function.Injective X.keccak256)
    (hW : W.Unforgeable X op) {a : Address} (h : DeletesNode X st t a) (e : a = op) :
    AuthorizedDelete X W op st t := by
  cases h with
  | direct hcall => exact Or.inl ⟨hcall, e⟩
  | raw hcall =>
      obtain ⟨rfl, hdel⟩ := signer_of_delete hk hW e
      exact Or.inr (Or.inr ⟨_, _, _, hcall, hdel, e⟩)
  | admin hcall hadmin => exact Or.inr (Or.inl ⟨e ▸ hcall, hadmin⟩)

/-- A step after which an address has another domain than before set it for that address. -/
theorem setsNode_of_nodeOf {a : Address} {domain : Bytes} (hd : domain ≠ [])
    (h0 : st.nodeOf a ≠ domain) (h1 : ((machine X).step st t).nodeOf a = domain) :
    SetsNode X t a domain := by
  rcases nodeOf_step X st t a with e | ⟨d, hask, _, _, e⟩ | ⟨_, e⟩
  · exact absurd (e.symm.trans h1) h0
  · have ed : d = domain := e.symm.trans h1
    exact ed ▸ hask
  · exact absurd (h1.symm.trans e) hd

/-- A step after which an address has lost its node deleted it for that address. -/
theorem deletesNode_of_nodeOf {a : Address} (h0 : st.nodeOf a ≠ [])
    (h1 : ((machine X).step st t).nodeOf a = []) : DeletesNode X st t a := by
  rcases nodeOf_step X st t a with e | ⟨d, _, hd, _, e⟩ | ⟨hask, _⟩
  · exact absurd (e.symm.trans h1) h0
  · exact absurd (e.symm.trans h1) hd
  · exact hask

/-- **Node authorization**: in every run, at every step, the wallet's node becomes `domain` only by
    its own call or a signature it made for exactly this listing, and empty only by its own call,
    an admin's, or a signature it made for the deletion; a raw call accepted with a signature that
    recovers to the wallet names the wallet and something it signed; and whatever domain the
    wallet's node has, an accepted call of the run with that authority gave it. -/
theorem node_authorized (X : Crypto) (hk : Function.Injective X.keccak256) (W : Wallet)
    (op : Address) (hW : W.Unforgeable X op) (D : Deployment) (pre : List Tx)
    (t : Tx) :
    (∀ domain, domain ≠ [] → (D.run X pre).nodeOf op ≠ domain →
      (D.run X (pre ++ [t])).nodeOf op = domain → AuthorizedSet X W op t domain) ∧
    ((D.run X pre).nodeOf op ≠ [] → (D.run X (pre ++ [t])).nodeOf op = [] →
      AuthorizedDelete X W op (D.run X pre) t) ∧
    (∀ operator domain v r s, t.call = .setNodeRaw operator domain v r s →
      (machine X).Accepts (D.run X pre) t → setNodeSigner X operator domain v r s = op →
      operator = op ∧ W.lists domain) ∧
    (∀ operator v r s, t.call = .deleteNodeRaw operator v r s →
      (machine X).Accepts (D.run X pre) t → deleteNodeSigner X operator v r s = op →
      operator = op ∧ W.deletes) ∧
    (∀ domain, domain ≠ [] → (D.run X pre).nodeOf op = domain →
      ∃ a u b, pre = a ++ u :: b ∧ (machine X).Accepts (D.run X a) u ∧
        AuthorizedSet X W op u domain) := by
  have hstep : D.run X (pre ++ [t]) = (machine X).step (D.run X pre) t :=
    Machine.run_append (M := machine X) D.start pre [t]
  refine ⟨fun domain hd h0 h1 => ?_, fun h0 h1 => ?_, fun operator domain v r s hcall hacc hs => ?_,
    fun operator v r s hcall hacc hs => signer_of_delete hk hW hs, fun domain hd h1 => ?_⟩
  · rw [hstep] at h1
    exact authorizedSet_of_setsNode hk hW hd (setsNode_of_nodeOf hd h0 h1) rfl
  · rw [hstep] at h1
    exact authorizedDelete_of_deletesNode hk hW (deletesNode_of_nodeOf h0 h1) rfl
  · exact signer_of_set hk hW ((accepts_setNodeRaw hcall).mp hacc).1 hs
  · have h0 : ¬ D.start.nodeOf op = domain := fun e => hd e.symm
    obtain ⟨a, u, b, e, ha, hu⟩ := Machine.exists_flip (M := machine X)
      (Q := fun st => st.nodeOf op = domain) h0 h1
    refine ⟨a, u, b, e, ?_, authorizedSet_of_setsNode hk hW hd (setsNode_of_nodeOf hd ha hu) rfl⟩
    by_contra hacc
    have hsame := Machine.step_eq_of_not_accepts (M := machine X) hacc
    have hu' : ((machine X).step (D.run X a) u).nodeOf op = domain := hu
    rw [hsame] at hu'
    exact ha hu'

/-- The operator's node is listed by a stranger who sends the signature the operator made. -/
theorem node_authorized_raw :
    let X := Sample.crypto Sample.signed
    let t := Sample.tx Sample.stranger (.setNodeRaw Sample.operator.address Sample.domain 27 0 0)
    let W : Wallet := ⟨fun d => d = Sample.domain, True, fun d hd => by rw [hd]; decide +kernel⟩
    (Sample.deployment.run X [t]).nodeOf Sample.operator.address = Sample.domain ∧
      AuthorizedSet X W Sample.operator.address t Sample.domain := by
  intro X t W
  have hW : W.Unforgeable X Sample.operator.address := by
    intro digest v r s h
    rcases List.mem_cons.mp (Sample.mem_signed (by decide) h) with e | hmem
    · exact Or.inl ⟨Sample.domain, rfl, congrArg Prod.fst e⟩
    · exact Or.inr ⟨trivial, congrArg Prod.fst (List.mem_singleton.mp hmem)⟩
  have hrun : (Sample.deployment.run X [t]).nodeOf Sample.operator.address = Sample.domain := by
    decide +kernel
  exact ⟨hrun, (node_authorized X Function.injective_id W Sample.operator.address hW
    Sample.deployment [] t).1 Sample.domain (by decide +kernel) (by decide +kernel) hrun⟩

end Authorization

/-! ## 4. Whom a raw call acts for -/

/-- What is signed for a raw call: the listing of an operator under a domain, or its deletion. -/
inductive RawMessage where
  | listing (operator : Address) (domain : Bytes)
  | deletion (operator : Address)

def RawMessage.digest (X : Crypto) : RawMessage → X.Digest
  | .listing operator domain => setNodeDigest X operator domain
  | .deletion operator => deleteNodeDigest X operator

/-- **Whose signature it is**: an account has signed a message with `(v, r, s)` if that is what its
    key makes of it, or as valid. `ecrecover` returns the account that has signed so, and the zero
    address if none has. -/
structure Signatures (X : Crypto) where
  signed : Address → RawMessage → BitVec 8 → Bytes32 → Bytes32 → Prop
  nonzero : ∀ {a m v r s}, signed a m v r s → a ≠ 0
  recovers : ∀ {a m v r s}, signed a m v r s → X.ecrecover (m.digest X) v r s = a
  recovered : ∀ {a m v r s}, X.ecrecover (m.digest X) v r s = a → a ≠ 0 → signed a m v r s

/-- Every `ecrecover` is that of some signatures. -/
instance (X : Crypto) : Nonempty (Signatures X) :=
  ⟨{ signed := fun a m v r s => a ≠ 0 ∧ X.ecrecover (m.digest X) v r s = a
     nonzero := fun h => h.1
     recovers := fun h => h.2
     recovered := fun h hz => ⟨hz, h⟩ }⟩

namespace Signatures

variable (W : Signatures X)

/-- Nobody has signed the message so. -/
def ByNobody (m : RawMessage) (v : BitVec 8) (r s : Bytes32) : Prop := ∀ a, ¬ W.signed a m v r s

/-- **Nobody's node is meant**: whoever has signed so has no node, and if nobody has, the zero
    address has none. -/
structure WithoutNode (st : OcnRegistry) (m : RawMessage) (v : BitVec 8) (r s : Bytes32) :
    Prop where
  signer : ∀ a, W.signed a m v r s → st.nodeOf a = []
  nobody : W.ByNobody m v r s → st.nodeOf 0 = []

/-- The transaction asks for a free domain with a signature that is nobody's. -/
def ListsForNobody (st : OcnRegistry) (t : Tx) : Prop :=
  ∃ operator domain v r s, t.call = .setNodeRaw operator domain v r s ∧
    W.ByNobody (.listing operator domain) v r s ∧ domain ≠ [] ∧ st.uniqueDomains domain = false

variable {W} {m : RawMessage} {v : BitVec 8} {r s : Bytes32} {a : Address}

theorem byNobody_iff : W.ByNobody m v r s ↔ X.ecrecover (m.digest X) v r s = 0 := by
  refine ⟨fun h => Classical.byContradiction fun hz => ?_, fun h a hsigned => ?_⟩
  · exact h _ (W.recovered rfl hz)
  · exact W.nonzero hsigned ((W.recovers hsigned).symm.trans h)

theorem withoutNode_iff :
    W.WithoutNode st m v r s ↔ st.nodeOf (X.ecrecover (m.digest X) v r s) = [] := by
  refine ⟨fun h => ?_, fun h => ⟨fun a hsigned => ?_, fun hnobody => ?_⟩⟩
  · by_cases hz : X.ecrecover (m.digest X) v r s = 0
    · rw [hz]
      exact h.nobody (byNobody_iff.mpr hz)
    · exact h.signer _ (W.recovered rfl hz)
  · rwa [W.recovers hsigned] at h
  · rwa [byNobody_iff.mp hnobody] at h

end Signatures

/-- Between the two states, the node of no other address changed, and no other address entered or
    left `operators`. -/
structure OnlyNodeOf (operator : Address) (st st' : OcnRegistry) : Prop where
  nodes : ∀ a, a ≠ operator → st'.nodeOf a = st.nodeOf a
  listed : (st'.operators.filter fun a => decide (a ≠ operator)) =
    st.operators.filter fun a => decide (a ≠ operator)

/-- A `setNodeRaw` call that succeeds recovers the operator it names, not the zero address, and
    touches the node of nobody else. -/
def SetNodeRawActsForOperator (X : Crypto) (st : OcnRegistry) (operator : Address)
    (domain : Bytes) (v : BitVec 8) (r s : Bytes32) : Prop :=
  ∀ st' ev, st.setNodeRaw X operator domain v r s = .ok (st', ev) →
    setNodeSigner X operator domain v r s ≠ 0 ∧
    setNodeSigner X operator domain v r s = operator ∧ OnlyNodeOf operator st st'

/-- A `deleteNodeRaw` call that succeeds recovers the operator it names, not the zero address, and
    clears that operator's node and nothing else. -/
def DeleteNodeRawActsForOperator (X : Crypto) (st : OcnRegistry) (operator : Address)
    (v : BitVec 8) (r s : Bytes32) : Prop :=
  ∀ st' ev, st.deleteNodeRaw X operator v r s = .ok (st', ev) →
    deleteNodeSigner X operator v r s ≠ 0 ∧ deleteNodeSigner X operator v r s = operator ∧
    OnlyNodeOf operator st st' ∧ st'.nodeOf operator = []

/-- The transaction is a `setNodeRaw` call for a free domain whose signature recovers to the zero
    address. -/
def ListsZero (X : Crypto) (st : OcnRegistry) (t : Tx) : Prop :=
  ∃ operator domain v r s, t.call = .setNodeRaw operator domain v r s ∧
    setNodeSigner X operator domain v r s = 0 ∧ domain ≠ [] ∧ st.uniqueDomains domain = false

section Named

theorem onlyNodeOf_storeNode (operator : Address) (domain : Bytes) :
    OnlyNodeOf operator st (st.storeNode operator domain) where
  nodes := fun a ha => by simp [ha]
  listed := by
    unfold storeNode
    dsimp only
    split
    · rfl
    · simp [List.filter_append]

theorem onlyNodeOf_clearNode (operator : Address) :
    OnlyNodeOf operator st (st.clearNode operator) where
  nodes := fun a ha => by simp [ha]
  listed := rfl

theorem setNodeRaw_eq_ok {operator : Address} {domain : Bytes} {v : BitVec 8} {r s : Bytes32} :
    st.setNodeRaw X operator domain v r s = .ok (st', ev) ↔
      domain ≠ [] ∧ st.uniqueDomains domain = false ∧
        st' = st.storeNode (setNodeSigner X operator domain v r s) domain ∧
        ev = [.operatorUpdate (setNodeSigner X operator domain v r s) domain] :=
  setNodeInternal_eq_ok

theorem deleteNodeRaw_eq_ok {operator : Address} {v : BitVec 8} {r s : Bytes32} :
    st.deleteNodeRaw X operator v r s = .ok (st', ev) ↔
      st.nodeOf (deleteNodeSigner X operator v r s) ≠ [] ∧
        st' = st.clearNode (deleteNodeSigner X operator v r s) ∧
        ev = [.operatorUpdate (deleteNodeSigner X operator v r s) []] :=
  deleteNodeInternal_eq_ok

theorem setNodeRaw_acts_iff (W : Signatures X) {operator : Address} {domain : Bytes} {v : BitVec 8}
    {r s : Bytes32} : SetNodeRawActsForOperator X st operator domain v r s ↔
      domain = [] ∨ st.uniqueDomains domain = true ∨
        W.signed operator (.listing operator domain) v r s := by
  unfold SetNodeRawActsForOperator
  refine ⟨fun h => ?_, fun h st' ev hok => ?_⟩
  · by_cases hd : domain = []
    · exact Or.inl hd
    cases hu : st.uniqueDomains domain with
    | true => exact Or.inr (Or.inl rfl)
    | false =>
        obtain ⟨hz, hs, _⟩ := h _ _ (setNodeRaw_eq_ok.mpr ⟨hd, hu, rfl, rfl⟩)
        exact Or.inr (Or.inr (W.recovered hs (hs ▸ hz)))
  · obtain ⟨hd, hu, hst, _⟩ := setNodeRaw_eq_ok.mp hok
    rcases h with hd' | hu' | hsigned
    · exact absurd hd' hd
    · rw [hu] at hu'
      cases hu'
    · have hsigner : setNodeSigner X operator domain v r s = operator := W.recovers hsigned
      rw [hsigner] at hst ⊢
      rw [hst]
      exact ⟨W.nonzero hsigned, rfl, onlyNodeOf_storeNode operator domain⟩

theorem deleteNodeRaw_acts_iff (W : Signatures X) {operator : Address} {v : BitVec 8}
    {r s : Bytes32} : DeleteNodeRawActsForOperator X st operator v r s ↔
      W.WithoutNode st (.deletion operator) v r s ∨
        W.signed operator (.deletion operator) v r s := by
  unfold DeleteNodeRawActsForOperator
  rw [Signatures.withoutNode_iff]
  refine ⟨fun h => ?_, fun h st' ev hok => ?_⟩
  · by_cases hn : st.nodeOf (deleteNodeSigner X operator v r s) = []
    · exact Or.inl hn
    · obtain ⟨hz, hs, _⟩ := h _ _ (deleteNodeRaw_eq_ok.mpr ⟨hn, rfl, rfl⟩)
      exact Or.inr (W.recovered hs (hs ▸ hz))
  · obtain ⟨hn, hst, _⟩ := deleteNodeRaw_eq_ok.mp hok
    rcases h with hn' | hsigned
    · exact absurd hn' hn
    · have hsigner : deleteNodeSigner X operator v r s = operator := W.recovers hsigned
      rw [hsigner] at hst ⊢
      rw [hst]
      exact ⟨W.nonzero hsigned, rfl, onlyNodeOf_clearNode operator, by simp⟩

/-- What recovers to the zero address was signed by nobody. -/
theorem listsForNobody_iff (W : Signatures X) : W.ListsForNobody st t ↔ ListsZero X st t := by
  unfold Signatures.ListsForNobody ListsZero
  simp only [Signatures.byNobody_iff]
  exact Iff.rfl

/-- A call that sets the zero address's node is a raw one: nobody sends from that address. -/
theorem listsZero_iff :
    ListsZero X st t ↔ ∃ domain, SetsNode X t 0 domain ∧ domain ≠ [] ∧
      st.uniqueDomains domain = false := by
  refine ⟨fun h => ?_, fun h => ?_⟩
  · obtain ⟨operator, domain, v, r, s, hcall, hs, hd, hu⟩ := h
    exact ⟨domain, hs ▸ SetsNode.raw hcall, hd, hu⟩
  · obtain ⟨domain, hask, hd, hu⟩ := h
    generalize ez : (0 : Address) = z at hask
    cases hask with
    | direct => exact absurd ez.symm t.sender.nonzero
    | raw hcall => exact ⟨_, domain, _, _, _, hcall, ez.symm, hd, hu⟩

/-- **One step**: where the zero address has no node, it gets one exactly by such a call. -/
theorem nodeOf_zero_step_iff (h0 : st.nodeOf 0 = []) :
    ((machine X).step st t).nodeOf 0 = [] ↔ ¬ ListsZero X st t := by
  rw [listsZero_iff]
  refine ⟨fun h hz => ?_, fun hz => ?_⟩
  · obtain ⟨domain, hask, hd, hu⟩ := hz
    rw [step_setsNode hask hd hu] at h
    exact hd (by simpa using h)
  · rcases nodeOf_step X st t 0 with e | ⟨domain, hask, hd, hu, _⟩ | ⟨_, e⟩
    · exact e.trans h0
    · exact absurd ⟨domain, hask, hd, hu⟩ hz
    · exact e

end Named

/-- A call that carries a signature. -/
def IsRaw : Call → Prop
  | .setNodeRaw .. => True
  | .deleteNodeRaw .. => True
  | _ => False

/-- No raw call of the run succeeds again, from any sender, after it has succeeded once. -/
def RawUsedOnce (X : Crypto) (D : Deployment) (ts : List Tx) : Prop :=
  ∀ pre t mid u post, ts = pre ++ t :: mid ++ u :: post → IsRaw t.call → u.call = t.call →
    (machine X).Accepts (D.run X pre) t → ¬ (machine X).Accepts (D.run X (pre ++ t :: mid)) u

/-- **An old signature is accepted again**: the operator deletes its node, or an admin does, and a
    stranger who kept the operator's listing signature brings it back; an old deletion signature
    deletes the node again once it is back. -/
theorem raw_signature_replayed :
    let X := Sample.crypto Sample.signed
    let D := Sample.deployment
    let op := Sample.operator.address
    let list := Sample.tx Sample.stranger (.setNodeRaw op Sample.domain 27 0 0)
    let unlist := Sample.tx Sample.stranger (.deleteNodeRaw op 27 0 0)
    let delete := Sample.tx Sample.operator .deleteNode
    let adminDelete := Sample.tx Sample.admin (.adminDeleteOperator op)
    ¬ RawUsedOnce X D [list, delete, list] ∧ ¬ RawUsedOnce X D [list, adminDelete, list] ∧
      (D.run X [list, adminDelete, list]).nodeOf op = Sample.domain ∧
      ¬ RawUsedOnce X D [list, unlist, list, unlist] := by
  intro X D op list unlist delete adminDelete
  have hdomain : Sample.domain ≠ [] := by decide +kernel
  have hfirst : (machine X).Accepts (D.run X []) list :=
    (accepts_setNodeRaw rfl).mpr ⟨hdomain, rfl⟩
  refine ⟨fun h => ?_, fun h => ?_, by decide +kernel, fun h => ?_⟩
  · refine h [] list [delete] list [] rfl trivial rfl hfirst ?_
    exact (accepts_setNodeRaw rfl).mpr ⟨hdomain, by decide +kernel⟩
  · refine h [] list [adminDelete] list [] rfl trivial rfl hfirst ?_
    exact (accepts_setNodeRaw rfl).mpr ⟨hdomain, by decide +kernel⟩
  · refine h [list] unlist [list] unlist [] rfl trivial rfl ?_ ?_
    · exact (accepts_deleteNodeRaw rfl).mpr (by decide +kernel)
    · exact (accepts_deleteNodeRaw rfl).mpr (by decide +kernel)

section Replay

variable {D : Deployment} {pre mid : List Tx} {u : Tx}

theorem run_after : D.run X (pre ++ t :: mid) =
    (machine X).run ((machine X).step (D.run X pre) t) mid :=
  Machine.run_append (M := machine X) D.start pre (t :: mid)

/-- A marked domain is free again later only if a node listed under it was deleted in between. -/
theorem deleted_between {domain : Bytes}
    (h0 : (D.run X (pre ++ [t])).uniqueDomains domain = true)
    (h1 : (D.run X (pre ++ t :: mid)).uniqueDomains domain = false) :
    ∃ a w b, mid = a ++ w :: b ∧ (machine X).Accepts (D.run X (pre ++ t :: a)) w ∧
      ∃ operator, DeletesNode X (D.run X (pre ++ t :: a)) w operator ∧
        (D.run X (pre ++ t :: a)).nodeOf operator = domain := by
  rw [run_after] at h0 h1
  have hstart : ¬ ((machine X).step (D.run X pre) t).uniqueDomains domain = false := by
    intro e
    rw [Machine.run_nil, e] at h0
    cases h0
  obtain ⟨a, w, b, e, ha, hw⟩ := Machine.exists_flip (M := machine X)
    (Q := fun st => st.uniqueDomains domain = false) hstart h1
  refine ⟨a, w, b, e, ?_⟩
  rw [run_after]
  exact uniqueDomains_cleared (by simpa using ha) hw

/-- An address without a node has one later only if its node was set in between. -/
theorem set_between {a : Address} (h0 : (D.run X (pre ++ [t])).nodeOf a = [])
    (h1 : (D.run X (pre ++ t :: mid)).nodeOf a ≠ []) :
    ∃ b w c, mid = b ++ w :: c ∧ (machine X).Accepts (D.run X (pre ++ t :: b)) w ∧
      ∃ domain, SetsNode X w a domain := by
  rw [run_after] at h0 h1
  obtain ⟨b, w, c, e, hb, hw⟩ := Machine.exists_flip (M := machine X)
    (Q := fun st => st.nodeOf a ≠ []) (fun hne => hne h0) h1
  refine ⟨b, w, c, e, ?_⟩
  rw [run_after]
  rcases nodeOf_step X _ w a with ew | ⟨domain, hask, hd, hu, _⟩ | ⟨_, ew⟩
  · exact absurd (fun e0 => hw (ew.trans e0)) hb
  · exact ⟨accepts_of_change (.nodeSet a domain hask hd hu), domain, hask⟩
  · exact absurd ew hw

end Replay

/-- **When a raw call succeeds again**: after it has succeeded, a `setNodeRaw` call succeeds later,
    from any sender, exactly when its domain is unmarked then, and only if a node listed under that
    domain was deleted in between; a `deleteNodeRaw` call succeeds later exactly when the
    recovered address has a node then, and only if that node was set in between. -/
theorem raw_replay_iff (X : Crypto) (D : Deployment) (pre : List Tx) (t : Tx) (mid : List Tx)
    (u : Tx) (hsame : u.call = t.call) (hacc : (machine X).Accepts (D.run X pre) t) :
    (∀ operator domain v r s, t.call = .setNodeRaw operator domain v r s →
      ((machine X).Accepts (D.run X (pre ++ t :: mid)) u ↔
        (D.run X (pre ++ t :: mid)).uniqueDomains domain = false) ∧
      ((machine X).Accepts (D.run X (pre ++ t :: mid)) u →
        ∃ a w b, mid = a ++ w :: b ∧ (machine X).Accepts (D.run X (pre ++ t :: a)) w ∧
          ∃ other, DeletesNode X (D.run X (pre ++ t :: a)) w other ∧
            (D.run X (pre ++ t :: a)).nodeOf other = domain)) ∧
    (∀ operator v r s, t.call = .deleteNodeRaw operator v r s →
      ((machine X).Accepts (D.run X (pre ++ t :: mid)) u ↔
        (D.run X (pre ++ t :: mid)).nodeOf (deleteNodeSigner X operator v r s) ≠ []) ∧
      ((machine X).Accepts (D.run X (pre ++ t :: mid)) u →
        ∃ a w b, mid = a ++ w :: b ∧ (machine X).Accepts (D.run X (pre ++ t :: a)) w ∧
          ∃ domain, SetsNode X w (deleteNodeSigner X operator v r s) domain)) := by
  refine ⟨fun operator domain v r s hcall => ?_, fun operator v r s hcall => ?_⟩
  · obtain ⟨hd, hu⟩ := (accepts_setNodeRaw hcall).mp hacc
    have hiff : (machine X).Accepts (D.run X (pre ++ t :: mid)) u ↔
        (D.run X (pre ++ t :: mid)).uniqueDomains domain = false := by
      rw [accepts_setNodeRaw (hsame.trans hcall)]
      exact ⟨fun h => h.2, fun h => ⟨hd, h⟩⟩
    have hmarked : (D.run X (pre ++ [t])).uniqueDomains domain = true := by
      rw [run_after, Machine.run_nil, step_setsNode (.raw hcall) hd hu]
      simp
    exact ⟨hiff, fun h => deleted_between hmarked (hiff.mp h)⟩
  · have hn := (accepts_deleteNodeRaw hcall).mp hacc
    have hiff : (machine X).Accepts (D.run X (pre ++ t :: mid)) u ↔
        (D.run X (pre ++ t :: mid)).nodeOf (deleteNodeSigner X operator v r s) ≠ [] :=
      accepts_deleteNodeRaw (hsame.trans hcall)
    have hgone : (D.run X (pre ++ [t])).nodeOf (deleteNodeSigner X operator v r s) = [] := by
      rw [run_after, Machine.run_nil, step_of_change (.nodeDeleted _ (.raw hcall) hn)]
      simp
    exact ⟨hiff, fun h => set_between hgone (hiff.mp h)⟩

/-- The stranger's second listing, after the operator deleted its node. -/
theorem raw_replay_after_delete :
    let X := Sample.crypto Sample.signed
    let list := Sample.tx Sample.stranger
      (.setNodeRaw Sample.operator.address Sample.domain 27 0 0)
    let delete := Sample.tx Sample.operator .deleteNode
    (machine X).Accepts (Sample.deployment.run X [list, delete]) list := by
  intro X list delete
  have hfirst : (machine X).Accepts (Sample.deployment.run X []) list :=
    (accepts_setNodeRaw rfl).mpr ⟨by decide +kernel, rfl⟩
  exact (((raw_replay_iff X Sample.deployment [] list [delete] list rfl hfirst).1
    _ _ _ _ _ rfl).1).mpr (by decide +kernel)

end OcnRegistry

end Ocn
