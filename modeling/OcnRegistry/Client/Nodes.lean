/-
  File:      OcnRegistry/Client/Nodes.lean
  Subject:   THE NODE LIST: when `getAllNodes` returns, and what.

  `operators` grows at the first node of an address and never shrinks; `deleteNode` empties
  `nodeOf` and leaves `uniqueOperators` set, so an operator that comes back is not listed twice. The
  client asks for the node of every operator listed and drops the empty ones. The contract takes any
  bytes for a domain, the client decodes them as UTF-8: the first domain that is no text ends the
  loop, and then nobody's node is returned.

  * `nodeList_run` -- the array is the set of addresses that ever had a node, each once, in every
    reachable state;
  * `getAllNodes_eq_ok` -- the loop returns the nodes of the operators that have one, or fails;
  * `undecodable_domain_hides_all` -- one domain that is no text, and the list cannot be read;
  * `node_list_iff` -- in every state of a run the array and the list are exact, exactly when no
    transaction listed a domain that is no text.
-/
import OcnRegistry.Client.Wrapper
import OcnRegistry.Registry.Nodes
import Mathlib.Data.List.Nodup

namespace Ocn

open Transaction

namespace OcnRegistry

/-! ## 1. The array of operators -/

/-- **The operators array is the flags**, each address once, and every node has its flag set. -/
structure NodeListSound (st : OcnRegistry) : Prop where
  nodup : st.operators.Nodup
  mem : ∀ a, a ∈ st.operators ↔ st.uniqueOperators a = true
  flagged : ∀ a, st.nodeOf a ≠ [] → st.uniqueOperators a = true

section Array

variable {X : Crypto} {st st' : OcnRegistry} {t : Tx} {ev : List Event}

theorem nodeListSound_start (D : Deployment) : D.start.NodeListSound where
  nodup := List.nodup_nil
  mem := fun _ => iff_of_false List.not_mem_nil Bool.false_ne_true
  flagged := fun _ h => absurd rfl h

theorem NodeListSound.storeNode (hI : st.NodeListSound) (operator : Address) (domain : Bytes) :
    (st.storeNode operator domain).NodeListSound where
  nodup := by
    show (if st.uniqueOperators operator then st.operators
      else st.operators ++ [operator]).Nodup
    cases hflag : st.uniqueOperators operator with
    | true => exact hI.nodup
    | false =>
        have hnew : operator ∉ st.operators := fun hmem => by
          rw [(hI.mem operator).mp hmem] at hflag
          cases hflag
        rw [if_neg Bool.false_ne_true]
        exact List.nodup_append.mpr ⟨hI.nodup, List.nodup_singleton _, fun a ha b hb e =>
          hnew (List.mem_singleton.mp hb ▸ e ▸ ha)⟩
  mem := by
    intro a
    show a ∈ (if st.uniqueOperators operator then st.operators
      else st.operators ++ [operator]) ↔ Function.update st.uniqueOperators operator true a = true
    by_cases e : a = operator
    · subst e
      cases hflag : st.uniqueOperators a with
      | true => simpa using (hI.mem a).mpr hflag
      | false => simp
    · rw [Function.update_of_ne e, ← hI.mem a]
      cases st.uniqueOperators operator <;> simp [e]
  flagged := by
    intro a ha
    show Function.update st.uniqueOperators operator true a = true
    by_cases e : a = operator
    · rw [e, Function.update_self]
    · rw [Function.update_of_ne e]
      rw [storeNode_nodeOf, Function.update_of_ne e] at ha
      exact hI.flagged a ha

theorem NodeListSound.clearNode (hI : st.NodeListSound) (operator : Address) :
    (st.clearNode operator).NodeListSound where
  nodup := hI.nodup
  mem := hI.mem
  flagged := by
    intro a ha
    refine hI.flagged a fun hnone => ha ?_
    rw [clearNode_nodeOf]
    by_cases e : a = operator
    · rw [e, Function.update_self]
    · rw [Function.update_of_ne e, hnone]

theorem nodeListSound_exec (hI : st.NodeListSound) (h : exec X st t = .ok (st', ev)) :
    st'.NodeListSound := by
  cases change_of_exec h with
  | nodeSet operator domain => exact hI.storeNode operator domain
  | nodeDeleted operator => exact hI.clearNode operator
  | partySet => exact ⟨hI.nodup, hI.mem, hI.flagged⟩
  | partyDeleted => exact ⟨hI.nodup, hI.mem, hI.flagged⟩
  | membersSet => exact ⟨hI.nodup, hI.mem, hI.flagged⟩
  | validatorSet => exact ⟨hI.nodup, hI.mem, hI.flagged⟩

theorem nodeBooks_step (hI : st.NodeListSound ∧ st.domainBook.Sound []) :
    ((machine X).step st t).NodeListSound ∧ ((machine X).step st t).domainBook.Sound [] :=
  Machine.step_preserves (M := machine X)
    (I := fun st => st.NodeListSound ∧ st.domainBook.Sound []) hI
    fun _ _ hok => ⟨nodeListSound_exec hI.1 hok, domainBook_sound_step hI.2 hok⟩

theorem nodeList_run (X : Crypto) (D : Deployment) (ts : List Tx) : (D.run X ts).NodeListSound :=
  Machine.run_invariant_all (M := machine X) (fun _ _ _ _ hI h => nodeListSound_exec hI h) ts
    (nodeListSound_start D)

end Array

end OcnRegistry

/-! ## 2. The client's list -/

namespace Client

variable {X : Crypto} {st : OcnRegistry} {t : Tx}

/-- The node of an operator, if it has one: its domain as a text. -/
def nodeAt (st : OcnRegistry) (operator : Address) : Option Node :=
  if st.nodeOf operator = [] then none
  else (Utf8.decode (st.nodeOf operator)).map (Node.mk operator)

theorem nodeAt_eq_some {operator : Address} {n : Node} :
    nodeAt st operator = some n ↔
      n.operator = operator ∧ Utf8.encode n.url = st.nodeOf operator ∧ n.url ≠ "" := by
  unfold nodeAt
  split
  · rename_i hnone
    refine ⟨fun h => (by cases h), fun h => ?_⟩
    obtain ⟨_, hurl, hne⟩ := h
    exact absurd (Utf8.encode_eq_nil.mp (hurl.trans hnone)) hne
  · rename_i hnode
    rw [Option.map_eq_some_iff]
    refine ⟨fun h => ?_, fun h => ?_⟩
    · obtain ⟨url, hurl, rfl⟩ := h
      have hbytes : Utf8.encode url = st.nodeOf operator := Utf8.decode_eq_some.mp hurl
      exact ⟨rfl, hbytes, fun e => hnode (hbytes.symm.trans (Utf8.encode_eq_nil.mpr e))⟩
    · obtain ⟨rfl, hurl, _⟩ := h
      exact ⟨n.url, Utf8.decode_eq_some.mpr hurl, rfl⟩

/-- **The loop** appends the nodes of the operators that have one, as long as every domain is a
    text. -/
theorem nodesFrom_eq_ok {rest : List Address} {nodes all : List Node} :
    nodesFrom st rest nodes = .ok all ↔
      (∀ operator ∈ rest, Utf8.IsText (st.nodeOf operator)) ∧
        all = nodes ++ rest.filterMap (nodeAt st) := by
  induction rest generalizing nodes with
  | nil =>
      rw [nodesFrom, List.filterMap_nil, List.append_nil]
      refine ⟨fun h => ⟨fun _ hmem => absurd hmem List.not_mem_nil, (Except.ok.inj h).symm⟩,
        fun h => ?_⟩
      rw [h.2]
  | cons operator rest ih =>
      rw [nodesFrom, bind_eq_ok, List.forall_mem_cons, and_assoc]
      have hstep : ∀ url, Utf8.encode url = st.nodeOf operator →
          ((if url ≠ "" then nodesFrom st rest (nodes ++ [⟨operator, url⟩])
            else nodesFrom st rest nodes) = .ok all ↔
          (∀ a ∈ rest, Utf8.IsText (st.nodeOf a)) ∧
            all = nodes ++ (operator :: rest).filterMap (nodeAt st)) := by
        intro url hurl
        by_cases hempty : url = ""
        · have hat : nodeAt st operator = none :=
            if_pos (hurl.symm.trans (Utf8.encode_eq_nil.mpr hempty))
          rw [if_neg fun h => h hempty, ih, List.filterMap_cons_none hat]
        · have hat : nodeAt st operator = some ⟨operator, url⟩ :=
            nodeAt_eq_some.mpr ⟨rfl, hurl, hempty⟩
          rw [if_pos hempty, ih, List.filterMap_cons_some hat, List.append_assoc]
          rfl
      refine ⟨fun h => ?_, fun h => ?_⟩
      · obtain ⟨url, hurl, h⟩ := h
        exact ⟨⟨url, toUtf8String_eq_ok.mp hurl⟩, (hstep url (toUtf8String_eq_ok.mp hurl)).mp h⟩
      · obtain ⟨⟨url, hurl⟩, h⟩ := h
        exact ⟨url, toUtf8String_eq_ok.mpr hurl, (hstep url hurl).mpr h⟩

theorem getAllNodes_eq_ok {all : List Node} :
    getAllNodes st = .ok all ↔
      (∀ operator ∈ st.operators, Utf8.IsText (st.nodeOf operator)) ∧
        all = st.operators.filterMap (nodeAt st) := nodesFrom_eq_ok

/-- Nodes at different operators differ. -/
theorem nodeAt_injective {a b : Address} {n : Node} (ha : nodeAt st a = some n)
    (hb : nodeAt st b = some n) : a = b :=
  (nodeAt_eq_some.mp ha).1.symm.trans (nodeAt_eq_some.mp hb).1

theorem mem_nodes (hI : st.NodeListSound) {n : Node} :
    n ∈ st.operators.filterMap (nodeAt st) ↔
      Utf8.encode n.url = st.nodeOf n.operator ∧ n.url ≠ "" := by
  rw [List.mem_filterMap]
  refine ⟨fun h => ?_, fun h => ?_⟩
  · obtain ⟨operator, _, hat⟩ := h
    obtain ⟨rfl, hurl, hne⟩ := nodeAt_eq_some.mp hat
    exact ⟨hurl, hne⟩
  · obtain ⟨hurl, hne⟩ := h
    have hnode : st.nodeOf n.operator ≠ [] := fun e =>
      hne (Utf8.encode_eq_nil.mp (hurl.trans e))
    exact ⟨n.operator, (hI.mem _).mpr (hI.flagged _ hnode), nodeAt_eq_some.mpr ⟨rfl, hurl, hne⟩⟩

/-- Where domains are unique, so are the urls of the list. -/
theorem nodup_nodes (hI : st.NodeListSound) (hB : st.domainBook.Sound []) :
    (st.operators.filterMap (nodeAt st)).Nodup ∧
      ((st.operators.filterMap (nodeAt st)).map (·.url)).Nodup := by
  have hnodup : (st.operators.filterMap (nodeAt st)).Nodup :=
    List.Nodup.filterMap (fun _ _ _ ha hb => nodeAt_injective ha hb) hI.nodup
  refine ⟨hnodup, List.Nodup.map_on (fun m hm n hn e => ?_) hnodup⟩
  obtain ⟨hm, hmne⟩ := (mem_nodes hI).mp hm
  obtain ⟨hn, _⟩ := (mem_nodes hI).mp hn
  have hheld : st.nodeOf m.operator = st.nodeOf n.operator := by rw [← hm, ← hn, e]
  have hop : m.operator = n.operator :=
    hB.exclusive _ _ (fun h => hmne (Utf8.encode_eq_nil.mp (hm.trans h))) hheld
  obtain ⟨mop, murl⟩ := m
  obtain ⟨nop, nurl⟩ := n
  rw [show mop = nop from hop, show murl = nurl from e]

/-! ## 3. A list that is exact -/

/-- **The array and the list of nodes are exact**: the operators array has no duplicates and
    contains exactly the flagged addresses, every address with a node among them; and `getAllNodes`
    returns every pair of an operator and the text of its non-empty domain once, no other pair, and
    no domain twice. -/
structure NodesListed (st : OcnRegistry) : Prop where
  nodup : st.getNodeOperators.Nodup
  flags : ∀ a, a ∈ st.getNodeOperators ↔ st.uniqueOperators a = true
  noded : ∀ a, st.nodeOf a ≠ [] → a ∈ st.getNodeOperators
  returned : ∃ all, getAllNodes st = .ok all ∧ all.Nodup ∧
    (∀ n, n ∈ all ↔ Utf8.encode n.url = st.nodeOf n.operator ∧ n.url ≠ "") ∧
    (∀ a, st.nodeOf a ≠ [] → a ∈ all.map (·.operator)) ∧ (all.map (·.url)).Nodup

/-- Every domain is a text. -/
def DomainsDecode (st : OcnRegistry) : Prop := ∀ a, Utf8.IsText (st.nodeOf a)

/-- **In one state**: the list is exact exactly when every domain is a text. -/
theorem nodesListed_iff (hI : st.NodeListSound) (hB : st.domainBook.Sound []) :
    NodesListed st ↔ DomainsDecode st := by
  refine ⟨fun h a => ?_, fun h => ?_⟩
  · obtain ⟨all, hall, _⟩ := h.returned
    by_cases hnode : st.nodeOf a = []
    · rw [hnode]
      exact Utf8.isText_nil
    · exact (getAllNodes_eq_ok.mp hall).1 a (h.noded a hnode)
  · have hlisted : ∀ a, st.nodeOf a ≠ [] → a ∈ st.operators := fun a ha =>
      (hI.mem a).mpr (hI.flagged a ha)
    obtain ⟨hnodes, hurls⟩ := nodup_nodes hI hB
    refine ⟨hI.nodup, hI.mem, hlisted, _, getAllNodes_eq_ok.mpr ⟨fun a _ => h a, rfl⟩, hnodes,
      fun n => mem_nodes hI, fun a ha => ?_, hurls⟩
    obtain ⟨url, hurl⟩ := h a
    refine List.mem_map.mpr ⟨⟨a, url⟩, (mem_nodes hI).mpr ⟨hurl, fun e => ?_⟩, rfl⟩
    exact ha (hurl.symm.trans (Utf8.encode_eq_nil.mpr e))

/-! ## 4. Along a run -/

/-- The transaction lists a domain that is no text: it sets one that is not in use. -/
def ListsUndecodable (X : Crypto) (st : OcnRegistry) (t : Tx) : Prop :=
  ∃ operator domain, OcnRegistry.SetsNode X t operator domain ∧
    st.uniqueDomains domain = false ∧ ¬ Utf8.IsText domain

/-- **One step.** -/
theorem domainsDecode_step_iff (h : DomainsDecode st) :
    DomainsDecode ((OcnRegistry.machine X).step st t) ↔ ¬ ListsUndecodable X st t := by
  refine ⟨fun hstep hbad => ?_, fun hgood a => ?_⟩
  · obtain ⟨operator, domain, hask, hfree, hno⟩ := hbad
    have hname : domain ≠ [] := fun e => hno (e ▸ Utf8.isText_nil)
    have hown := hstep operator
    rw [OcnRegistry.step_setsNode hask hname hfree, OcnRegistry.storeNode_nodeOf,
      Function.update_self] at hown
    exact hno hown
  · rcases OcnRegistry.nodeOf_step X st t a with e | ⟨domain, hask, _, hfree, e⟩ | ⟨_, e⟩
    · rw [e]
      exact h a
    · rw [e]
      exact Classical.not_not.mp fun hno => hgood ⟨a, domain, hask, hfree, hno⟩
    · rw [e]
      exact Utf8.isText_nil

end Client

namespace Sample

/-- The bytes `FF 41`, which are no text. -/
def noText : Bytes := [0xFF, 0x41]

end Sample

/-- **One domain hides all nodes**: after a listing of the bytes `FF 41`, no list of nodes is
    returned, not even that of the node listed before. -/
theorem undecodable_domain_hides_all :
    let st := Sample.deployment.run (Sample.crypto [])
      [Sample.tx Sample.operator (.setNode Sample.domain),
        Sample.tx Sample.stranger (.setNode Sample.noText)]
    Client.getAllNodes st = .error .invalidUtf8 ∧
      st.nodeOf Sample.operator.address = Sample.domain ∧ ¬ Client.NodesListed st := by
  intro st
  have hfails : Client.getAllNodes st = .error .invalidUtf8 := by decide +kernel
  refine ⟨hfails, by decide +kernel, fun h => ?_⟩
  obtain ⟨all, hall, _⟩ := h.returned
  rw [hfails] at hall
  cases hall

/-- **When the list of nodes is exact**: in every state of a run the operators array is exact and
    `getAllNodes` returns every operator with its domain once and nothing else, exactly when no
    transaction of the run listed a domain that is not UTF-8. -/
theorem node_list_iff (X : Crypto) (D : Deployment) (ts : List Tx) :
    (OcnRegistry.machine X).Throughout Client.NodesListed D.start ts ↔
      (OcnRegistry.machine X).Along (fun st t => ¬ Client.ListsUndecodable X st t) D.start ts := by
  refine Machine.throughout_iff_along (M := OcnRegistry.machine X)
    (J := fun st => st.NodeListSound ∧ st.domainBook.Sound []) (fun st t hJ => ?_)
    (fun st t hJ h => ?_) ts
    ⟨OcnRegistry.nodeListSound_start D, OcnRegistry.domainBook_sound_construct D⟩ ?_
  · exact OcnRegistry.nodeBooks_step hJ
  · obtain ⟨hI, hB⟩ := OcnRegistry.nodeBooks_step (X := X) (t := t) hJ
    exact (Client.nodesListed_iff hI hB).trans
      (Client.domainsDecode_step_iff ((Client.nodesListed_iff hJ.1 hJ.2).mp h))
  · exact (Client.nodesListed_iff (OcnRegistry.nodeListSound_start D)
      (OcnRegistry.domainBook_sound_construct D)).mpr fun _ => Utf8.isText_nil

end Ocn
