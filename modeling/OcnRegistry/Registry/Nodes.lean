/-
  File:      OcnRegistry/Registry/Nodes.lean
  Subject:   NODE LISTINGS: domains are unique in every reachable state, and when they get lost.

  `nodeOf` and `uniqueDomains` are a book of names (Library/Reservation.lean): `setNode` takes a
  name, `deleteNode` releases it, every other change leaves the book alone (`domainBook_step`).

  * `domains_unique` -- in every reachable state no two operators share a domain, and every domain
    somebody has is marked;
  * `domain_lost_after_change` -- a domain replaced in place stays marked, with nobody holding it;
  * `no_domain_lost_iff` -- that is the only way: no domain is lost, and every free domain can be
    registered, exactly in the states reached without replacing a domain in place.
-/
import OcnRegistry.Library.Reservation
import OcnRegistry.Registry.Run

namespace Ocn

open Transaction

namespace OcnRegistry

/-! ## 1. The book of domains -/

/-- Who has which domain, and which domains are marked. -/
def domainBook (st : OcnRegistry) : Reservation.Book Address Bytes :=
  ⟨st.nodeOf, st.uniqueDomains⟩

section Book

variable {X : Crypto} {st st' : OcnRegistry} {t : Tx} {ev : List Event}

theorem domainBook_storeNode (operator : Address) (domain : Bytes) :
    (st.storeNode operator domain).domainBook = st.domainBook.take operator domain := rfl

/-- **What a successful transaction does to the book**: it takes a free domain, releases one, or
    leaves the book alone. -/
theorem domainBook_step (h : exec X st t = .ok (st', ev)) :
    (∃ operator domain, SetsNode X t operator domain ∧ domain ≠ [] ∧
      st.uniqueDomains domain = false ∧ st'.domainBook = st.domainBook.take operator domain) ∨
    (∃ operator, DeletesNode X st t operator ∧ st.nodeOf operator ≠ [] ∧
      st'.domainBook = st.domainBook.release [] operator) ∨
    st'.domainBook = st.domainBook := by
  cases change_of_exec h with
  | nodeSet operator domain hask hname hfree =>
      exact Or.inl ⟨operator, domain, hask, hname, hfree, rfl⟩
  | nodeDeleted operator hask hnode => exact Or.inr (Or.inl ⟨operator, hask, hnode, rfl⟩)
  | partySet => exact Or.inr (Or.inr rfl)
  | partyDeleted => exact Or.inr (Or.inr rfl)
  | membersSet => exact Or.inr (Or.inr rfl)
  | validatorSet => exact Or.inr (Or.inr rfl)

/-- What a transaction does to one address's node. -/
theorem nodeOf_step (X : Crypto) (st : OcnRegistry) (t : Tx) (a : Address) :
    ((machine X).step st t).nodeOf a = st.nodeOf a ∨
    (∃ domain, SetsNode X t a domain ∧ domain ≠ [] ∧ st.uniqueDomains domain = false ∧
      ((machine X).step st t).nodeOf a = domain) ∨
    (DeletesNode X st t a ∧ ((machine X).step st t).nodeOf a = []) := by
  rcases Machine.step_cases (machine X) st t with e | ⟨st', ev, hok, e⟩
  · exact Or.inl (by rw [e])
  rw [e]
  rcases domainBook_step hok with ⟨op, d, hask, hd, hu, eb⟩ | ⟨op, hask, _, eb⟩ | eb
  · have hheld : st'.nodeOf a = (st.domainBook.take op d).held a := congrArg (fun B => B.held a) eb
    by_cases ea : a = op
    · subst ea
      exact Or.inr (Or.inl ⟨d, hask, hd, hu, hheld.trans Reservation.Book.take_held_self⟩)
    · exact Or.inl (hheld.trans (Reservation.Book.take_held_ne ea))
  · have hheld : st'.nodeOf a = (st.domainBook.release [] op).held a :=
      congrArg (fun B => B.held a) eb
    by_cases ea : a = op
    · subst ea
      exact Or.inr (Or.inr ⟨hask, hheld.trans Reservation.Book.release_held_self⟩)
    · exact Or.inl (hheld.trans (Reservation.Book.release_held_ne ea))
  · exact Or.inl (congrArg (fun B => B.held a) eb)

/-- A marked domain becomes unmarked only by the deletion of a node listed under it. -/
theorem uniqueDomains_cleared {domain : Bytes} (h0 : st.uniqueDomains domain = true)
    (h1 : ((machine X).step st t).uniqueDomains domain = false) :
    (machine X).Accepts st t ∧ ∃ operator, DeletesNode X st t operator ∧
      st.nodeOf operator = domain := by
  rcases Machine.step_cases (machine X) st t with e | ⟨st', ev, hok, e⟩
  · rw [e, h0] at h1
    cases h1
  rw [e] at h1
  refine ⟨⟨_, hok⟩, ?_⟩
  rcases domainBook_step hok with ⟨op, d, _, _, hu, eb⟩ | ⟨op, hask, _, eb⟩ | eb
  · have htaken : st'.uniqueDomains domain = (st.domainBook.take op d).taken domain :=
      congrArg (fun B => B.taken domain) eb
    have hne : domain ≠ d := by
      intro ed
      rw [ed, hu] at h0
      cases h0
    rw [htaken, Reservation.Book.take_taken_ne hne] at h1
    exact absurd h1 (by rw [show st.domainBook.taken domain = true from h0]; decide)
  · refine ⟨op, hask, ?_⟩
    by_contra hne
    have htaken : st'.uniqueDomains domain = (st.domainBook.release [] op).taken domain :=
      congrArg (fun B => B.taken domain) eb
    rw [htaken, Reservation.Book.release_taken_ne fun ed => hne ed.symm] at h1
    exact absurd h1 (by rw [show st.domainBook.taken domain = true from h0]; decide)
  · have htaken : st'.uniqueDomains domain = st.uniqueDomains domain :=
      congrArg (fun B => B.taken domain) eb
    rw [htaken, h0] at h1
    cases h1

theorem domainBook_sound_construct (D : Deployment) : D.start.domainBook.Sound [] where
  exclusive := fun _ _ h _ => absurd rfl h
  marked := fun _ h => absurd rfl h
  blankFree := rfl

theorem domainBook_sound_step (hI : st.domainBook.Sound []) (h : exec X st t = .ok (st', ev)) :
    st'.domainBook.Sound [] := by
  rcases domainBook_step h with ⟨op, d, _, hd, hu, e⟩ | ⟨op, _, hn, e⟩ | e
  · rw [e]
    exact hI.take hd hu
  · rw [e]
    exact hI.release hn
  · rw [e]
    exact hI

/-- The book is sound in every reachable state. -/
theorem domainBook_sound_run (X : Crypto) (D : Deployment) (ts : List Tx) :
    (D.run X ts).domainBook.Sound [] :=
  Machine.run_invariant_all (M := machine X) (fun _ _ _ _ hI h => domainBook_sound_step hI h) ts
    (domainBook_sound_construct D)

end Book

/-! ## 2. Uniqueness -/

/-- **Domains are unique**: in every reachable state two operators never have the same domain, and
    every domain an operator has is marked in `uniqueDomains`. -/
theorem domains_unique (X : Crypto) (D : Deployment) (ts : List Tx) :
    (∀ a b, a ≠ b → (D.run X ts).nodeOf a ≠ [] →
      (D.run X ts).nodeOf a ≠ (D.run X ts).nodeOf b) ∧
    ∀ a, (D.run X ts).nodeOf a ≠ [] →
      (D.run X ts).uniqueDomains ((D.run X ts).nodeOf a) = true := by
  have h := domainBook_sound_run X D ts
  exact ⟨fun a b hab ha e => hab (h.exclusive a b ha e), h.marked⟩

/-! ## 3. Lost domains -/

/-- Every marked domain is the domain of some operator. -/
def NoDomainLost (st : OcnRegistry) : Prop :=
  ∀ domain, st.uniqueDomains domain = true → ∃ operator, st.nodeOf operator = domain

/-- Every non-empty domain that no operator has can be registered by anybody. -/
def FreeDomainsOpen (X : Crypto) (st : OcnRegistry) : Prop :=
  ∀ (caller : Account) (domain : Bytes) (answers : External), domain ≠ [] →
    (∀ operator, st.nodeOf operator ≠ domain) →
    (machine X).Accepts st ⟨caller, .setNode domain, answers⟩

/-- The transaction replaces a domain in place: it sets a free domain for an operator that has one
    already. -/
def ReplacesDomain (X : Crypto) (st : OcnRegistry) (t : Tx) : Prop :=
  ∃ operator domain, SetsNode X t operator domain ∧ domain ≠ [] ∧
    st.uniqueDomains domain = false ∧ st.nodeOf operator ≠ []

section Lost

variable {X : Crypto} {st : OcnRegistry} {t : Tx}

/-- A call names at most one node to set. -/
theorem SetsNode.unique {operator operator' : Address} {domain domain' : Bytes}
    (h : SetsNode X t operator domain) (h' : SetsNode X t operator' domain') :
    operator = operator' ∧ domain = domain' := by
  cases h with
  | direct hc =>
      cases h' with
      | direct hc' => exact ⟨rfl, by rw [hc] at hc'; cases hc'; rfl⟩
      | raw hc' => rw [hc] at hc'; cases hc'
  | raw hc =>
      cases h' with
      | direct hc' => rw [hc] at hc'; cases hc'
      | raw hc' => rw [hc] at hc'; cases hc'; exact ⟨rfl, rfl⟩

/-- A transaction that sets a free domain succeeds. -/
theorem step_setsNode {operator : Address} {domain : Bytes} (hask : SetsNode X t operator domain)
    (hname : domain ≠ []) (hfree : st.uniqueDomains domain = false) :
    (machine X).step st t = st.storeNode operator domain :=
  step_of_change (.nodeSet operator domain hask hname hfree)

/-- **One step**: from a state with a sound book and no lost domain, a step loses a domain exactly
    when it replaces one in place. -/
theorem noDomainLost_step_iff (hI : st.domainBook.Sound []) (hc : st.domainBook.Complete) :
    ((machine X).step st t).domainBook.Complete ↔ ¬ ReplacesDomain X st t := by
  by_cases hset : ∃ op d, SetsNode X t op d ∧ d ≠ [] ∧ st.uniqueDomains d = false
  · obtain ⟨op, d, hask, hd, hu⟩ := hset
    rw [step_setsNode hask hd hu, domainBook_storeNode,
      Reservation.Book.complete_take_iff hI hc hd hu]
    refine ⟨fun hop hreplaces => ?_, fun hn => ?_⟩
    · obtain ⟨op', d', hask', _, _, hn⟩ := hreplaces
      rw [(hask.unique hask').1] at hop
      exact hn hop
    · exact Classical.byContradiction fun hop => hn ⟨op, d, hask, hd, hu, hop⟩
  · refine iff_of_true ?_ fun ⟨op, d, hask, hd, hu, _⟩ => hset ⟨op, d, hask, hd, hu⟩
    refine Machine.step_preserves (M := machine X) (I := fun st => st.domainBook.Complete) hc
      fun st' ev hok => ?_
    rcases domainBook_step hok with ⟨op, d, hask, hd, hu, _⟩ | ⟨op, _, _, e⟩ | e
    · exact absurd ⟨op, d, hask, hd, hu⟩ hset
    · rw [e]
      exact hc.release
    · rw [e]
      exact hc

/-- A lost domain stays lost. -/
theorem domainLost_step (hI : st.domainBook.Sound []) (hc : ¬ st.domainBook.Complete) :
    ¬ ((machine X).step st t).domainBook.Complete := by
  refine Machine.step_preserves (M := machine X) (I := fun st => ¬ st.domainBook.Complete) hc
    fun st' ev hok => ?_
  rcases domainBook_step hok with ⟨op, d, _, _, hu, e⟩ | ⟨op, _, _, e⟩ | e
  · rw [e]
    exact Reservation.Book.not_complete_take hc hu
  · rw [e]
    exact Reservation.Book.not_complete_release hI hc
  · rw [e]
    exact hc

/-- With a sound book, no domain is lost exactly when every free domain can be registered. -/
theorem noDomainLost_iff_open (hI : st.domainBook.Sound []) :
    NoDomainLost st ↔ FreeDomainsOpen X st := by
  refine ⟨fun h caller d answers hd hnone => ?_, fun h d hd => ?_⟩
  · have hu : st.uniqueDomains d = false := by
      by_contra hu
      obtain ⟨op, hop⟩ := h d (by simpa using hu)
      exact hnone op hop
    exact accepts_of_change (t := ⟨caller, .setNode d, answers⟩) (.nodeSet _ d (.direct rfl) hd hu)
  · by_contra hnone
    have hne : d ≠ [] := by
      intro e
      subst e
      have hb : st.uniqueDomains [] = false := hI.blankFree
      rw [hb] at hd
      cases hd
    obtain ⟨⟨st', ev⟩, hok⟩ := h Sample.stranger d Sample.external hne fun op e => hnone ⟨op, e⟩
    have hset : st.setNodeInternal Sample.stranger.address d = .ok (st', ev) := hok
    have hfree := (setNodeInternal_eq_ok.mp hset).2.1
    rw [hd] at hfree
    cases hfree

end Lost

/-- **A domain replaced in place is lost**: after `setNode(domain)` and `setNode(domain2)` by one
    operator, `domain` is marked, nobody has it, and nobody can register it. -/
theorem domain_lost_after_change :
    let st := Sample.deployment.run (Sample.crypto [])
      [Sample.tx Sample.operator (.setNode Sample.domain),
        Sample.tx Sample.operator (.setNode Sample.domain2)]
    ¬ NoDomainLost st ∧ ¬ FreeDomainsOpen (Sample.crypto []) st := by
  intro st
  have hlost : ¬ NoDomainLost st := by
    intro h
    obtain ⟨op, hop⟩ := h Sample.domain (by decide +kernel)
    have hnode : st.nodeOf op = Function.update (Function.update (fun _ => []) (2 : Address)
      Sample.domain) (2 : Address) Sample.domain2 op := rfl
    rw [hnode, Function.update_idem] at hop
    by_cases e : op = 2
    · subst e
      rw [Function.update_self] at hop
      exact absurd hop (by decide +kernel)
    · rw [Function.update_of_ne e] at hop
      exact absurd hop (by decide +kernel)
  exact ⟨hlost, fun h => hlost ((noDomainLost_iff_open (domainBook_sound_run _ _ _)).mpr h)⟩

/-- **When no domain is lost**: in every run, the state reached has no lost domain and every free
    domain open exactly when no transaction of the run replaced a domain in place. -/
theorem no_domain_lost_iff (X : Crypto) (D : Deployment) (ts : List Tx) :
    (NoDomainLost (D.run X ts) ∧ FreeDomainsOpen X (D.run X ts)) ↔
      (machine X).Along (fun st t => ¬ ReplacesDomain X st t) D.start ts := by
  have hrun : NoDomainLost (D.run X ts) ↔
      (machine X).Along (fun st t => ¬ ReplacesDomain X st t) D.start ts := by
    refine Machine.run_iff_along (M := machine X) (J := fun st => st.domainBook.Sound [])
      (I := NoDomainLost) (fun _ _ hJ => ?_) (fun _ _ hJ hI => noDomainLost_step_iff hJ hI)
      (fun _ _ hJ hI => domainLost_step hJ hI) ts (domainBook_sound_construct D)
      (fun d hd => by cases hd)
    exact Machine.step_preserves (M := machine X) (I := fun st => st.domainBook.Sound []) hJ
      fun _ _ hok => domainBook_sound_step hJ hok
  rw [← hrun, ← noDomainLost_iff_open (X := X) (domainBook_sound_run X D ts), and_self]

end OcnRegistry

end Ocn
