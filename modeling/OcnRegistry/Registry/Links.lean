/-
  File:      OcnRegistry/Registry/Links.lean
  Subject:   LINKS: does the operator a party names have a node?

  `setParty` links a party to an operator that has a node. Nothing leads back from an operator to
  the parties that name it, and `deleteNode` asks for none: an operator that takes its node down
  (to change its domain, say) leaves its parties registered without a domain.

  * `link_cut_by_deletion` -- a party whose operator has deleted its node is still registered, and
    both lookups answer with the operator and the empty domain;
  * `links_live_iff` -- no other transaction does that: in every state of a run every registered
    party has a usable domain exactly when no transaction of the run deletes the node of an
    operator that a registered party names; and a party without one has been without one since
    such a deletion.
-/
import OcnRegistry.Registry.Parties

namespace Ocn

open Transaction

namespace OcnRegistry

/-! ## 1. Links -/

/-- Every registered party names an operator that has a node. -/
def LinksLive (st : OcnRegistry) : Prop :=
  ∀ a, st.Registered a → st.nodeOf (st.operatorOf a) ≠ []

/-- Both lookups of every registered party answer with a domain. -/
def LookupsUsable (st : OcnRegistry) : Prop :=
  ∀ a, st.Registered a → (st.getOperatorByAddress a).2 ≠ [] ∧
    (st.getOperatorByOcpi (st.partyOf a).countryCode (st.partyOf a).partyId).2 ≠ []

/-- The party is registered under this operator, which has no node. -/
def Dangling (st : OcnRegistry) (a operator : Address) : Prop :=
  st.Registered a ∧ st.operatorOf a = operator ∧ st.nodeOf operator = []

/-- The transaction deletes the node of an operator that this registered party names. -/
def CutsLinkOf (X : Crypto) (st : OcnRegistry) (t : Tx) (a : Address) : Prop :=
  st.Registered a ∧ st.nodeOf (st.operatorOf a) ≠ [] ∧ DeletesNode X st t (st.operatorOf a)

/-- The transaction deletes the node of an operator that some registered party names. -/
def CutsLink (X : Crypto) (st : OcnRegistry) (t : Tx) : Prop := ∃ a, CutsLinkOf X st t a

section Links

variable {X : Crypto} {st : OcnRegistry} {t : Tx} {a operator : Address}

/-- **One party, one step**: a party comes to dangle from an operator only when the node it names
    is deleted. -/
theorem dangling_step (h0 : ¬ st.Dangling a operator)
    (h1 : ((machine X).step st t).Dangling a operator) :
    st.operatorOf a = operator ∧ CutsLinkOf X st t a := by
  rcases Machine.step_cases (machine X) st t with e | ⟨st', ev, hok, e⟩
  · rw [e] at h1
    exact absurd h1 h0
  rw [e] at h1
  obtain ⟨hr, ho, hn⟩ := h1
  -- with the parties as they were, the node must have been there before
  have hkept (hp : st'.operatorOf = st.operatorOf) :
      st.Registered a ∧ st.operatorOf a = operator ∧ st.nodeOf operator ≠ [] := by
    unfold Registered at hr
    rw [hp] at hr ho
    exact ⟨hr, ho, fun hn' => h0 ⟨hr, ho, hn'⟩⟩
  cases change_of_exec hok with
  | nodeSet op domain _ hname =>
      obtain ⟨_, _, hnode⟩ := hkept rfl
      by_cases eo : operator = op
      · rw [eo, storeNode_nodeOf, Function.update_self] at hn
        exact absurd hn hname
      · rw [storeNode_nodeOf, Function.update_of_ne eo] at hn
        exact absurd hn hnode
  | nodeDeleted op hask =>
      obtain ⟨hr', ho', hnode⟩ := hkept rfl
      by_cases eo : operator = op
      · subst eo
        rw [← ho'] at hnode hask
        exact ⟨ho', hr', hnode, hask⟩
      · rw [clearNode_nodeOf, Function.update_of_ne eo] at hn
        exact absurd hn hnode
  | partySet countryCode partyId roles op name url owner verifiedRoles status _ hadmits =>
      have hn' : st.nodeOf operator = [] := hn
      by_cases ea : a = owner
      · -- `setParty` has just checked that this operator has a node
        rw [ea, storeParty_operatorOf, Function.update_self] at ho
        rw [← ho] at hn'
        exact absurd hn' hadmits.node
      · rw [registered_storeParty_ne ea] at hr
        rw [storeParty_operatorOf, Function.update_of_ne ea] at ho
        exact absurd ⟨hr, ho, hn'⟩ h0
  | partyDeleted party =>
      have hn' : st.nodeOf operator = [] := hn
      by_cases ea : a = party
      · rw [ea] at hr
        exact absurd hr (not_registered_clearParty party)
      · rw [registered_clearParty_ne ea] at hr
        rw [clearParty_operatorOf, Function.update_of_ne ea] at ho
        exact absurd ⟨hr, ho, hn'⟩ h0
  | membersSet => exact absurd hn (hkept rfl).2.2
  | validatorSet => exact absurd hn (hkept rfl).2.2

/-- The deletion of a node that is there succeeds, whoever asks for it. -/
theorem step_deletesNode (hask : DeletesNode X st t operator) (hnode : st.nodeOf operator ≠ []) :
    (machine X).step st t = st.clearNode operator :=
  step_of_change (.nodeDeleted operator hask hnode)

/-- **One step**: from live links, a step leaves one dead exactly when it deletes the node of an
    operator that a registered party names. -/
theorem linksLive_step_iff (hI : st.LinksLive) :
    ((machine X).step st t).LinksLive ↔ ¬ CutsLink X st t := by
  refine ⟨fun h hcut => ?_, fun hcut a hr hn => ?_⟩
  · obtain ⟨a, hr, hnode, hask⟩ := hcut
    rw [step_deletesNode hask hnode] at h
    exact h a hr (Function.update_self ..)
  · have h0 : ¬ st.Dangling a (((machine X).step st t).operatorOf a) :=
      fun hd => hI a hd.1 (by rw [hd.2.1]; exact hd.2.2)
    exact hcut ⟨a, (dangling_step h0 ⟨hr, rfl, hn⟩).2⟩

/-- With sound party tables, live links are usable lookups. -/
theorem lookupsUsable_of_linksLive (hI : st.LinksLive) (hs : st.PartiesSound) :
    st.LookupsUsable := by
  intro a ha
  have hkey : st.uniqueParties (st.partyOf a).countryCode (st.partyOf a).partyId = a :=
    hs.keys.resolves a (live_keyIndex.mpr ha)
  refine ⟨hI a ha, ?_⟩
  rw [getOperatorByOcpi_eq, hkey]
  exact hI a ha

end Links

/-! ## 2. Runs -/

/-- **A deleted node leaves its parties without a domain**: an operator lists a node, a party
    registers under it, the operator deletes the node; the party is still registered and found, by
    address and by key, with an empty domain. -/
theorem link_cut_by_deletion :
    let st := Sample.deployment.run (Sample.crypto [])
      [Sample.tx Sample.operator (.setNode Sample.domain),
        Sample.tx Sample.party (Sample.register Sample.party 0x4445 0x4D5350),
        Sample.tx Sample.operator .deleteNode]
    ¬ LinksLive st ∧ st.Registered Sample.party.address ∧
      st.getOperatorByAddress Sample.party.address = (Sample.operator.address, []) ∧
      st.getOperatorByOcpi 0x4445 0x4D5350 = (Sample.operator.address, []) := by
  intro st
  have hr : st.Registered Sample.party.address := by decide +kernel
  exact ⟨fun h => absurd (h Sample.party.address hr) (by decide +kernel), hr, by decide +kernel,
    by decide +kernel⟩

/-- **When links are live**: in every state of a run every registered party names an operator with
    a node exactly when no transaction of the run deletes the node of an operator that a registered
    party names; then, if the zero address was never registered, both lookups answer with a domain;
    and in any run, a registered party whose operator has no node has been registered under that
    operator, and the operator without a node, ever since such a deletion. -/
theorem links_live_iff (X : Crypto) (D : Deployment) (ts : List Tx) :
    ((machine X).Throughout LinksLive D.start ts ↔
      (machine X).Along (fun st t => ¬ CutsLink X st t) D.start ts) ∧
    ((machine X).Along (fun st t => ¬ CutsLink X st t ∧ ¬ RegistersZero st t) D.start ts →
      (machine X).Throughout LookupsUsable D.start ts) ∧
    ∀ a, (D.run X ts).Registered a → (D.run X ts).nodeOf ((D.run X ts).operatorOf a) = [] →
      ∃ pre t post, ts = pre ++ t :: post ∧ CutsLinkOf X (D.run X pre) t a ∧
        (D.run X pre).operatorOf a = (D.run X ts).operatorOf a ∧
        (machine X).Throughout (fun st => st.Dangling a ((D.run X ts).operatorOf a))
          (D.run X (pre ++ [t])) post := by
  have hstart : D.start.LinksLive := fun a ha => absurd ha (not_registered_start D a)
  have hiff : (machine X).Throughout LinksLive D.start ts ↔
      (machine X).Along (fun st t => ¬ CutsLink X st t) D.start ts :=
    Machine.throughout_iff_along (M := machine X) (J := fun _ => True) (fun _ _ _ => trivial)
      (fun _ _ _ hI => linksLive_step_iff hI) ts trivial hstart
  refine ⟨hiff, fun h pre post e => ?_, fun a ha hn => ?_⟩
  · have hlive := hiff.mpr (Machine.along_mono (M := machine X) (fun _ _ hc => hc.1) h) pre post e
    rw [e] at h
    have hzero : (machine X).Along (fun st t => ¬ RegistersZero st t) D.start pre :=
      Machine.along_mono (M := machine X) (fun _ _ hc => hc.2) (Machine.along_append.mp h).1
    exact lookupsUsable_of_linksLive hlive (partiesSound_run hzero)
  · have h0 : ¬ (machine X).Throughout
        (fun st => st.Dangling a ((D.run X ts).operatorOf a)) D.start ts :=
      fun h => not_registered_start D a (h [] ts rfl).1
    obtain ⟨pre, t, post, e, hpre, hpost⟩ :=
      Machine.exists_last_flip (M := machine X) h0 ⟨ha, rfl, hn⟩
    obtain ⟨ho, hcut⟩ := dangling_step hpre (hpost [] post rfl)
    refine ⟨pre, t, post, e, hcut, ho, ?_⟩
    have hstep : D.run X (pre ++ [t]) = (machine X).step (D.run X pre) t :=
      Machine.run_append (M := machine X) D.start pre [t]
    rw [hstep]
    exact hpost

end OcnRegistry

end Ocn
