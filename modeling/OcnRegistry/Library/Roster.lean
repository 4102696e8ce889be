/-
  File:      OcnRegistry/Library/Roster.lean
  Subject:   MEMBERS, THE KEYS THEY CARRY AND THE SLOTS THEY SIT IN. No program fact.

  Two structures a table of members is found through, each written by the same two operations (a
  member is entered or re-entered; a member leaves):

  * `KeyIndex` -- every member carries a key, and a key map answers with the member a key belongs
    to (`z`: nobody). `Sound`: every live member's key answers with it, so live members have
    distinct keys (`Sound.key_injective`). `NoStale`: the key map answers with live members only,
    each under the key it carries; entering keeps it exactly when it does not move a live member
    away from a key that answers with it (`noStale_assign_iff`). `Found`: members are found by what
    others ask for when they are shown a key, which may be another spelling of it; entering keeps
    that unless the new key is lost in the asking (`found_assign_iff`). Marks set on every key
    entered under say which keys are held until somebody leaves a key alone (`marks_assign_iff`,
    `marks_remove_iff`).
  * `SlotTable` -- every live member sits in one slot of a list, slots of members that left hold
    `z`. `Sound`: member to slot and slot to member agree, so the list without its holes is each
    live member once (`Sound.listing_nodup`, `Sound.mem_listing`).
-/
import Mathlib.Data.List.Basic
import Mathlib.Data.List.Nodup
import Mathlib.Logic.Function.Basic

namespace Roster

variable {α κ : Type} [DecidableEq α] [DecidableEq κ]

/-! ## 1. Keys -/

/-- **A key index**: who is live, the key each member carries, the member each key answers with. -/
structure KeyIndex (α κ : Type) where
  live : α → Bool
  key : α → κ
  owner : κ → α

namespace KeyIndex

/-- Member `a` enters, or re-enters, under the key `k`. The answer of its old key stays. -/
def assign (I : KeyIndex α κ) (a : α) (k : κ) : KeyIndex α κ :=
  ⟨Function.update I.live a true, Function.update I.key a k, Function.update I.owner k a⟩

/-- Member `a` leaves: its record goes back to the blank key, the key it carried answers `z`. -/
def remove (z : α) (blank : κ) (I : KeyIndex α κ) (a : α) : KeyIndex α κ :=
  ⟨Function.update I.live a false, Function.update I.key a blank,
    Function.update I.owner (I.key a) z⟩

/-- Every live member's key answers with it, and `z` is nobody. -/
structure Sound (z : α) (I : KeyIndex α κ) : Prop where
  resolves : ∀ a, I.live a = true → I.owner (I.key a) = a
  nobody : I.live z = false

/-- The key map answers with live members, each under the key it carries. -/
def NoStale (z : α) (I : KeyIndex α κ) : Prop :=
  ∀ k, I.owner k ≠ z → I.live (I.owner k) = true ∧ I.key (I.owner k) = k

variable {z a : α} {k blank : κ} {I : KeyIndex α κ}

omit [DecidableEq α] [DecidableEq κ] in
/-- **Distinct live members carry distinct keys.** -/
theorem Sound.key_injective (h : I.Sound z) {a b : α} (ha : I.live a = true)
    (hb : I.live b = true) (e : I.key a = I.key b) : a = b := by
  rw [← h.resolves a ha, e, h.resolves b hb]

omit [DecidableEq α] [DecidableEq κ] in
theorem Sound.ne_nobody (h : I.Sound z) (ha : I.live a = true) : a ≠ z := by
  intro e
  subst e
  rw [h.nobody] at ha
  cases ha

omit [DecidableEq α] [DecidableEq κ] in
/-- A key that is free for `a` is not the key of another live member. -/
theorem Sound.key_ne (h : I.Sound z) (hfree : I.owner k = z ∨ I.owner k = a) {b : α}
    (hb : I.live b = true) (hba : b ≠ a) : I.key b ≠ k := by
  intro e
  subst e
  rw [h.resolves b hb] at hfree
  exact hfree.elim (h.ne_nobody hb) hba

theorem Sound.assign (h : I.Sound z) (ha : a ≠ z) (hfree : I.owner k = z ∨ I.owner k = a) :
    (I.assign a k).Sound z where
  resolves := by
    intro b hb
    by_cases e : b = a
    · subst e
      simp [KeyIndex.assign]
    · have hb' : I.live b = true := by simpa [KeyIndex.assign, e] using hb
      have hk : I.key b ≠ k := h.key_ne hfree hb' e
      simpa [KeyIndex.assign, e, hk] using h.resolves b hb'
  nobody := by simpa [KeyIndex.assign, Ne.symm ha] using h.nobody

theorem Sound.remove (h : I.Sound z) (ha : I.live a = true) :
    (I.remove z blank a).Sound z where
  resolves := by
    intro b hb
    have e : b ≠ a := by
      intro e
      subst e
      simp [KeyIndex.remove] at hb
    have hb' : I.live b = true := by simpa [KeyIndex.remove, e] using hb
    have hk : I.key b ≠ I.key a := fun hk => e (h.key_injective hb' ha hk)
    simpa [KeyIndex.remove, e, hk] using h.resolves b hb'
  nobody := by simpa [KeyIndex.remove, Ne.symm (h.ne_nobody ha)] using h.nobody

/-- **Entering leaves no stale key behind exactly when it does not move a live member away from
    a key that answers with it.** -/
theorem noStale_assign_iff (h : I.NoStale z) :
    (I.assign a k).NoStale z ↔
      ¬ (a ≠ z ∧ I.live a = true ∧ I.key a ≠ k ∧ I.owner (I.key a) = a) := by
  refine ⟨fun h' hmove => ?_, fun hmove k' hk' => ?_⟩
  · obtain ⟨haz, _, hne, howner⟩ := hmove
    have hk := h' (I.key a) (by simpa [assign, hne, howner] using haz)
    simp only [assign, Function.update_of_ne hne, howner, Function.update_self] at hk
    exact hne hk.2.symm
  · by_cases ek : k' = k
    · subst ek
      simp [assign]
    · have howner : (I.assign a k).owner k' = I.owner k' := by simp [assign, ek]
      rw [howner] at hk' ⊢
      obtain ⟨hlive, hkey⟩ := h k' hk'
      by_cases eb : I.owner k' = a
      · rw [eb] at hlive hkey hk'
        exact absurd ⟨hk', hlive, by rw [hkey]; exact ek, by rw [hkey]; exact eb⟩ hmove
      · simpa [assign, eb] using And.intro hlive hkey

/-- A member that leaves takes its only key with it. -/
theorem NoStale.remove (h : I.NoStale z) : (I.remove z blank a).NoStale z := by
  intro k hk
  have ek : k ≠ I.key a := by
    intro e
    subst e
    simp [KeyIndex.remove] at hk
  have howner : (I.remove z blank a).owner k = I.owner k := by simp [KeyIndex.remove, ek]
  rw [howner] at hk ⊢
  obtain ⟨hlive, hkey⟩ := h k hk
  have eb : I.owner k ≠ a := fun e => ek (by rw [← hkey, e])
  simpa [KeyIndex.remove, eb] using And.intro hlive hkey

/-- **A way of asking for a key one was shown**: which keys can be shown, which of these can be
    asked for, and what is then asked for. Asking for what was asked for is asking the same. -/
structure Asking (κ : Type) where
  shown : κ → Prop
  askable : κ → Prop
  asked : κ → κ
  shown_asked : ∀ k, shown k → askable k → shown (asked k)
  asked_asked : ∀ k, shown k → askable k → asked (asked k) = asked k

/-- Whoever's key is shown is found by asking for it. -/
def Found (A : Asking κ) (I : KeyIndex α κ) : Prop :=
  ∀ a, I.live a = true → A.shown (I.key a) →
    A.askable (I.key a) ∧ I.owner (A.asked (I.key a)) = a

variable {A : Asking κ}

/-- **Entering keeps every member found exactly when** the new key can be asked for, what is asked
    for is that key or answers with the member already, and `z` does not lose its answer to it. -/
theorem found_assign_iff (h : I.Found A) (hfree : I.owner k = z ∨ I.owner k = a) :
    (I.assign a k).Found A ↔
      ¬ ((A.shown k ∧ ¬ (A.askable k ∧ (A.asked k = k ∨ I.owner (A.asked k) = a))) ∨
        (a ≠ z ∧ I.live z = true ∧ A.shown (I.key z) ∧ A.asked (I.key z) = k)) := by
  refine ⟨fun h' hlost => ?_, fun hkept b hb hshown => ?_⟩
  · rcases hlost with ⟨hshown, hno⟩ | ⟨haz, hz, hshown, hk⟩
    · obtain ⟨hask, howner⟩ := h' a (by simp [assign]) (by simpa [assign] using hshown)
      simp only [assign, Function.update_self] at hask howner
      refine hno ⟨hask, ?_⟩
      by_cases e : A.asked k = k
      · exact Or.inl e
      · rw [Function.update_of_ne e] at howner
        exact Or.inr howner
    · have hza : z ≠ a := Ne.symm haz
      obtain ⟨_, howner⟩ := h' z (by simpa [assign, hza] using hz)
        (by simpa [assign, hza] using hshown)
      simp only [assign, Function.update_of_ne hza, hk, Function.update_self] at howner
      exact haz howner
  · by_cases e : b = a
    · subst e
      simp only [assign, Function.update_self] at hshown ⊢
      obtain ⟨hask, hk⟩ := Classical.not_not.mp fun hno => hkept (Or.inl ⟨hshown, hno⟩)
      refine ⟨hask, ?_⟩
      by_cases ek : A.asked k = k
      · rw [ek, Function.update_self]
      · rw [Function.update_of_ne ek]
        exact hk.resolve_left ek
    · simp only [assign, Function.update_of_ne e] at hb hshown ⊢
      obtain ⟨hask, howner⟩ := h b hb hshown
      refine ⟨hask, ?_⟩
      by_cases ek : A.asked (I.key b) = k
      · -- only `z` can be asked for under a key that is free for another
        rw [← ek, howner] at hfree
        have hbz : b = z := hfree.resolve_right e
        subst hbz
        exact absurd (Or.inr ⟨Ne.symm e, hb, hshown, ek⟩) hkept
      · rw [Function.update_of_ne ek]
        exact howner

/-- Leaving keeps the others found. -/
theorem Found.remove (h : I.Found A) (ha : I.live a = true) : (I.remove z blank a).Found A := by
  intro b hb hshown
  have e : b ≠ a := by
    intro e
    subst e
    simp [KeyIndex.remove] at hb
  simp only [KeyIndex.remove, Function.update_of_ne e] at hb hshown ⊢
  obtain ⟨hask, howner⟩ := h b hb hshown
  have ek : A.asked (I.key b) ≠ I.key a := by
    intro ek
    obtain ⟨_, howner'⟩ := h a ha (ek ▸ A.shown_asked _ hshown hask)
    rw [← ek, A.asked_asked _ hshown hask, howner] at howner'
    exact e howner'
  rw [Function.update_of_ne ek]
  exact ⟨hask, howner⟩

/-- Some live member carries the key. -/
def Held (I : KeyIndex α κ) (k : κ) : Prop := ∃ a, I.live a = true ∧ I.key a = k

/-- No other live member carries the key of `a`. -/
def SoleHolder (I : KeyIndex α κ) (a : α) : Prop :=
  I.live a = true ∧ ∀ b, I.live b = true → I.key b = I.key a → b = a

variable {k' : κ}

theorem held_assign : (I.assign a k).Held k' ↔
    k' = k ∨ ∃ b, b ≠ a ∧ I.live b = true ∧ I.key b = k' := by
  refine ⟨fun h => ?_, fun h => ?_⟩
  · obtain ⟨b, hb, hk⟩ := h
    by_cases e : b = a
    · subst e
      simp only [assign, Function.update_self] at hk
      exact Or.inl hk.symm
    · simp only [assign, Function.update_of_ne e] at hb hk
      exact Or.inr ⟨b, e, hb, hk⟩
  · rcases h with rfl | ⟨b, e, hb, hk⟩
    · exact ⟨a, by simp [assign], by simp [assign]⟩
    · exact ⟨b, by simpa [assign, e] using hb, by simpa [assign, e] using hk⟩

theorem held_remove : (I.remove z blank a).Held k' ↔
    ∃ b, b ≠ a ∧ I.live b = true ∧ I.key b = k' := by
  refine ⟨fun h => ?_, fun h => ?_⟩
  · obtain ⟨b, hb, hk⟩ := h
    have e : b ≠ a := by
      intro e
      subst e
      simp [remove] at hb
    simp only [remove, Function.update_of_ne e] at hb hk
    exact ⟨b, e, hb, hk⟩
  · obtain ⟨b, e, hb, hk⟩ := h
    exact ⟨b, by simpa [remove, e] using hb, by simpa [remove, e] using hk⟩

omit [DecidableEq α] [DecidableEq κ] in
/-- A key is held without `a` exactly if it is held at all, unless `a` is its only holder. -/
theorem held_without_iff : (I.Held k' ↔ ∃ b, b ≠ a ∧ I.live b = true ∧ I.key b = k') ↔
    ¬ (I.SoleHolder a ∧ I.key a = k') := by
  refine ⟨fun h hsole => ?_, fun hsole => ⟨fun h => ?_, fun h => ?_⟩⟩
  · obtain ⟨⟨ha, hall⟩, hk⟩ := hsole
    obtain ⟨b, hne, hb, hkb⟩ := h.mp ⟨a, ha, hk⟩
    exact hne (hall b hb (hkb.trans hk.symm))
  · obtain ⟨b, hb, hk⟩ := h
    by_contra hnone
    have hba : b = a := Classical.byContradiction fun e => hnone ⟨b, e, hb, hk⟩
    subst hba
    refine hsole ⟨⟨hb, fun c hc hkc => ?_⟩, hk⟩
    exact Classical.byContradiction fun e => hnone ⟨c, e, hc, hkc.trans hk⟩
  · obtain ⟨b, _, hb, hk⟩ := h
    exact ⟨b, hb, hk⟩

section Marks

/- A mark is set on every key a member enters under, and never taken away. -/

variable {P S : κ → Prop}

/-- **Marks say which keys are held, after entering, exactly when** the member was not the only one
    under another key that matters. -/
theorem marks_assign_iff (h : ∀ k', P k' → (S k' ↔ I.Held k')) :
    (∀ k', P k' → ((k' = k ∨ S k') ↔ (I.assign a k).Held k')) ↔
      ¬ (P (I.key a) ∧ I.SoleHolder a ∧ I.key a ≠ k) := by
  refine ⟨fun hmarks hleft => ?_, fun hleft k' hk' => ?_⟩
  · obtain ⟨hP, hsole, hne⟩ := hleft
    have hgone := hmarks _ hP
    rw [held_assign] at hgone
    rcases hgone.mp (Or.inr ((h _ hP).mpr ⟨a, hsole.1, rfl⟩)) with e | hother
    · exact hne e
    · exact (held_without_iff.mp ⟨fun _ => hother, fun _ => ⟨a, hsole.1, rfl⟩⟩) ⟨hsole, rfl⟩
  · rw [held_assign, h k' hk']
    by_cases e : k' = k
    · exact iff_of_true (Or.inl e) (Or.inl e)
    · refine or_congr_right (held_without_iff.mpr fun hsole => hleft ?_)
      obtain ⟨hsole, rfl⟩ := hsole
      exact ⟨hk', hsole, e⟩

/-- **The same after leaving.** -/
theorem marks_remove_iff (h : ∀ k', P k' → (S k' ↔ I.Held k')) :
    (∀ k', P k' → (S k' ↔ (I.remove z blank a).Held k')) ↔ ¬ (P (I.key a) ∧ I.SoleHolder a) := by
  refine ⟨fun hmarks hleft => ?_, fun hleft k' hk' => ?_⟩
  · obtain ⟨hP, hsole⟩ := hleft
    have hgone := hmarks _ hP
    rw [held_remove, h _ hP] at hgone
    exact held_without_iff.mp hgone ⟨hsole, rfl⟩
  · rw [held_remove, h k' hk']
    refine held_without_iff.mpr fun hsole => hleft ?_
    obtain ⟨hsole, rfl⟩ := hsole
    exact ⟨hk', hsole⟩

end Marks

end KeyIndex

/-! ## 2. Slots -/

/-- **A slot table**: who is live, the slot each member remembers, the slots themselves. -/
structure SlotTable (α : Type) where
  live : α → Bool
  slot : α → Nat
  slots : List α

namespace SlotTable

/-- A live member keeps its slot; any other gets a new one at the end. -/
def enter (T : SlotTable α) (a : α) : SlotTable α :=
  ⟨Function.update T.live a true,
    Function.update T.slot a (if T.live a then T.slot a else T.slots.length),
    if T.live a then T.slots else T.slots ++ [a]⟩

/-- The slot of a member that leaves is zeroed, and its record goes back to slot 0. -/
def leave (z : α) (T : SlotTable α) (a : α) : SlotTable α :=
  ⟨Function.update T.live a false, Function.update T.slot a 0, T.slots.set (T.slot a) z⟩

/-- Member to slot and slot to member agree. -/
structure Sound (z : α) (T : SlotTable α) : Prop where
  atSlot : ∀ a, T.live a = true → T.slots[T.slot a]? = some a
  atIndex : ∀ (i : Nat) (a : α), T.slots[i]? = some a → a ≠ z → T.live a = true ∧ T.slot a = i

/-- The slots without their holes. -/
def listing (z : α) (T : SlotTable α) : List α := T.slots.filter fun a => decide (a ≠ z)

variable {z a : α} {T : SlotTable α}

omit [DecidableEq α] in
/-- Distinct live members sit in distinct slots. -/
theorem Sound.slot_ne (h : T.Sound z) {a b : α} (ha : T.live a = true) (hb : T.live b = true)
    (hne : a ≠ b) : T.slot a ≠ T.slot b := by
  intro e
  have hab := (h.atSlot a ha).symm.trans ((congrArg (fun i => T.slots[i]?) e).trans (h.atSlot b hb))
  exact hne (Option.some.inj hab)

omit [DecidableEq α] in
theorem Sound.slot_lt (h : T.Sound z) (ha : T.live a = true) : T.slot a < T.slots.length :=
  (List.getElem?_eq_some_iff.mp (h.atSlot a ha)).1

/-- **Leaving, without the index**: the slot that is zeroed is the only one the member is in. -/
theorem Sound.leave_slots (h : T.Sound z) (ha : T.live a = true) :
    (T.leave z a).slots = T.slots.map fun b => if b = a then z else b := by
  refine List.ext_getElem? fun i => ?_
  show (T.slots.set (T.slot a) z)[i]? = _
  rw [List.getElem?_map]
  by_cases hi : i = T.slot a
  · rw [hi, List.getElem?_set_self (h.slot_lt ha), h.atSlot a ha, Option.map_some, if_pos rfl]
  · rw [List.getElem?_set_ne (Ne.symm hi)]
    cases hb : T.slots[i]? with
    | none => rfl
    | some b =>
        rw [Option.map_some]
        split
        · rename_i e
          subst e
          -- a second slot of the member can only be a hole
          by_cases hz : b = z
          · rw [hz]
          · exact absurd (h.atIndex i b hb hz).2.symm hi
        · rfl

theorem Sound.enter (h : T.Sound z) : (T.enter a).Sound z := by
  cases hl : T.live a with
  | true =>
      -- re-entry: nothing moves
      have e : T.enter a = T := by
        cases T
        simp_all [SlotTable.enter]
      rw [e]
      exact h
  | false =>
      refine ⟨fun b hb => ?_, fun i b hi hbz => ?_⟩
      · by_cases e : b = a
        · subst e
          simp [SlotTable.enter, hl]
        · have hb' : T.live b = true := by simpa [SlotTable.enter, e] using hb
          have hlt := h.slot_lt hb'
          simpa [SlotTable.enter, hl, e, List.getElem?_append_left hlt] using h.atSlot b hb'
      · have hi' : (T.slots ++ [a])[i]? = some b := by simpa [SlotTable.enter, hl] using hi
        rcases Nat.lt_or_ge i T.slots.length with hlt | hge
        · rw [List.getElem?_append_left hlt] at hi'
          obtain ⟨hb, hslot⟩ := h.atIndex i b hi' hbz
          have e : b ≠ a := by
            intro e
            subst e
            rw [hl] at hb
            cases hb
          simpa [SlotTable.enter, e] using And.intro hb hslot
        · rw [List.getElem?_append_right hge] at hi'
          obtain ⟨hlt, e⟩ := List.getElem?_eq_some_iff.mp hi'
          have hi0 : i - T.slots.length = 0 := by simpa using hlt
          have e' : a = b := by simpa [hi0] using e
          subst e'
          refine ⟨by simp [SlotTable.enter], ?_⟩
          simp only [SlotTable.enter, hl, Function.update_self, Bool.false_eq_true, if_false]
          omega

theorem Sound.leave (h : T.Sound z) (ha : T.live a = true) : (T.leave z a).Sound z where
  atSlot := by
    intro b hb
    have e : b ≠ a := by
      intro e
      subst e
      simp [SlotTable.leave] at hb
    have hb' : T.live b = true := by simpa [SlotTable.leave, e] using hb
    have hne : T.slot a ≠ T.slot b := h.slot_ne ha hb' (Ne.symm e)
    simpa [SlotTable.leave, e, List.getElem?_set_ne hne] using h.atSlot b hb'
  atIndex := by
    intro i b hi hbz
    have hi' : (T.slots.set (T.slot a) z)[i]? = some b := hi
    have hne : T.slot a ≠ i := by
      intro e
      subst e
      rw [List.getElem?_set_self (h.slot_lt ha)] at hi'
      exact hbz (Option.some.inj hi').symm
    rw [List.getElem?_set_ne hne] at hi'
    obtain ⟨hb, hslot⟩ := h.atIndex i b hi' hbz
    have e : b ≠ a := by
      intro e
      subst e
      exact hne hslot
    simpa [SlotTable.leave, e] using And.intro hb hslot

/-- **The listing names nobody twice.** -/
theorem Sound.listing_nodup (h : T.Sound z) : (T.listing z).Nodup := by
  unfold listing List.Nodup
  rw [List.pairwise_filter, List.pairwise_iff_getElem]
  intro i j hi hj hij hz _ e
  have hz' : T.slots[i] ≠ z := of_decide_eq_true hz
  have h1 := h.atIndex i _ (List.getElem?_eq_getElem hi) hz'
  have h2 := h.atIndex j _ (List.getElem?_eq_getElem hj) (e ▸ hz')
  rw [e] at h1
  omega

/-- **The listing names the live members and nobody else.** -/
theorem Sound.mem_listing (h : T.Sound z) (hz : T.live z = false) :
    a ∈ T.listing z ↔ T.live a = true := by
  refine ⟨fun ha => ?_, fun ha => ?_⟩
  · obtain ⟨hmem, hne⟩ := List.mem_filter.mp ha
    obtain ⟨i, hi⟩ := List.mem_iff_getElem?.mp hmem
    exact (h.atIndex i a hi (of_decide_eq_true hne)).1
  · have hne : a ≠ z := by
      intro e
      subst e
      rw [hz] at ha
      cases ha
    exact List.mem_filter.mpr ⟨List.mem_of_getElem? (h.atSlot a ha), decide_eq_true hne⟩

end SlotTable

end Roster
