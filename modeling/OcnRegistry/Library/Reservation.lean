/-
  File:      OcnRegistry/Library/Reservation.lean
  Subject:   NAMES HELD BY HOLDERS, AND THE FLAGS THAT RESERVE THEM. No program fact.

  Every holder has one name (`blank`: none), and a flag map says which names are taken. Two
  operations: `take` gives a holder a name that is not taken and marks it, `release` blanks a
  holder and clears the flag of the name it had. `take` on a holder that already has a name
  replaces it and leaves the flag of the old name set.

  * `Sound` -- no name has two holders, every held name is marked; kept by both operations;
  * `Complete` -- every marked name is held; kept by `release`, and by `take` exactly when the
    holder had no name (`complete_take_iff`);
  * `not_complete_take`, `not_complete_release` -- a marked name nobody holds stays one for ever.
-/
import Mathlib.Logic.Function.Basic

namespace Reservation

/-- **A book of names**: the name of each holder, and the names marked as taken. -/
structure Book (α β : Type) where
  held : α → β
  taken : β → Bool

namespace Book

variable {α β : Type} [DecidableEq α] [DecidableEq β]

def take (B : Book α β) (a : α) (n : β) : Book α β :=
  ⟨Function.update B.held a n, Function.update B.taken n true⟩

def release (blank : β) (B : Book α β) (a : α) : Book α β :=
  ⟨Function.update B.held a blank, Function.update B.taken (B.held a) false⟩

/-- No name has two holders, every held name is marked, and the blank is no name. -/
structure Sound (blank : β) (B : Book α β) : Prop where
  exclusive : ∀ a b, B.held a ≠ blank → B.held a = B.held b → a = b
  marked : ∀ a, B.held a ≠ blank → B.taken (B.held a) = true
  blankFree : B.taken blank = false

/-- Every marked name is held by somebody. -/
def Complete (B : Book α β) : Prop := ∀ n, B.taken n = true → ∃ a, B.held a = n

variable {blank : β} {B : Book α β} {a : α} {n : β}

theorem take_held_self : (B.take a n).held a = n := by simp [take]

theorem take_held_ne {b : α} (h : b ≠ a) : (B.take a n).held b = B.held b := by
  simp [take, h]

theorem take_taken_ne {m : β} (h : m ≠ n) : (B.take a n).taken m = B.taken m := by
  simp [take, h]

theorem take_taken_self : (B.take a n).taken n = true := by simp [take]

theorem release_held_self : (B.release blank a).held a = blank := by simp [release]

theorem release_held_ne {b : α} (h : b ≠ a) : (B.release blank a).held b = B.held b := by
  simp [release, h]

theorem release_taken_ne {m : β} (h : m ≠ B.held a) :
    (B.release blank a).taken m = B.taken m := by simp [release, h]

theorem release_taken_self : (B.release blank a).taken (B.held a) = false := by simp [release]

omit [DecidableEq α] [DecidableEq β] in
/-- The name a holder has is not one that is free to take. -/
theorem Sound.held_ne (h : B.Sound blank) (hn : n ≠ blank) (hfree : B.taken n = false) (b : α) :
    B.held b ≠ n := by
  intro e
  have hm := h.marked b (by rw [e]; exact hn)
  rw [e, hfree] at hm
  cases hm

/-! ## 1. Soundness -/

theorem Sound.take (h : B.Sound blank) (hn : n ≠ blank) (hfree : B.taken n = false) :
    (B.take a n).Sound blank where
  exclusive := by
    intro x y hx hxy
    by_cases ex : x = a <;> by_cases ey : y = a
    · rw [ex, ey]
    · subst ex
      rw [take_held_self, take_held_ne ey] at hxy
      exact absurd hxy.symm (h.held_ne hn hfree y)
    · subst ey
      rw [take_held_self, take_held_ne ex] at hxy
      exact absurd hxy (h.held_ne hn hfree x)
    · rw [take_held_ne ex] at hx hxy
      rw [take_held_ne ey] at hxy
      exact h.exclusive x y hx hxy
  marked := by
    intro x hx
    by_cases ex : x = a
    · subst ex
      rw [take_held_self]
      exact take_taken_self
    · rw [take_held_ne ex] at hx ⊢
      rw [take_taken_ne (h.held_ne hn hfree x)]
      exact h.marked x hx
  blankFree := by
    rw [take_taken_ne (Ne.symm hn)]
    exact h.blankFree

theorem Sound.release (h : B.Sound blank) (ha : B.held a ≠ blank) :
    (B.release blank a).Sound blank where
  exclusive := by
    intro x y hx hxy
    by_cases ex : x = a
    · subst ex
      exact absurd release_held_self hx
    · rw [release_held_ne ex] at hx hxy
      by_cases ey : y = a
      · subst ey
        rw [release_held_self] at hxy
        exact absurd hxy hx
      · rw [release_held_ne ey] at hxy
        exact h.exclusive x y hx hxy
  marked := by
    intro x hx
    by_cases ex : x = a
    · subst ex
      exact absurd release_held_self hx
    · rw [release_held_ne ex] at hx ⊢
      -- the flag cleared is that of `a`'s name, which `x` does not share
      have hne : B.held x ≠ B.held a := fun e => ex (h.exclusive x a hx e)
      rw [release_taken_ne hne]
      exact h.marked x hx
  blankFree := by
    rw [release_taken_ne (Ne.symm ha)]
    exact h.blankFree

/-! ## 2. Completeness -/

/-- **Taking a name loses none exactly when the holder had none.** -/
theorem complete_take_iff (h : B.Sound blank) (hc : B.Complete) (hn : n ≠ blank)
    (hfree : B.taken n = false) : (B.take a n).Complete ↔ B.held a = blank := by
  refine ⟨fun hc' => ?_, fun ha m hm => ?_⟩
  · refine Classical.byContradiction fun ha => ?_
    have hne : B.held a ≠ n := h.held_ne hn hfree a
    obtain ⟨b, hb⟩ := hc' (B.held a) (by rw [take_taken_ne hne]; exact h.marked a ha)
    by_cases eb : b = a
    · subst eb
      rw [take_held_self] at hb
      exact hne hb.symm
    · rw [take_held_ne eb] at hb
      exact eb (h.exclusive a b ha hb.symm).symm
  · by_cases em : m = n
    · exact ⟨a, by rw [take_held_self, em]⟩
    · rw [take_taken_ne em] at hm
      obtain ⟨b, hb⟩ := hc m hm
      have eb : b ≠ a := by
        intro e
        subst e
        rw [← hb, ha, h.blankFree] at hm
        cases hm
      exact ⟨b, by rw [take_held_ne eb, hb]⟩

theorem Complete.release (hc : B.Complete) : (B.release blank a).Complete := by
  intro m hm
  have hne : m ≠ B.held a := by
    intro e
    subst e
    rw [release_taken_self] at hm
    cases hm
  rw [release_taken_ne hne] at hm
  obtain ⟨b, hb⟩ := hc m hm
  have eb : b ≠ a := fun e => hne (by rw [← hb, e])
  exact ⟨b, by rw [release_held_ne eb, hb]⟩

omit [DecidableEq α] [DecidableEq β] in
theorem not_complete_iff : ¬ B.Complete ↔ ∃ m, B.taken m = true ∧ ∀ b, B.held b ≠ m := by
  simp only [Complete, not_forall, not_exists, exists_prop, ne_eq]

/-- A marked name that nobody holds cannot be taken, so it stays without a holder. -/
theorem not_complete_take (hc : ¬ B.Complete) (hfree : B.taken n = false) :
    ¬ (B.take a n).Complete := by
  obtain ⟨m, hm, hnone⟩ := not_complete_iff.mp hc
  have hne : m ≠ n := by
    intro e
    subst e
    rw [hfree] at hm
    cases hm
  refine not_complete_iff.mpr ⟨m, by rw [take_taken_ne hne, hm], fun b => ?_⟩
  by_cases eb : b = a
  · rw [eb, take_held_self]
    exact Ne.symm hne
  · rw [take_held_ne eb]
    exact hnone b

/-- Nor is its flag cleared when a holder lets its own name go. -/
theorem not_complete_release (h : B.Sound blank) (hc : ¬ B.Complete) :
    ¬ (B.release blank a).Complete := by
  obtain ⟨m, hm, hnone⟩ := not_complete_iff.mp hc
  refine not_complete_iff.mpr ⟨m, ?_, fun b => ?_⟩
  · rw [release_taken_ne (Ne.symm (hnone a)), hm]
  · by_cases eb : b = a
    · rw [eb, release_held_self]
      intro e
      subst e
      rw [h.blankFree] at hm
      cases hm
    · rw [release_held_ne eb]
      exact hnone b

end Book

end Reservation
