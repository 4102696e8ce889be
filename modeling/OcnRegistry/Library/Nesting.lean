/-
  File:      OcnRegistry/Library/Nesting.lean
  Subject:   CALLS THAT ARE SUSPENDED INSIDE ONE ANOTHER AND MAY BE ROLLED BACK. No program fact.

  While a call waits for another one, the state it started from is kept: if it reverts, that state
  comes back. `stack` holds the waiting calls, the innermost first. An invariant has to hold of the
  state now and of every state a revert can bring back; and what a waiting call may rely on (`R`)
  has to hold of the state now and of every state saved after it was suspended.

  `Sound` says both. It is kept by a move of the state that keeps the invariant and every reliance
  (`Sound.move`), by a suspension (`Sound.enter`), by a return (`Sound.leave`) and, with nothing to
  prove, by a rollback (`Sound.rollback`).
-/

namespace Nesting

/-- A waiting call: the state it started from, and what it still has to do. -/
structure Frame (σ φ : Type) where
  saved : σ
  todo : φ

/-- The state now, and the waiting calls, the innermost first. -/
structure Nest (σ φ : Type) where
  now : σ
  stack : List (Frame σ φ)

variable {σ φ : Type}

/-- A call starts, does its part up to the state `s`, and waits. -/
def Nest.enter (N : Nest σ φ) (todo : φ) (s : σ) : Nest σ φ := ⟨s, ⟨N.now, todo⟩ :: N.stack⟩

/-- **A sound nest**: the invariant `J` now and in every saved state, and the reliance `R` of every
    waiting call on the state now and on those saved after it. -/
def Sound (J : σ → Prop) (R : Frame σ φ → σ → Prop) : σ → List (Frame σ φ) → Prop
  | s, [] => J s
  | s, f :: fs => J s ∧ (∀ g ∈ f :: fs, R g s) ∧ Sound J R f.saved fs

variable {J : σ → Prop} {R : Frame σ φ → σ → Prop} {s s' : σ} {f : Frame σ φ}
  {fs : List (Frame σ φ)}

theorem Sound.holds (h : Sound J R s fs) : J s := by
  cases fs with
  | nil => exact h
  | cons f fs => exact h.1

theorem Sound.relies (h : Sound J R s fs) : ∀ g ∈ fs, R g s := by
  cases fs with
  | nil => exact fun _ hg => absurd hg List.not_mem_nil
  | cons f fs => exact h.2.1

/-- The state may move as long as the invariant and every reliance are kept. -/
theorem Sound.move (h : Sound J R s fs) (hJ : J s') (hR : ∀ g ∈ fs, R g s → R g s') :
    Sound J R s' fs := by
  cases fs with
  | nil => exact hJ
  | cons f fs => exact ⟨hJ, fun g hg => hR g hg (h.2.1 g hg), h.2.2⟩

theorem Sound.enter (h : Sound J R s fs) {todo : φ} (hJ : J s') (hf : R ⟨s, todo⟩ s')
    (hR : ∀ g ∈ fs, R g s → R g s') : Sound J R s' (⟨s, todo⟩ :: fs) := by
  refine ⟨hJ, fun g hg => ?_, h⟩
  rcases List.mem_cons.mp hg with rfl | hg
  · exact hf
  · exact hR g hg (h.relies g hg)

theorem Sound.tail (h : Sound J R s (f :: fs)) : Sound J R s fs := by
  cases fs with
  | nil => exact h.1
  | cons g fs => exact ⟨h.1, fun k hk => h.2.1 k (List.mem_cons_of_mem f hk), h.2.2.2.2⟩

/-- The innermost call returns, with a last move of its own. -/
theorem Sound.leave (h : Sound J R s (f :: fs)) (hJ : J s')
    (hR : ∀ g ∈ fs, R g s → R g s') : Sound J R s' fs :=
  h.tail.move hJ hR

/-- The innermost call reverts. -/
theorem Sound.rollback (h : Sound J R s (f :: fs)) : Sound J R f.saved fs := h.2.2

end Nesting
