/-
  File:      OcnRegistry/Library/Fields.lean
  Subject:   LINES, FIELDS OF A LINE, AND SCANS THAT COLLECT. No program fact.

  Lines are written with an end after each and read back by splitting at the ends. The fields of a
  line are its longest parts without a separator; a part is a field exactly if separators or the
  line's ends stand on both its sides.

  * `splitOn_unlines` -- the lines are read back;
  * `mem_fields` -- which parts of a line are its fields;
  * `foldl_collects` -- a scan has collected what was there and what one of its items gave;
  * `flatMap_eq_iff` -- wholes with parts of the same lengths are equal part by part.
-/
import Mathlib.Data.List.Basic

namespace Fields

variable {α : Type}

/-! ## 1. Lines -/

/-- The lines, each with an end after it. -/
def unlines (ending : α) (lines : List (List α)) : List α :=
  lines.flatMap fun line => line ++ [ending]

/-- **The lines are read back**, and the empty rest after the last end. -/
theorem splitOn_unlines [DecidableEq α] {ending : α} {lines : List (List α)}
    (h : ∀ line ∈ lines, ending ∉ line) :
    (unlines ending lines).splitOn ending = lines ++ [[]] := by
  induction lines with
  | nil => rfl
  | cons line lines ih =>
      obtain ⟨hline, hlines⟩ := List.forall_mem_cons.mp h
      have hsplit : unlines ending (line :: lines) = line ++ ending :: unlines ending lines := by
        unfold unlines
        rw [List.flatMap_cons, List.append_assoc, List.singleton_append]
      rw [hsplit, List.splitOn_append_cons_self_of_not_mem hline, ih hlines, List.cons_append]

/-! ## 2. Fields -/

section

variable {p : α → Bool} {xs field before after : List α}

/-- The longest parts without a separator, the empty ones left out. -/
def fields (p : α → Bool) (xs : List α) : List (List α) :=
  (xs.splitOnP p).filter fun field => !field.isEmpty

/-- What stands before and after a part is a separator, or nothing. -/
structure Bounded (p : α → Prop) (before after : List α) : Prop where
  before : ∀ a, before.getLast? = some a → p a
  after : ∀ a, after.head? = some a → p a

/-- A part between separators is split off. -/
theorem mem_splitOnP_of_bounded (h : Bounded (fun a => p a = true) before after)
    (hfield : ∀ a ∈ field, p a = false) : field ∈ (before ++ field ++ after).splitOnP p := by
  have hright : field ∈ (field ++ after).splitOnP p := by
    cases after with
    | nil =>
        rw [List.append_nil, List.splitOnP_eq_singleton hfield]
        exact List.mem_singleton_self field
    | cons s after =>
        rw [List.splitOnP_append_cons_of_forall_mem hfield s (h.after s rfl)]
        exact List.mem_cons_self
  rcases List.eq_nil_or_concat before with rfl | ⟨front, s, rfl⟩
  · exact hright
  · have hs : p s = true := h.before s (by rw [List.concat_eq_append, List.getLast?_concat])
    rw [List.concat_eq_append, List.append_assoc, List.append_assoc, List.singleton_append,
      List.splitOnP_append_cons front _ hs]
    exact List.mem_append_right _ hright

/-- A separator and more may follow. -/
theorem Bounded.append_right (h : Bounded (fun a => p a = true) before after) {s : α}
    (hs : p s = true) (rest : List α) :
    Bounded (fun a => p a = true) before (after ++ s :: rest) := by
  refine ⟨h.before, ?_⟩
  cases after with
  | nil =>
      intro a ha
      rwa [← Option.some.inj ha]
  | cons b after => exact h.after

/-- More and a separator may stand in front. -/
theorem Bounded.append_left (h : Bounded (fun a => p a = true) before after) {s : α}
    (hs : p s = true) (front : List α) :
    Bounded (fun a => p a = true) (front ++ s :: before) after := by
  refine ⟨fun a ha => ?_, h.after⟩
  rcases List.eq_nil_or_concat before with rfl | ⟨more, b, rfl⟩
  · rw [List.getLast?_concat] at ha
    rwa [← Option.some.inj ha]
  · refine h.before a ?_
    rw [List.concat_eq_append, ← List.cons_append, ← List.append_assoc,
      List.getLast?_concat] at ha
    rwa [List.concat_eq_append, List.getLast?_concat]

/-- What is split off stands between separators. -/
theorem bounded_of_mem_splitOnP {xs : List α} (h : field ∈ xs.splitOnP p) :
    (∀ a ∈ field, p a = false) ∧ ∃ before after, xs = before ++ field ++ after ∧
      Bounded (fun a => p a = true) before after := by
  by_cases hsep : ∃ s ∈ xs, p s = true
  · -- the part is on one side of a separator
    obtain ⟨s, hmem, hs⟩ := hsep
    obtain ⟨left, right, hxs⟩ := List.append_of_mem hmem
    rw [hxs, List.splitOnP_append_cons left right hs] at h
    rcases List.mem_append.mp h with h | h
    · obtain ⟨hfield, before, after, hleft, hbounded⟩ := bounded_of_mem_splitOnP h
      exact ⟨hfield, before, after ++ s :: right, by rw [hxs, hleft, List.append_assoc],
        hbounded.append_right hs right⟩
    · obtain ⟨hfield, before, after, hright, hbounded⟩ := bounded_of_mem_splitOnP h
      refine ⟨hfield, left ++ s :: before, after, ?_, hbounded.append_left hs left⟩
      rw [hxs, hright, List.append_assoc, List.append_assoc, List.append_assoc, List.cons_append]
  · have hfield : ∀ a ∈ xs, p a = false := fun a ha => by
      rw [← Bool.not_eq_true]
      exact fun hs => hsep ⟨a, ha, hs⟩
    rw [List.splitOnP_eq_singleton hfield] at h
    rw [List.mem_singleton.mp h]
    refine ⟨hfield, [], [], (List.append_nil xs).symm, fun a ha => ?_, fun a ha => ?_⟩
    · cases ha
    · cases ha
  termination_by xs.length
  decreasing_by
    all_goals
      rw [hxs, List.length_append, List.length_cons]
      omega

/-- **Which parts are fields.** -/
theorem mem_fields : field ∈ fields p xs ↔ field ≠ [] ∧ (∀ a ∈ field, p a = false) ∧
    ∃ before after, xs = before ++ field ++ after ∧
      Bounded (fun a => p a = true) before after := by
  unfold fields
  rw [List.mem_filter, Bool.not_eq_true', List.isEmpty_eq_false_iff]
  refine ⟨fun ⟨hmem, hne⟩ => ⟨hne, bounded_of_mem_splitOnP hmem⟩, ?_⟩
  rintro ⟨hne, hfield, before, after, rfl, hbounded⟩
  exact ⟨mem_splitOnP_of_bounded hbounded hfield, hne⟩

end

/-! ## 3. Scans -/

/-- **A scan has collected** what was there before and what one of its items gave, if each step
    adds what its item gives. -/
theorem foldl_collects {σ : Type} {I R : σ → Prop} {P : α → Prop} {step : σ → α → σ}
    (hstep : ∀ s a, I s → I (step s a) ∧ (R (step s a) ↔ R s ∨ P a)) {s : σ} (hI : I s)
    (items : List α) :
    I (items.foldl step s) ∧ (R (items.foldl step s) ↔ R s ∨ ∃ a ∈ items, P a) := by
  induction items generalizing s with
  | nil => exact ⟨hI, (or_iff_left fun ⟨_, h, _⟩ => absurd h List.not_mem_nil).symm⟩
  | cons a items ih =>
      obtain ⟨hI', hR⟩ := hstep s a hI
      obtain ⟨hIall, hRall⟩ := ih hI'
      refine ⟨hIall, hRall.trans ?_⟩
      rw [hR, or_assoc, List.exists_mem_cons_iff]

/-! ## 4. Parts -/

/-- Parts of the same lengths are equal if the wholes are. -/
theorem flatMap_eq_iff {β : Type} {f g : α → List β} {l : List α}
    (h : ∀ a ∈ l, (f a).length = (g a).length) :
    l.flatMap f = l.flatMap g ↔ ∀ a ∈ l, f a = g a := by
  induction l with
  | nil => exact iff_of_true rfl fun _ h => absurd h List.not_mem_nil
  | cons a l ih =>
      obtain ⟨ha, hl⟩ := List.forall_mem_cons.mp h
      rw [List.flatMap_cons, List.flatMap_cons, List.forall_mem_cons, ← ih hl]
      exact ⟨fun h => List.append_inj h ha, fun h => by rw [h.1, h.2]⟩

end Fields
