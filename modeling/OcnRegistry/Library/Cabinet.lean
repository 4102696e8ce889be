/-
  File:      OcnRegistry/Library/Cabinet.lean
  Subject:   CABINETS: entries filed in lists, one list a label. No program fact.

  A cabinet that is read, extended by one entry and written back whole holds what a log of the
  entries says exactly if what was read did (`put_eq_iff`). So copies that are out of date lose
  entries, and nothing else does.
-/
import Mathlib.Logic.Function.Basic
import Mathlib.Data.List.Nodup

/-- **A cabinet**: for each label, the entries in the order they came. -/
abbrev Cabinet (ι α : Type) := ι → List α

namespace Cabinet

variable {ι α : Type} [DecidableEq ι] {s s' : Cabinet ι α} {i : ι} {x : α}

/-- The cabinet with nothing in it. -/
def empty : Cabinet ι α := fun _ => []

/-- One entry more, after the others of its label. -/
def put (s : Cabinet ι α) (i : ι) (x : α) : Cabinet ι α := Function.update s i (s i ++ [x])

/-- What a log of labelled entries says of each label. -/
def of (log : List (ι × α)) : Cabinet ι α := fun i =>
  (log.filter fun e => decide (e.1 = i)).map Prod.snd

@[simp] theorem put_self : s.put i x i = s i ++ [x] := Function.update_self ..

theorem put_of_ne {j : ι} (h : j ≠ i) : s.put i x j = s j := Function.update_of_ne h ..

@[simp] theorem of_nil : of ([] : List (ι × α)) = empty := rfl

theorem of_append_singleton (log : List (ι × α)) : of (log ++ [(i, x)]) = (of log).put i x := by
  funext j
  unfold of
  rw [List.filter_append, List.map_append]
  by_cases h : j = i
  · subst h
    rw [put_self]
    simp
  · rw [put_of_ne h]
    simp [Ne.symm h]

/-- **A written cabinet tells what was read.** -/
theorem put_eq_iff : s.put i x = s'.put i x ↔ s = s' := by
  refine ⟨fun h => funext fun j => ?_, fun h => by rw [h]⟩
  have hj := congrFun h j
  by_cases e : j = i
  · subst e
    rw [put_self, put_self] at hj
    exact List.append_cancel_right hj
  · rwa [put_of_ne e, put_of_ne e] at hj

/-- What holds of all entries holds of one more. -/
theorem forall_put {P : ι → α → Prop} (h : ∀ j, ∀ y ∈ s j, P j y) (hx : P i x) :
    ∀ j, ∀ y ∈ s.put i x j, P j y := by
  intro j y hy
  by_cases e : j = i
  · subst e
    rw [put_self] at hy
    rcases List.mem_append.mp hy with hy | hy
    · exact h j y hy
    · rw [List.mem_singleton.mp hy]
      exact hx
  · rw [put_of_ne e] at hy
    exact h j y hy

variable {β : Type} {f : α → β}

/-- An entry whose tag is new under its label keeps the tags distinct. -/
theorem nodup_put (h : ∀ j, ((s j).map f).Nodup) (hx : ∀ y ∈ s i, f y ≠ f x) (j : ι) :
    ((s.put i x j).map f).Nodup := by
  by_cases e : j = i
  · subst e
    rw [put_self, List.map_append, List.map_singleton, List.nodup_append]
    refine ⟨h j, List.nodup_singleton _, fun a ha b hb => ?_⟩
    obtain ⟨y, hy, rfl⟩ := List.mem_map.mp ha
    rw [List.mem_singleton.mp hb]
    exact hx y hy
  · rw [put_of_ne e]
    exact h j

variable [DecidableEq β]

omit [DecidableEq ι] in
/-- Where tags are distinct, every entry is the one its tag finds. -/
theorem find?_of_nodup {l : List α} (h : (l.map f).Nodup) {x : α} (hx : x ∈ l) :
    (l.find? fun y => decide (f y = f x)) = some x := by
  induction l with
  | nil => exact absurd hx List.not_mem_nil
  | cons y l ih =>
      obtain ⟨hy, hl⟩ := List.nodup_cons.mp h
      rcases List.mem_cons.mp hx with rfl | hx
      · simp
      · have hne : f y ≠ f x := fun e => hy (e ▸ List.mem_map_of_mem hx)
        rw [List.find?_cons_of_neg (by simp [hne])]
        exact ih hl hx

end Cabinet
