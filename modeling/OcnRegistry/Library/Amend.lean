/-
  File:      OcnRegistry/Library/Amend.lean
  Subject:   AMENDMENTS: lists of named entries, each amended at the first one of a name. No program
             fact.

  An amendment keeps the name of what it amends. A list is told by the names in their order and, for
  each name, the entries that have it (`eq_of_named`), and that is how amendments are described: the
  first entry of each amended name, and nothing else.

  * `all_isSome` -- amendments succeed exactly if every name is there;
  * `Amended` -- what amendments of different names make of a list; `all_amended`;
  * `Amended.again` -- amending once more changes nothing, where the amendments are idempotent;
  * `Amended.over` -- later amendments of the same names hide earlier ones.
-/
import Mathlib.Data.List.Nodup

namespace Amend

variable {α κ : Type} [DecidableEq κ] (name : α → κ)

/-! ## 1. One amendment -/

/-- The list with its first entry of this name amended, if there is one. -/
def first (k : κ) (f : α → α) : List α → Option (List α)
  | [] => none
  | x :: xs => if name x = k then some (f x :: xs) else (first k f xs).map (x :: ·)

/-- The entries of a name. -/
def named (k : κ) (l : List α) : List α := l.filter fun x => decide (name x = k)

variable {name} {k j : κ} {f : α → α} {x : α} {l l' : List α}

theorem first_cons_self (h : name x = k) : first name k f (x :: l) = some (f x :: l) := by
  simp [first, h]

theorem first_cons_other (h : name x ≠ k) :
    first name k f (x :: l) = (first name k f l).map (x :: ·) := by
  simp [first, h]

theorem named_cons_self (h : name x = k) : named name k (x :: l) = x :: named name k l := by
  simp [named, h]

theorem named_cons_other (h : name x ≠ k) : named name k (x :: l) = named name k l := by
  simp [named, h]

theorem first_isSome : (first name k f l).isSome = true ↔ ∃ x ∈ l, name x = k := by
  induction l with
  | nil => simp [first]
  | cons x l ih =>
      by_cases h : name x = k
      · simp [first_cons_self h, h]
      · rw [first_cons_other h, Option.isSome_map, ih]
        simp [h]

section First

variable (hkeep : ∀ x, name (f x) = name x) (hfirst : first name k f l = some l')
include hfirst hkeep

/-- **One amendment**: the names stay, the first entry of the name is amended, the entries of other
    names stay. -/
theorem first_amended : l'.map name = l.map name ∧
    named name k l' = (named name k l).modifyHead f ∧
    ∀ j, j ≠ k → named name j l' = named name j l := by
  induction l generalizing l' with
  | nil => cases hfirst
  | cons x l ih =>
      by_cases h : name x = k
      · rw [first_cons_self h] at hfirst
        obtain rfl := Option.some.inj hfirst
        have hf : name (f x) = k := (hkeep x).trans h
        refine ⟨by simp [hkeep], ?_, fun j hj => ?_⟩
        · rw [named_cons_self hf, named_cons_self h, List.modifyHead_cons]
        · have hne : name x ≠ j := fun e => hj (e.symm.trans h)
          have hnef : name (f x) ≠ j := fun e => hj (e.symm.trans hf)
          rw [named_cons_other hne, named_cons_other hnef]
      · rw [first_cons_other h] at hfirst
        obtain ⟨rest, hrest, rfl⟩ := Option.map_eq_some_iff.mp hfirst
        obtain ⟨hnames, hself, hother⟩ := ih hrest
        refine ⟨by rw [List.map_cons, List.map_cons, hnames], ?_, fun j hj => ?_⟩
        · rw [named_cons_other h, named_cons_other h, hself]
        · by_cases hx : name x = j
          · rw [named_cons_self hx, named_cons_self hx, hother j hj]
          · rw [named_cons_other hx, named_cons_other hx, hother j hj]

end First

/-! ## 2. Lists by their names -/

/-- **A list is told by its names and the entries of each.** -/
theorem eq_of_named (hnames : l'.map name = l.map name)
    (h : ∀ k, named name k l' = named name k l) : l' = l := by
  induction l generalizing l' with
  | nil => exact List.map_eq_nil_iff.mp hnames
  | cons x l ih =>
      cases l' with
      | nil => cases hnames
      | cons x' l' =>
          rw [List.map_cons, List.map_cons] at hnames
          obtain ⟨hname, hrest⟩ := List.cons.inj hnames
          have hx := h (name x)
          rw [named_cons_self rfl, named_cons_self hname] at hx
          obtain ⟨rfl, -⟩ := List.cons.inj hx
          refine congrArg (x' :: ·) (ih hrest fun k => ?_)
          have hk := h k
          by_cases e : name x' = k
          · rw [named_cons_self e, named_cons_self e] at hk
            exact (List.cons.inj hk).2
          · rwa [named_cons_other e, named_cons_other e] at hk

/-! ## 3. Amendments one after the other -/

/-- Amendments, each of the first entry of its name. -/
def all (name : α → κ) : List (κ × (α → α)) → List α → Option (List α)
  | [], l => some l
  | a :: as, l => (first name a.1 a.2 l).bind (all name as)

/-- **What amendments make of a list.** -/
structure Amended (name : α → κ) (as : List (κ × (α → α))) (l l' : List α) : Prop where
  names : l'.map name = l.map name
  amended : ∀ a ∈ as, named name a.1 l' = (named name a.1 l).modifyHead a.2
  others : ∀ k, k ∉ as.map Prod.fst → named name k l' = named name k l

variable {as : List (κ × (α → α))}

omit [DecidableEq κ] in
theorem mem_names_iff (h : l'.map name = l.map name) :
    (∃ x ∈ l', name x = k) ↔ ∃ x ∈ l, name x = k := by
  rw [← List.mem_map, ← List.mem_map, h]

/-- Amendments succeed exactly if every name is there. -/
theorem all_isSome (hkeep : ∀ a ∈ as, ∀ x, name (a.2 x) = name x) :
    (all name as l).isSome = true ↔ ∀ a ∈ as, ∃ x ∈ l, name x = a.1 := by
  induction as generalizing l with
  | nil => simp [all]
  | cons a as ih =>
      have hkeeps : ∀ b ∈ as, ∀ x, name (b.2 x) = name x := fun b hb =>
        hkeep b (List.mem_cons_of_mem a hb)
      rw [List.forall_mem_cons, ← first_isSome (f := a.2)]
      cases hfirst : first name a.1 a.2 l with
      | none => simp [all, hfirst]
      | some m =>
          have hm := (first_amended (hkeep a List.mem_cons_self) hfirst).1
          rw [all, hfirst, Option.bind_some, ih hkeeps]
          simp [mem_names_iff hm]

/-- **Amendments of different names**, told name by name. -/
theorem all_amended (hkeep : ∀ a ∈ as, ∀ x, name (a.2 x) = name x)
    (honce : (as.map Prod.fst).Nodup) (hall : all name as l = some l') :
    Amended name as l l' := by
  induction as generalizing l with
  | nil =>
      obtain rfl := Option.some.inj hall
      exact ⟨rfl, fun a ha => absurd ha List.not_mem_nil, fun k _ => rfl⟩
  | cons a as ih =>
      obtain ⟨m, hfirst, hrest⟩ := Option.bind_eq_some_iff.mp hall
      obtain ⟨hnew, honce⟩ := List.nodup_cons.mp honce
      obtain ⟨hnames, hself, hother⟩ := first_amended (hkeep a List.mem_cons_self) hfirst
      have htail := ih (fun b hb => hkeep b (List.mem_cons_of_mem a hb)) honce hrest
      refine ⟨htail.names.trans hnames, fun b hb => ?_, fun k hk => ?_⟩
      · rcases List.mem_cons.mp hb with rfl | hb
        · rw [htail.others b.1 hnew, hself]
        · have hne : b.1 ≠ a.1 := fun e => hnew (e ▸ List.mem_map_of_mem hb)
          rw [htail.amended b hb, hother b.1 hne]
      · rw [List.map_cons, List.mem_cons, not_or] at hk
        rw [htail.others k hk.2, hother k hk.1]

/-- **Amending once more** changes nothing, where every amendment is idempotent. -/
theorem Amended.again (h : Amended name as l l') (hkeep : ∀ a ∈ as, ∀ x, name (a.2 x) = name x)
    (honce : (as.map Prod.fst).Nodup) (hidem : ∀ a ∈ as, ∀ x, a.2 (a.2 x) = a.2 x)
    (hall : (all name as l).isSome = true) : all name as l' = some l' := by
  have hthere : (all name as l').isSome = true := by
    rw [all_isSome hkeep] at hall ⊢
    exact fun a ha => (mem_names_iff h.names).mpr (hall a ha)
  obtain ⟨l'', hl''⟩ := Option.isSome_iff_exists.mp hthere
  have h' := all_amended hkeep honce hl''
  rw [hl'', eq_of_named h'.names fun k => ?_]
  by_cases hk : k ∈ as.map Prod.fst
  · obtain ⟨a, ha, rfl⟩ := List.mem_map.mp hk
    rw [h'.amended a ha, h.amended a ha]
    cases named name a.1 l with
    | nil => rfl
    | cons x xs => simp [hidem a ha]
  · exact h'.others k hk

/-- **Later amendments** of the same names hide earlier ones. -/
theorem Amended.over {bs : List (κ × (α → α))} {l'' : List α} (h : Amended name as l l')
    (h' : Amended name bs l' l'') (hnames : as.map Prod.fst = bs.map Prod.fst)
    (hides : ∀ a ∈ as, ∀ b ∈ bs, ∀ x, b.2 (a.2 x) = b.2 x) : Amended name bs l l'' := by
  refine ⟨h'.names.trans h.names, fun b hb => ?_, fun k hk => ?_⟩
  · obtain ⟨a, ha, hab⟩ := List.mem_map.mp (hnames ▸ List.mem_map_of_mem (f := Prod.fst) hb)
    rw [h'.amended b hb, ← hab, h.amended a ha]
    cases named name a.1 l with
    | nil => rfl
    | cons x xs => simp [hides a ha b hb]
  · rw [h'.others k hk, h.others k (hnames ▸ hk)]

end Amend
