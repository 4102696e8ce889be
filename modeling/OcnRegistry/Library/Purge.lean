/-
  File:      OcnRegistry/Library/Purge.lean
  Subject:   WHAT AN OBSERVER OF A RUN CAN TELL: unwinding for transactional machines. No program
             fact.

  An observer sends some of the transactions of a run (`mine`), hears their answers, and looks at a
  state up to `same`. If the others' steps do not change what it sees, and its own steps answer
  alike in states it cannot tell apart, then it hears and sees the same when the others' steps are
  taken out of the run, and so in every run with the same steps of its own.

  * `Alike` -- two outcomes with the same answer and states the observer cannot tell apart;
  * `Unwinding.purge` -- a run and its own steps alone;
  * `Unwinding.interleaved` -- two runs with the same steps of its own.
-/
import OcnRegistry.Library.Machine
import Mathlib.Data.Set.Function

namespace Transaction

/-! ## 1. Outcomes -/

/-- **Two outcomes are alike**: refused with one error, or accepted with the same events and related
    states. -/
inductive Alike {σ ε ω : Type} (same : σ → σ → Prop) :
    Except ε (σ × List ω) → Except ε (σ × List ω) → Prop where
  | refused (e : ε) : Alike same (.error e) (.error e)
  | accepted {s s' : σ} (ev : List ω) (h : same s s') : Alike same (.ok (s, ev)) (.ok (s', ev))

namespace Alike

variable {σ ε ω α : Type} {same : σ → σ → Prop}

/-- The same guard in front of both. -/
theorem guard {c : Prop} [Decidable c] {e : ε} {x y : Except ε (σ × List ω)}
    (h : ¬ c → Alike same x y) :
    Alike same (if c then .error e else x) (if c then .error e else y) := by
  by_cases hc : c
  · rw [if_pos hc, if_pos hc]
    exact refused e
  · rw [if_neg hc, if_neg hc]
    exact h hc

/-- The same computation in front of both. -/
theorem bind {r : Except ε α} {f f' : α → Except ε (σ × List ω)}
    (h : ∀ a, r = .ok a → Alike same (f a) (f' a)) : Alike same (r >>= f) (r >>= f') := by
  cases r with
  | error e => exact refused e
  | ok a => exact h a rfl

/-- Two computations that got past their first steps. -/
theorem bind_ok {β : Type} {a : α} {b : β} {f : α → Except ε (σ × List ω)}
    {f' : β → Except ε (σ × List ω)} (h : Alike same (f a) (f' b)) :
    Alike same (Except.ok a >>= f) (Except.ok b >>= f') := h

/-- Alike outcomes, carried on alike. -/
theorem andThen {σ' ω' : Type} {same' : σ' → σ' → Prop} {x y : Except ε (σ × List ω)}
    {f f' : σ × List ω → Except ε (σ' × List ω')} (hxy : Alike same x y)
    (h : ∀ s s' ev, x = .ok (s, ev) → y = .ok (s', ev) → same s s' →
      Alike same' (f (s, ev)) (f' (s', ev))) : Alike same' (x >>= f) (y >>= f') := by
  cases hxy with
  | refused e => exact refused e
  | accepted ev hs => exact h _ _ ev rfl rfl hs

end Alike

/-! ## 2. The observer -/

namespace Machine

variable {σ τ ε ω : Type} (M : Machine σ τ ε ω)

/-- What the sender of a transaction is told. -/
def answer (s : σ) (t : τ) : Except ε (List ω) := (M.exec s t).map Prod.snd

/-- What the sender of the transactions `mine` is told in a run. -/
def answers (mine : τ → Bool) (s : σ) : List τ → List (Except ε (List ω))
  | [] => []
  | t :: ts =>
      if mine t then M.answer s t :: answers mine (M.step s t) ts
      else answers mine (M.step s t) ts

variable {M} {mine : τ → Bool} {s s' : σ} {t : τ} {ts : List τ}

theorem answers_mine (h : mine t = true) :
    M.answers mine s (t :: ts) = M.answer s t :: M.answers mine (M.step s t) ts := by
  rw [answers, if_pos h]

theorem answers_other (h : mine t = false) :
    M.answers mine s (t :: ts) = M.answers mine (M.step s t) ts := by
  rw [answers, h, if_neg Bool.false_ne_true]

variable {same : σ → σ → Prop}

theorem answer_alike (h : Alike same (M.exec s t) (M.exec s' t)) :
    M.answer s t = M.answer s' t := by
  unfold answer
  generalize M.exec s t = r, M.exec s' t = r' at h
  cases h with
  | refused => rfl
  | accepted => rfl

theorem step_alike (h : Alike same (M.exec s t) (M.exec s' t)) (hs : same s s') :
    same (M.step s t) (M.step s' t) := by
  unfold step
  generalize M.exec s t = r, M.exec s' t = r' at h
  cases h with
  | refused => exact hs
  | accepted _ hr => exact hr

/-- **The unwinding conditions** for runs of transactions `T` inside an invariant `I`. -/
structure Unwinding (M : Machine σ τ ε ω) (I : σ → Prop) (T : τ → Prop) (mine : τ → Bool)
    (same : σ → σ → Prop) : Prop where
  equiv : Equivalence same
  keeps : ∀ s t, I s → T t → I (M.step s t)
  silent : ∀ s t, I s → T t → mine t = false → same s (M.step s t)
  alike : ∀ s s' t, I s → I s' → same s s' → T t → mine t = true →
    Alike same (M.exec s t) (M.exec s' t)

section Runs

variable {I : σ → Prop} {T : τ → Prop}

/-- **Purging**: the observer cannot tell a run from its own steps alone. -/
theorem Unwinding.purge (U : Unwinding M I T mine same) (hT : ∀ t ∈ ts, T t) (hs : I s)
    (hs' : I s') (h : same s s') :
    M.answers mine s ts = M.answers mine s' (ts.filter mine) ∧
      same (M.run s ts) (M.run s' (ts.filter mine)) := by
  induction ts generalizing s s' with
  | nil => exact ⟨rfl, h⟩
  | cons t ts ih =>
      have ht := hT t List.mem_cons_self
      have hts : ∀ u ∈ ts, T u := fun u hu => hT u (List.mem_cons_of_mem t hu)
      cases hm : mine t with
      | true =>
          have hout := U.alike s s' t hs hs' h ht hm
          obtain ⟨hans, hrun⟩ := ih hts (U.keeps s t hs ht) (U.keeps s' t hs' ht)
            (step_alike hout h)
          rw [List.filter_cons_of_pos hm, answers_mine hm, answers_mine hm, run_cons, run_cons,
            answer_alike hout, hans]
          exact ⟨rfl, hrun⟩
      | false =>
          have hother := U.equiv.trans (U.equiv.symm (U.silent s t hs ht hm)) h
          have hnot : ¬ mine t = true := by rw [hm]; exact Bool.false_ne_true
          rw [List.filter_cons_of_neg hnot, answers_other hm, run_cons]
          exact ih hts (U.keeps s t hs ht) hs' hother

/-- **Interleaving**: what the observer hears and sees is a function of its own steps. -/
theorem Unwinding.interleaved (U : Unwinding M I T mine same) {us : List τ}
    (hts : ∀ t ∈ ts, T t) (hus : ∀ t ∈ us, T t) (hs : I s)
    (h : ts.filter mine = us.filter mine) :
    M.answers mine s ts = M.answers mine s us ∧ same (M.run s ts) (M.run s us) := by
  obtain ⟨hta, htr⟩ := U.purge hts hs hs (U.equiv.refl s)
  obtain ⟨hua, hur⟩ := U.purge hus hs hs (U.equiv.refl s)
  rw [h] at hta htr
  exact ⟨hta.trans hua.symm, U.equiv.trans htr (U.equiv.symm hur)⟩

end Runs

end Machine

/-! ## 3. Whose a step is -/

section Owners

variable {γ : Type} [DecidableEq γ] {owner : Option γ} {g : γ}

/-- A step with an owner, among those of this owner and of nobody. -/
theorem eq_of_all {g' : γ} (h : owner.all (fun g' => decide (g' = g)) = true)
    (howner : owner = some g') : g' = g := by
  rw [howner] at h
  exact of_decide_eq_true h

/-- The other steps are another owner's. -/
theorem other_of_all (h : owner.all (fun g' => decide (g' = g)) = false) :
    ∃ g', owner = some g' ∧ g' ≠ g := by
  cases owner with
  | none => cases h
  | some g' => exact ⟨g', rfl, of_decide_eq_false h⟩

end Owners

/-! ## 4. Tables seen in part -/

section Tables

variable {α β : Type} [DecidableEq α] {f f' : α → β} {p : Set α} {a : α} {b : β}

/-- An entry the observer does not see. -/
theorem eqOn_update_of_notMem (h : a ∉ p) : Set.EqOn f (Function.update f a b) p := by
  intro c hc
  have hne : c ≠ a := fun e => h (e ▸ hc)
  rw [Function.update_of_ne hne]

/-- An entry in two tables the observer sees alike, the same one where it sees it. -/
theorem eqOn_update_of {b' : β} (h : Set.EqOn f f' p) (hb : a ∈ p → b = b') :
    Set.EqOn (Function.update f a b) (Function.update f' a b') p := by
  intro c hc
  by_cases e : c = a
  · rw [e, Function.update_self, Function.update_self]
    exact hb (e ▸ hc)
  · rw [Function.update_of_ne e, Function.update_of_ne e]
    exact h hc

theorem eqOn_update (h : Set.EqOn f f' p) :
    Set.EqOn (Function.update f a b) (Function.update f' a b) p :=
  eqOn_update_of h fun _ => rfl

variable {q : α → Bool} {z : α}

/-- Blanking an entry of a list, seen without the blanks: the entry is gone. -/
theorem filter_map_blank (xs : List α) (hz : q z = false) :
    (xs.map fun b => if b = a then z else b).filter q =
      (xs.filter q).filter fun b => decide (b ≠ a) := by
  have hblank : ¬ q z = true := by rw [hz]; exact Bool.false_ne_true
  induction xs with
  | nil => rfl
  | cons x xs ih =>
      rw [List.map_cons]
      by_cases hx : x = a
      · rw [if_pos hx, List.filter_cons_of_neg hblank, ih, List.filter_cons]
        split
        · rw [List.filter_cons_of_neg (by simp [hx])]
        · rfl
      · rw [if_neg hx, List.filter_cons, List.filter_cons, ih]
        split
        · rw [List.filter_cons_of_pos (by simp [hx])]
        · rfl

/-- Blanking an entry that is not seen anyway. -/
theorem filter_map_blank_of_not (xs : List α) (hz : q z = false) (h : q a = false) :
    (xs.map fun b => if b = a then z else b).filter q = xs.filter q := by
  rw [filter_map_blank xs hz, List.filter_eq_self]
  intro b hb
  have hne : b ≠ a := by
    intro e
    have hq := (List.mem_filter.mp hb).2
    rw [e, h] at hq
    cases hq
  exact decide_eq_true hne

end Tables

end Transaction
