/-
  File:      OcnRegistry/Library/Machine.lean
  Subject:   TRANSACTIONAL MACHINES AND THEIR RUNS. No program fact.

  A transaction either fails, and then the state is the one before it, or succeeds with a next
  state and the events it emitted. A run is a list of transactions, so a property of every
  reachable state is a property of `run s ts` for every list `ts`, and a property of every step
  is one of `run s pre` and `t` for every split `pre ++ t :: post`.

  * `run_invariant` -- what every successful step preserves holds at the end of the run; the
    steps may be assumed to meet a condition on the state they start in (`Along`);
  * `throughout_iff_along` -- where a step preserves `I` exactly when it meets `C`, a run stays
    inside `I` exactly when all its steps meet `C`;
  * `run_iff_along` -- and if `I`, once lost, is never regained, the last state alone tells;
  * `exists_flip`, `exists_last_flip` -- a property that is false at the start and true at the end
    was made true by one step in between, and by one after which it stayed true;
  * `exists_last` -- a run with a step of some kind has a last one;
  * `history_invariant` -- what every successful step preserves of the events so far and the state;
    `history_throughout_iff_along` -- the exact condition for such a relation to hold all along;
  * `run_projects` -- a run of a machine with a part that takes its own steps is a run of the part;
  * `run_simulated` -- a machine whose every step is a run of another has only runs of the other;
  * `script_append`, `script_invariant` -- a script stops at its first refused transaction.
-/

namespace Transaction

/-- **A transactional machine** over states `σ`, transactions `τ`, errors `ε` and events `ω`. -/
structure Machine (σ τ ε ω : Type) where
  exec : σ → τ → Except ε (σ × List ω)

namespace Machine

variable {σ τ ε ω : Type} (M : Machine σ τ ε ω)

/-! ## 1. Steps and runs -/

/-- The transaction succeeds in this state. -/
def Accepts (s : σ) (t : τ) : Prop := ∃ r, M.exec s t = .ok r

/-- The state after a transaction: a failed one leaves it as it was. -/
def step (s : σ) (t : τ) : σ :=
  match M.exec s t with
  | .ok r => r.1
  | .error _ => s

/-- The events of a transaction: a failed one emits none. -/
def emitted (s : σ) (t : τ) : List ω :=
  match M.exec s t with
  | .ok r => r.2
  | .error _ => []

/-- The state after a list of transactions, the first one first. -/
def run (s : σ) : List τ → σ
  | [] => s
  | t :: ts => run (M.step s t) ts

/-- The events of a run, the first one first: those of its successful transactions. -/
def history (s : σ) : List τ → List ω
  | [] => []
  | t :: ts => M.emitted s t ++ history (M.step s t) ts

/-- Every step of the run meets `C` in the state it starts from. -/
def Along (C : σ → τ → Prop) (s : σ) : List τ → Prop
  | [] => True
  | t :: ts => C s t ∧ Along C (M.step s t) ts

/-- Every state of the run, the first and the last included, satisfies `I`. -/
def Throughout (I : σ → Prop) (s : σ) (ts : List τ) : Prop :=
  ∀ pre post, ts = pre ++ post → I (M.run s pre)

variable {M}

theorem step_ok {s s' : σ} {t : τ} {ev : List ω} (h : M.exec s t = .ok (s', ev)) :
    M.step s t = s' := by
  simp only [step, h]

theorem step_error {s : σ} {t : τ} {e : ε} (h : M.exec s t = .error e) : M.step s t = s := by
  simp only [step, h]

theorem emitted_ok {s s' : σ} {t : τ} {ev : List ω} (h : M.exec s t = .ok (s', ev)) :
    M.emitted s t = ev := by
  simp only [emitted, h]

theorem emitted_error {s : σ} {t : τ} {e : ε} (h : M.exec s t = .error e) :
    M.emitted s t = [] := by
  simp only [emitted, h]

/-- A step changes nothing or is a successful one. -/
theorem step_cases (M : Machine σ τ ε ω) (s : σ) (t : τ) :
    M.step s t = s ∨ ∃ s' ev, M.exec s t = .ok (s', ev) ∧ M.step s t = s' := by
  cases h : M.exec s t with
  | error e => exact Or.inl (step_error h)
  | ok r => exact Or.inr ⟨r.1, r.2, rfl, step_ok h⟩

/-- What every successful outcome has and the state before had, the state after has. -/
theorem step_preserves {I : σ → Prop} {s : σ} {t : τ} (h0 : I s)
    (h : ∀ s' ev, M.exec s t = .ok (s', ev) → I s') : I (M.step s t) := by
  rcases step_cases M s t with hs | ⟨s', ev, hok, hs⟩
  · rw [hs]
    exact h0
  · rw [hs]
    exact h s' ev hok

theorem step_eq_of_not_accepts {s : σ} {t : τ} (h : ¬ M.Accepts s t) : M.step s t = s := by
  rcases step_cases M s t with hs | ⟨s', ev, hok, _⟩
  · exact hs
  · exact absurd ⟨_, hok⟩ h

@[simp] theorem run_nil (s : σ) : M.run s [] = s := rfl

@[simp] theorem run_cons (s : σ) (t : τ) (ts : List τ) :
    M.run s (t :: ts) = M.run (M.step s t) ts := rfl

theorem run_append (s : σ) (pre post : List τ) :
    M.run s (pre ++ post) = M.run (M.run s pre) post := by
  induction pre generalizing s with
  | nil => rfl
  | cons t pre ih => exact ih (M.step s t)

/-! ## 2. Conditions along a run -/

section Conditions

variable {C C' : σ → τ → Prop} {I J : σ → Prop}

theorem along_append {s : σ} {pre post : List τ} :
    M.Along C s (pre ++ post) ↔ M.Along C s pre ∧ M.Along C (M.run s pre) post := by
  induction pre generalizing s with
  | nil => exact ⟨fun h => ⟨trivial, h⟩, fun h => h.2⟩
  | cons t pre ih =>
      refine ⟨fun h => ?_, fun hall => ?_⟩
      · obtain ⟨hpre, hpost⟩ := ih.mp h.2
        exact ⟨⟨h.1, hpre⟩, hpost⟩
      · obtain ⟨⟨ht, hpre⟩, hpost⟩ := hall
        exact ⟨ht, ih.mpr ⟨hpre, hpost⟩⟩

/-- A condition that does not look at the state may be checked transaction by transaction. -/
theorem along_of_forall {s : σ} {ts : List τ} (h : ∀ t ∈ ts, ∀ s, C s t) : M.Along C s ts := by
  induction ts generalizing s with
  | nil => trivial
  | cons t ts ih =>
      exact ⟨h t List.mem_cons_self s, ih fun u hu => h u (List.mem_cons_of_mem t hu)⟩

theorem along_mono {s : σ} {ts : List τ} (hC : ∀ s t, C s t → C' s t) (h : M.Along C s ts) :
    M.Along C' s ts := by
  induction ts generalizing s with
  | nil => trivial
  | cons t ts ih => exact ⟨hC s t h.1, ih h.2⟩

theorem along_and {s : σ} {ts : List τ} :
    M.Along (fun s t => C s t ∧ C' s t) s ts ↔ M.Along C s ts ∧ M.Along C' s ts := by
  induction ts generalizing s with
  | nil => exact ⟨fun _ => ⟨trivial, trivial⟩, fun _ => trivial⟩
  | cons t ts ih =>
      refine ⟨fun h => ?_, fun h => ⟨⟨h.1.1, h.2.1⟩, ih.mpr ⟨h.1.2, h.2.2⟩⟩⟩
      obtain ⟨hC, hC'⟩ := ih.mp h.2
      exact ⟨⟨h.1.1, hC⟩, ⟨h.1.2, hC'⟩⟩

/-- Inside an invariant, a condition may be replaced by one that says the same there. -/
theorem along_congr (hJ : ∀ s t, I s → I (M.step s t)) (h : ∀ s t, I s → (C s t ↔ C' s t)) {s : σ}
    (ts : List τ) (hs : I s) : M.Along C s ts ↔ M.Along C' s ts := by
  induction ts generalizing s with
  | nil => exact Iff.rfl
  | cons t ts ih => exact and_congr (h s t hs) (ih (hJ s t hs))

theorem throughout_tail {s : σ} {t : τ} {ts : List τ} (h : M.Throughout I s (t :: ts)) :
    M.Throughout I (M.step s t) ts := by
  intro pre post e
  exact h (t :: pre) post (by rw [e, List.cons_append])

/-! ## 3. The run rules -/

/-- **The invariant rule**: what every step that meets `C` preserves holds at the end of a run whose
    steps all meet `C`. -/
theorem run_invariant_of_step (hstep : ∀ s t, I s → C s t → I (M.step s t)) {s : σ} {ts : List τ}
    (hC : M.Along C s ts) (h0 : I s) : I (M.run s ts) := by
  induction ts generalizing s with
  | nil => exact h0
  | cons t ts ih => exact ih hC.2 (hstep s t h0 hC.1)

/-- The invariant rule where only the successful steps need a proof. -/
theorem run_invariant
    (hstep : ∀ s t s' ev, I s → C s t → M.exec s t = .ok (s', ev) → I s')
    {s : σ} {ts : List τ} (hC : M.Along C s ts) (h0 : I s) : I (M.run s ts) :=
  run_invariant_of_step
    (fun s t hI ht => step_preserves hI fun s' ev hok => hstep s t s' ev hI ht hok) hC h0

/-- The invariant rule without a condition on the steps. -/
theorem run_invariant_all (hstep : ∀ s t s' ev, I s → M.exec s t = .ok (s', ev) → I s')
    {s : σ} (ts : List τ) (h0 : I s) : I (M.run s ts) :=
  run_invariant (C := fun _ _ => True) (fun s t s' ev hI _ => hstep s t s' ev hI)
    (along_of_forall fun _ _ _ => trivial) h0

/-- If `I` can only be kept by steps that meet `C`, a run inside `I` meets `C` all along. -/
theorem along_of_throughout (hC : ∀ s t, I (M.step s t) → C s t) {s : σ} {ts : List τ}
    (h : M.Throughout I s ts) : M.Along C s ts := by
  induction ts generalizing s with
  | nil => trivial
  | cons t ts ih => exact ⟨hC s t (h [t] ts rfl), ih (throughout_tail h)⟩

/-- **Exact conditions, with an invariant of the good runs**: where `K` implies `I`, steps that meet
    `C` keep `K`, and from `K` only such steps keep `I`, a run from `K` stays in `I` exactly if all
    its steps meet `C`. Only the steps of the run need to behave so, which all meet `G`. -/
theorem throughout_iff_along_given {K : σ → Prop} {G : σ → τ → Prop} (hI : ∀ s, K s → I s)
    (hC : ∀ s t, G s t → K s → I (M.step s t) → C s t)
    (hK : ∀ s t, G s t → K s → C s t → K (M.step s t)) {s : σ} {ts : List τ}
    (hG : M.Along G s ts) (hs : K s) : M.Throughout I s ts ↔ M.Along C s ts := by
  induction ts generalizing s with
  | nil =>
      refine ⟨fun _ => trivial, fun _ pre post e => ?_⟩
      obtain ⟨rfl, rfl⟩ := List.append_eq_nil_iff.mp e.symm
      exact hI s hs
  | cons t ts ih =>
      obtain ⟨htG, htsG⟩ := hG
      refine ⟨fun h => ?_, fun hall pre post e => ?_⟩
      · have ht : C s t := hC s t htG hs (h [t] ts rfl)
        exact ⟨ht, (ih htsG (hK s t htG hs ht)).mp (throughout_tail h)⟩
      · obtain ⟨ht, hts⟩ := hall
        cases pre with
        | nil => exact hI s hs
        | cons u pre =>
            obtain ⟨rfl, e'⟩ := List.cons.inj e
            exact (ih htsG (hK s t htG hs ht)).mpr hts pre post e'

/-- The same where it is the transactions of the run (`T`) that behave so. -/
theorem throughout_iff_along_within {K : σ → Prop} {T : τ → Prop} (hI : ∀ s, K s → I s)
    (hC : ∀ s t, T t → K s → I (M.step s t) → C s t)
    (hK : ∀ s t, T t → K s → C s t → K (M.step s t)) {s : σ} (ts : List τ) (hT : ∀ t ∈ ts, T t)
    (hs : K s) : M.Throughout I s ts ↔ M.Along C s ts :=
  throughout_iff_along_given (G := fun _ t => T t) hI hC hK
    (along_of_forall fun t ht _ => hT t ht) hs

/-- The same for any transactions. -/
theorem throughout_iff_along_of {K : σ → Prop} (hI : ∀ s, K s → I s)
    (hC : ∀ s t, K s → I (M.step s t) → C s t) (hK : ∀ s t, K s → C s t → K (M.step s t))
    {s : σ} (ts : List τ) (hs : K s) : M.Throughout I s ts ↔ M.Along C s ts :=
  throughout_iff_along_within (T := fun _ => True) hI (fun s t _ => hC s t) (fun s t _ => hK s t) ts
    (fun _ _ => trivial) hs

/-- **Exact conditions, over all states**: where, inside `J`, a step keeps `I` exactly when it
    meets `C`, a run stays in `I` exactly when all its steps meet `C`. -/
theorem throughout_iff_along (hJ : ∀ s t, J s → J (M.step s t))
    (hI : ∀ s t, J s → I s → (I (M.step s t) ↔ C s t)) {s : σ} (ts : List τ) (hJs : J s)
    (hIs : I s) : M.Throughout I s ts ↔ M.Along C s ts :=
  throughout_iff_along_of (K := fun s => J s ∧ I s) (fun _ h => h.2)
    (fun s t h hIt => (hI s t h.1 h.2).mp hIt)
    (fun s t h ht => ⟨hJ s t h.1, (hI s t h.1 h.2).mpr ht⟩) ts ⟨hJs, hIs⟩

/-- **Exact conditions, at the last state**: if in addition `I` is never regained, the last state
    satisfies `I` exactly when all steps met `C`. -/
theorem run_iff_along (hJ : ∀ s t, J s → J (M.step s t))
    (hI : ∀ s t, J s → I s → (I (M.step s t) ↔ C s t))
    (hlost : ∀ s t, J s → ¬ I s → ¬ I (M.step s t)) {s : σ} (ts : List τ) (hJs : J s)
    (hIs : I s) : I (M.run s ts) ↔ M.Along C s ts := by
  have hgone : ∀ (ts : List τ) (s : σ), J s → ¬ I s → ¬ I (M.run s ts) := by
    intro ts
    induction ts with
    | nil => exact fun _ _ h => h
    | cons t ts ih => exact fun s hJs h => ih _ (hJ s t hJs) (hlost s t hJs h)
  induction ts generalizing s with
  | nil => exact ⟨fun _ => trivial, fun _ => hIs⟩
  | cons t ts ih =>
      refine ⟨fun h => ?_, fun hall => ?_⟩
      · have hIt : I (M.step s t) :=
          Classical.byContradiction fun hn => hgone ts _ (hJ s t hJs) hn h
        exact ⟨(hI s t hJs hIs).mp hIt, (ih (hJ s t hJs) hIt).mp h⟩
      · obtain ⟨ht, hts⟩ := hall
        exact (ih (hJ s t hJs) ((hI s t hJs hIs).mpr ht)).mpr hts

end Conditions

/-- **One step made it true**: a property false at the start of a run and true at its end turned
    true at one step. -/
theorem exists_flip {Q : σ → Prop} {s : σ} {ts : List τ} (h0 : ¬ Q s) (h1 : Q (M.run s ts)) :
    ∃ pre t post, ts = pre ++ t :: post ∧ ¬ Q (M.run s pre) ∧ Q (M.step (M.run s pre) t) := by
  induction ts generalizing s with
  | nil => exact absurd h1 h0
  | cons t ts ih =>
      by_cases hQ : Q (M.step s t)
      · exact ⟨[], t, ts, rfl, h0, hQ⟩
      · obtain ⟨pre, u, post, e, hpre, hpost⟩ := ih hQ h1
        exact ⟨t :: pre, u, post, by rw [e, List.cons_append], hpre, hpost⟩

/-- **One step made it true for good**: a property false in some state of a run and true at its
    end turned true at one step and was true in every state after it. -/
theorem exists_last_flip {Q : σ → Prop} {s : σ} {ts : List τ} (h0 : ¬ M.Throughout Q s ts)
    (h1 : Q (M.run s ts)) :
    ∃ pre t post, ts = pre ++ t :: post ∧ ¬ Q (M.run s pre) ∧
      M.Throughout Q (M.step (M.run s pre) t) post := by
  induction ts generalizing s with
  | nil =>
      refine absurd (fun pre post e => ?_) h0
      obtain ⟨rfl, rfl⟩ := List.append_eq_nil_iff.mp e.symm
      exact h1
  | cons t ts ih =>
      by_cases htail : M.Throughout Q (M.step s t) ts
      · -- every later state has the property, so the false one is the first
        refine ⟨[], t, ts, rfl, fun hs => h0 fun pre post e => ?_, htail⟩
        cases pre with
        | nil => exact hs
        | cons u pre =>
            obtain ⟨rfl, e'⟩ := List.cons.inj e
            exact htail pre post e'
      · obtain ⟨pre, u, post, e, hpre, hpost⟩ := ih htail h1
        exact ⟨t :: pre, u, post, by rw [e, List.cons_append], hpre, hpost⟩

/-- **The last step of a kind**: a run in which some step is of kind `W` has a last one. -/
theorem exists_last {W : σ → τ → Prop} {s : σ} {ts : List τ}
    (h : ¬ M.Along (fun s t => ¬ W s t) s ts) :
    ∃ pre t post, ts = pre ++ t :: post ∧ W (M.run s pre) t ∧
      M.Along (fun s t => ¬ W s t) (M.step (M.run s pre) t) post := by
  induction ts generalizing s with
  | nil => exact absurd trivial h
  | cons t ts ih =>
      by_cases htail : M.Along (fun s t => ¬ W s t) (M.step s t) ts
      · exact ⟨[], t, ts, rfl, Classical.byContradiction fun hW => h ⟨hW, htail⟩, htail⟩
      · obtain ⟨pre, u, post, e, hpre, hpost⟩ := ih htail
        exact ⟨t :: pre, u, post, by rw [e, List.cons_append], hpre, hpost⟩

/-! ## 4. Histories -/

theorem history_append (s : σ) (pre post : List τ) :
    M.history s (pre ++ post) = M.history s pre ++ M.history (M.run s pre) post := by
  induction pre generalizing s with
  | nil => rfl
  | cons t pre ih =>
      rw [List.cons_append, history, history, run_cons, ih, List.append_assoc]

/-- **The invariant rule with a history**: a relation between the events so far and the state that
    every successful step that meets `C` keeps holds of the events and the last state of every run
    whose steps all meet `C`. -/
theorem history_invariant_of_step {I : List ω → σ → Prop} {C : σ → τ → Prop}
    (hstep : ∀ h s t s' ev, I h s → C s t → M.exec s t = .ok (s', ev) → I (h ++ ev) s')
    {s : σ} {ts : List τ} (hC : M.Along C s ts) (h0 : I [] s) :
    I (M.history s ts) (M.run s ts) := by
  suffices hall : ∀ (ts : List τ) (h : List ω) (s : σ), M.Along C s ts → I h s →
      I (h ++ M.history s ts) (M.run s ts) from hall ts [] s hC h0
  intro ts
  induction ts with
  | nil => exact fun h s _ hI => by rwa [history, List.append_nil]
  | cons t ts ih =>
      intro h s hC hI
      rw [history, run_cons, ← List.append_assoc]
      refine ih _ _ hC.2 ?_
      cases hok : M.exec s t with
      | error e => rwa [step_error hok, emitted_error hok, List.append_nil]
      | ok r =>
          obtain ⟨s', ev⟩ := r
          rw [step_ok hok, emitted_ok hok]
          exact hstep h s t s' ev hI hC.1 hok

/-- The invariant rule with a history, without a condition on the steps. -/
theorem history_invariant {I : List ω → σ → Prop}
    (hstep : ∀ h s t s' ev, I h s → M.exec s t = .ok (s', ev) → I (h ++ ev) s')
    {s : σ} (ts : List τ) (h0 : I [] s) : I (M.history s ts) (M.run s ts) :=
  history_invariant_of_step (C := fun _ _ => True) (fun h s t s' ev hI _ => hstep h s t s' ev hI)
    (along_of_forall fun _ _ _ => trivial) h0

/-- **Exact conditions, with a history**: where, inside `J`, a step keeps a relation between the
    events so far and the state exactly when it meets `C`, the relation holds all along a run
    exactly when all its steps meet `C`. -/
theorem history_throughout_iff_along {I : List ω → σ → Prop} {J : σ → Prop} {C : σ → τ → Prop}
    (hJ : ∀ s t, J s → J (M.step s t))
    (hstep : ∀ h s t, J s → I h s → (I (h ++ M.emitted s t) (M.step s t) ↔ C s t)) {s : σ}
    (ts : List τ) (hs : J s) (h0 : I [] s) :
    (∀ pre post, ts = pre ++ post → I (M.history s pre) (M.run s pre)) ↔ M.Along C s ts := by
  suffices hall : ∀ (ts : List τ) (h : List ω) (s : σ), J s → I h s →
      ((∀ pre post, ts = pre ++ post → I (h ++ M.history s pre) (M.run s pre)) ↔
        M.Along C s ts) from hall ts [] s hs h0
  intro ts
  induction ts with
  | nil =>
      refine fun h s _ hI => iff_of_true (fun pre post e => ?_) trivial
      obtain ⟨rfl, rfl⟩ := List.append_eq_nil_iff.mp e.symm
      rwa [history, List.append_nil]
  | cons t ts ih =>
      intro h s hs hI
      have htail : ∀ pre, h ++ M.history s (t :: pre) =
          (h ++ M.emitted s t) ++ M.history (M.step s t) pre := fun pre => by
        rw [history, List.append_assoc]
      refine ⟨fun hrun => ?_, fun hall pre post e => ?_⟩
      · have hfirst := hrun [t] ts rfl
        rw [htail, history, List.append_nil] at hfirst
        refine ⟨(hstep h s t hs hI).mp hfirst, (ih _ _ (hJ s t hs) hfirst).mp ?_⟩
        intro pre post e
        rw [← htail]
        exact hrun (t :: pre) post (by rw [e, List.cons_append])
      · cases pre with
        | nil => rwa [history, List.append_nil]
        | cons u pre =>
            obtain ⟨rfl, e'⟩ := List.cons.inj e
            rw [htail]
            exact (ih _ _ (hJ s t hs) ((hstep h s t hs hI).mpr hall.1)).mpr hall.2 pre post e'

/-- **Components**: if every step of the whole is a step of the part `f` or leaves it alone, then
    the part of a reachable state is a reachable state of the part. -/
theorem run_projects {σ' τ' ε' ω' : Type} {N : Machine σ' τ' ε' ω'} (f : σ → σ')
    (h : ∀ s t, f (M.step s t) = f s ∨ ∃ u, f (M.step s t) = N.step (f s) u) (s : σ)
    (ts : List τ) : ∃ us, f (M.run s ts) = N.run (f s) us := by
  induction ts generalizing s with
  | nil => exact ⟨[], rfl⟩
  | cons t ts ih =>
      obtain ⟨us, hus⟩ := ih (M.step s t)
      rcases h s t with e | ⟨u, e⟩
      · exact ⟨us, by rw [run_cons, hus, e]⟩
      · exact ⟨u :: us, by rw [run_cons, hus, e, run_cons]⟩

/-- A transaction that only runs one of a part and puts its state back steps as the part does. -/
theorem step_of_part {σ' τ' ω' : Type} {N : Machine σ' τ' ε ω'} {s : σ} {t : τ} {n : σ'} {u : τ'}
    (put : σ' → σ) (tag : List ω' → List ω)
    (h : M.exec s t = (do let (n', ev) ← N.exec n u; .ok (put n', tag ev))) (hput : put n = s) :
    M.step s t = put (N.step n u) := by
  cases hpart : N.exec n u with
  | error e =>
      rw [hpart] at h
      rw [step_error h, step_error hpart, hput]
  | ok r =>
      obtain ⟨n', ev⟩ := r
      rw [hpart] at h
      rw [step_ok h, step_ok hpart]

/-- **Forward simulation**: if every step of one machine is matched by a run of another that emits
    the same events and restores `R`, then so is every run. -/
theorem run_simulated {σ' τ' ε' : Type} {N : Machine σ' τ' ε' ω} {R : σ → σ' → Prop}
    (h : ∀ s n t, R s n → ∃ us, R (M.step s t) (N.run n us) ∧ N.history n us = M.emitted s t)
    {s : σ} {n : σ'} (ts : List τ) (h0 : R s n) :
    ∃ us, R (M.run s ts) (N.run n us) ∧ N.history n us = M.history s ts := by
  induction ts generalizing s n with
  | nil => exact ⟨[], h0, rfl⟩
  | cons t ts ih =>
      obtain ⟨us, hR, hev⟩ := h s n t h0
      obtain ⟨us', hR', hev'⟩ := ih hR
      refine ⟨us ++ us', ?_, ?_⟩
      · rw [run_append, run_cons]
        exact hR'
      · rw [history_append, hev, hev']
        rfl

/-! ## 5. Scripts -/

/-- **A script**: transactions one after the other, up to the first that is refused. The state it
    leaves, and whether it came to its end. -/
def script (M : Machine σ τ ε ω) (s : σ) : List τ → σ × Bool
  | [] => (s, true)
  | t :: ts =>
      match M.exec s t with
      | .ok r => M.script r.1 ts
      | .error _ => (s, false)

section Scripts

variable {s s' : σ} {t : τ} {ts : List τ} {ev : List ω}

theorem script_ok (h : M.exec s t = .ok (s', ev)) : M.script s (t :: ts) = M.script s' ts := by
  simp only [script, h]

theorem script_refused (h : ¬ M.Accepts s t) : M.script s (t :: ts) = (s, false) := by
  cases hexec : M.exec s t with
  | ok r => exact absurd ⟨r, hexec⟩ h
  | error e => simp only [script, hexec]

/-- A script in two parts: the second starts if the first comes to its end. -/
theorem script_append (s : σ) (pre post : List τ) : M.script s (pre ++ post) =
    if (M.script s pre).2 = true then M.script (M.script s pre).1 post else M.script s pre := by
  induction pre generalizing s with
  | nil => rfl
  | cons t pre ih =>
      rw [List.cons_append]
      by_cases hacc : M.Accepts s t
      · obtain ⟨⟨s', ev⟩, hok⟩ := hacc
        rw [script_ok hok, script_ok hok, ih]
      · rw [script_refused hacc, script_refused hacc]
        rfl

/-- **The invariant rule for scripts**: what every accepted transaction of the script keeps holds
    wherever it stops. -/
theorem script_invariant {I : σ → Prop}
    (hstep : ∀ s, ∀ t ∈ ts, ∀ s' ev, I s → M.exec s t = .ok (s', ev) → I s') (h0 : I s) :
    I (M.script s ts).1 := by
  induction ts generalizing s with
  | nil => exact h0
  | cons t ts ih =>
      by_cases hacc : M.Accepts s t
      · obtain ⟨⟨s', ev⟩, hok⟩ := hacc
        rw [script_ok hok]
        exact ih (fun s u hu => hstep s u (List.mem_cons_of_mem t hu))
          (hstep s t List.mem_cons_self s' ev h0 hok)
      · rw [script_refused hacc]
        exact h0

end Scripts

end Machine

end Transaction
