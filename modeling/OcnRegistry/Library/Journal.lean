/-
  File:      OcnRegistry/Library/Journal.lean
  Subject:   TABLES THAT KEEP A RECORD OF A LOG. No program fact.

  Of a log, every record has a key, and some records have an entry in the table; a step over a
  record saves its entry under its key, over whatever was there. Where the keys of a log are
  distinct nothing is ever saved over, and the table is the log.

  * `holds_run` -- after a log with distinct keys the table holds the entries of the log, each once,
    and nothing else;
  * `free_before` -- and no key was taken when its record came;
  * `Holds.tells` -- where an entry tells its record, the table tells which records were in the log.
-/
import Mathlib.Data.List.Induction
import Mathlib.Data.List.Nodup
import Mathlib.Logic.Function.Basic

namespace Journal

variable {σ ω κ ε : Type}

/-- **The table is the log**: it holds the entries of the records under their keys, and no
    others. -/
def Holds (key : ω → κ) (entry : ω → Option ε) (log : List ω) (table : κ → Option ε) : Prop :=
  ∀ k e, table k = some e ↔ ∃ w ∈ log, key w = k ∧ entry w = some e

/-- **A step saves the entry** of its record, if there is one, and writes nothing else of the
    table. -/
def Saves [DecidableEq κ] (key : ω → κ) (entry : ω → Option ε) (step : σ → ω → σ)
    (table : σ → κ → Option ε) : Prop :=
  ∀ s w, table (step s w) =
    (entry w).elim (table s) fun e => Function.update (table s) (key w) (some e)

variable {key : ω → κ} {entry : ω → Option ε} {step : σ → ω → σ} {table : σ → κ → Option ε}

theorem holds_nil {t : κ → Option ε} (h : ∀ k, t k = none) : Holds key entry [] t := by
  intro k e
  rw [h k]
  exact ⟨fun h => (by cases h), fun ⟨_, hw, _⟩ => absurd hw List.not_mem_nil⟩

/-- A key no record of the log has is free. -/
theorem Holds.free {log : List ω} {t : κ → Option ε} (h : Holds key entry log t) {k : κ}
    (hk : k ∉ log.map key) : t k = none := by
  cases ht : t k with
  | none => rfl
  | some e =>
      obtain ⟨w, hw, hkey, _⟩ := (h k e).mp ht
      exact absurd (List.mem_map.mpr ⟨w, hw, hkey⟩) hk

/-- **One more record**, under a key no earlier one had. -/
theorem Holds.snoc [DecidableEq κ] (hs : Saves key entry step table) {log : List ω} {s : σ} {w : ω}
    (h : Holds key entry log (table s)) (hnew : key w ∉ log.map key) :
    Holds key entry (log ++ [w]) (table (step s w)) := by
  intro k e
  have hsplit : (∃ v ∈ log ++ [w], key v = k ∧ entry v = some e) ↔
      (∃ v ∈ log, key v = k ∧ entry v = some e) ∨ (key w = k ∧ entry w = some e) := by
    simp only [List.mem_append, List.mem_singleton]
    refine ⟨fun ⟨v, hv, hr⟩ => ?_, fun hr => ?_⟩
    · rcases hv with hv | rfl
      · exact Or.inl ⟨v, hv, hr⟩
      · exact Or.inr hr
    · rcases hr with ⟨v, hv, hr⟩ | hr
      · exact ⟨v, Or.inl hv, hr⟩
      · exact ⟨w, Or.inr rfl, hr⟩
  rw [hsplit, hs s w]
  cases hw : entry w with
  | none =>
      rw [Option.elim_none, h k e]
      exact ⟨Or.inl, fun hr => hr.elim id fun hr => (by cases hr.2)⟩
  | some e' =>
      rw [Option.elim_some]
      by_cases hk : k = key w
      · subst hk
        rw [Function.update_self]
        refine ⟨fun he => Or.inr ⟨rfl, he⟩, fun hr => ?_⟩
        rcases hr with ⟨v, hv, hkey, _⟩ | hr
        · exact absurd (List.mem_map.mpr ⟨v, hv, hkey⟩) hnew
        · exact hr.2
      · rw [Function.update_of_ne hk, h k e]
        exact ⟨Or.inl, fun hr => hr.elim id fun hr => absurd hr.1.symm hk⟩

/-- **The table after a log** with distinct keys. -/
theorem holds_run [DecidableEq κ] (hs : Saves key entry step table) {s : σ}
    (h0 : ∀ k, table s k = none) (log : List ω) (hkeys : (log.map key).Nodup) :
    Holds key entry log (table (log.foldl step s)) := by
  induction log using List.reverseRecOn with
  | nil => exact holds_nil h0
  | append_singleton log w ih =>
      rw [List.map_append, List.map_singleton, List.nodup_append] at hkeys
      obtain ⟨hlog, _, hnew⟩ := hkeys
      rw [List.foldl_append]
      refine (ih hlog).snoc hs fun hmem => ?_
      exact hnew _ hmem _ (List.mem_singleton_self _) rfl

/-- **Nothing is saved over**: the key of a record is free when the record comes. -/
theorem free_before [DecidableEq κ] (hs : Saves key entry step table) {s : σ}
    (h0 : ∀ k, table s k = none) {pre post : List ω} {w : ω}
    (hkeys : ((pre ++ w :: post).map key).Nodup) : table (pre.foldl step s) (key w) = none := by
  rw [List.map_append, List.map_cons, List.nodup_append] at hkeys
  obtain ⟨hpre, _, hnew⟩ := hkeys
  exact (holds_run hs h0 pre hpre).free fun hmem => hnew _ hmem _ List.mem_cons_self rfl

/-- **The table tells the log**: two logs that leave the same table have the same records, as far as
    they have entries and an entry tells its record. -/
theorem Holds.tells {log log' : List ω} {t : κ → Option ε} (h : Holds key entry log t)
    (h' : Holds key entry log' t)
    (htell : ∀ w ∈ log, ∀ w' ∈ log', ∀ e, entry w = some e → entry w' = some e → w = w') {w : ω}
    (hw : (entry w).isSome = true) : w ∈ log ↔ w ∈ log' := by
  obtain ⟨e, he⟩ := Option.isSome_iff_exists.mp hw
  refine ⟨fun hmem => ?_, fun hmem => ?_⟩
  · obtain ⟨w', hw', _, he'⟩ := (h' (key w) e).mp ((h (key w) e).mpr ⟨w, hmem, rfl, he⟩)
    rwa [htell w hmem w' hw' e he he']
  · obtain ⟨w', hw', _, he'⟩ := (h (key w) e).mp ((h' (key w) e).mpr ⟨w, hmem, rfl, he⟩)
    rwa [← htell w' hw' w hmem e he' he]

end Journal
