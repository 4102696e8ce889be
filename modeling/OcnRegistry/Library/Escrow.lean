/-
  File:      OcnRegistry/Library/Escrow.lean
  Subject:   AN ACCOUNT THAT TAKES ONE DEPOSIT AT A TIME AND GIVES IT BACK AS A WHOLE, after a
             waiting period. No program fact.

  The account knows two numbers, what it holds and when that came in; `Kept` says which histories
  of movements lead to which account. A deposit needs an empty account, a withdrawal a non-empty one
  whose deposit is old enough, and takes all of it. A deposit of nothing leaves the account empty.

  * `Kept.balance` -- the account holds what was put in less what was taken out;
  * `Kept.backed` -- right before a withdrawal stands the deposit it gives back;
  * `Kept.backed_log` -- the same, read off a log of events of which some are movements.
-/
import Mathlib.Algebra.Ring.Nat

namespace Escrow

inductive Movement where
  | put (time amount : Nat)
  | take (time amount : Nat)
  deriving DecidableEq, Repr

structure Account where
  held : Nat
  since : Nat
  deriving DecidableEq, Repr

def Movement.putAmount : Movement → Nat
  | .put _ amount => amount
  | .take _ _ => 0

def Movement.takeAmount : Movement → Nat
  | .put _ _ => 0
  | .take _ amount => amount

/-- What the movements put in, in total. -/
def puts (ms : List Movement) : Nat := (ms.map Movement.putAmount).sum

/-- What the movements took out, in total. -/
def takes (ms : List Movement) : Nat := (ms.map Movement.takeAmount).sum

theorem puts_concat (ms : List Movement) (m : Movement) :
    puts (ms ++ [m]) = puts ms + m.putAmount := by
  unfold puts
  rw [List.map_append, List.sum_append, List.map_singleton, List.sum_singleton]

theorem takes_concat (ms : List Movement) (m : Movement) :
    takes (ms ++ [m]) = takes ms + m.takeAmount := by
  unfold takes
  rw [List.map_append, List.sum_append, List.map_singleton, List.sum_singleton]

/-- **The histories of the account.** -/
inductive Kept (period : Nat) : List Movement → Account → Prop where
  | empty : Kept period [] ⟨0, 0⟩
  | put {ms : List Movement} {since : Nat} (time amount : Nat) (h : Kept period ms ⟨0, since⟩) :
      Kept period (ms ++ [.put time amount]) ⟨amount, time⟩
  | take {ms : List Movement} {held since : Nat} (time : Nat) (h : Kept period ms ⟨held, since⟩)
      (hheld : held ≠ 0) (hdue : since + period ≤ time) :
      Kept period (ms ++ [.take time held]) ⟨0, since⟩

variable {period : Nat} {ms : List Movement} {a : Account}

theorem Kept.balance (h : Kept period ms a) : a.held + takes ms = puts ms := by
  induction h with
  | empty => rfl
  | put time amount _ ih =>
      rw [takes_concat, puts_concat]
      simp only [Movement.putAmount, Movement.takeAmount] at ih ⊢
      omega
  | take time _ _ _ ih =>
      rw [takes_concat, puts_concat]
      simp only [Movement.putAmount, Movement.takeAmount] at ih ⊢
      omega

/-- A non-empty account was last moved by the deposit it holds. -/
theorem Kept.last_put (h : Kept period ms a) (ha : a.held ≠ 0) :
    ∃ pre, ms = pre ++ [.put a.since a.held] := by
  cases h with
  | empty => exact absurd rfl ha
  | put time amount _ => exact ⟨_, rfl⟩
  | take => exact absurd rfl ha

/-- Where an element stands in a list with a last one: it is the last, or before it. -/
theorem concat_split {α : Type} {xs pre post : List α} {x y : α}
    (h : xs ++ [x] = pre ++ y :: post) :
    (pre = xs ∧ y = x) ∨ ∃ post', xs = pre ++ y :: post' := by
  rcases List.eq_nil_or_concat post with rfl | ⟨post', z, rfl⟩
  · obtain ⟨e, e'⟩ := List.append_inj' h rfl
    exact Or.inl ⟨e.symm, (List.cons.inj e').1.symm⟩
  · rw [List.concat_eq_append, ← List.cons_append, ← List.append_assoc] at h
    exact Or.inr ⟨post', (List.append_inj' h rfl).1⟩

/-- **A withdrawal gives back the deposit before it**: the movement right before a withdrawal is a
    deposit of the same, non-zero amount, at least a period earlier. -/
theorem Kept.backed (h : Kept period ms a) {pre post : List Movement} {time amount : Nat}
    (hms : ms = pre ++ .take time amount :: post) :
    amount ≠ 0 ∧ ∃ pre' since, pre = pre' ++ [.put since amount] ∧ since + period ≤ time := by
  induction h generalizing post with
  | empty => exact absurd hms.symm (List.append_ne_nil_of_right_ne_nil _ (List.cons_ne_nil _ _))
  | put t n _ ih =>
      rcases concat_split hms with ⟨_, e⟩ | ⟨post', e⟩
      · cases e
      · exact ih e
  | take t h hheld hdue ih =>
      rcases concat_split hms with ⟨rfl, e⟩ | ⟨post', e⟩
      · cases e
        obtain ⟨pre', e⟩ := h.last_put hheld
        exact ⟨hheld, pre', _, e, hdue⟩
      · exact ih e

/-- **In a log**, of which `read` picks the movements: before a withdrawal stands the deposit it
    gives back, with no movement between the two. -/
theorem Kept.backed_log {ω : Type} {read : ω → Option Movement} {log pre post : List ω} {e : ω}
    {time amount : Nat} (h : Kept period (log.filterMap read) a) (hlog : log = pre ++ e :: post)
    (he : read e = some (.take time amount)) :
    amount ≠ 0 ∧ ∃ pre' e₀ mid since, pre = pre' ++ e₀ :: mid ∧
      read e₀ = some (.put since amount) ∧ (∀ m ∈ mid, read m = none) ∧ since + period ≤ time := by
  have hsplit : log.filterMap read =
      pre.filterMap read ++ .take time amount :: post.filterMap read := by
    rw [hlog, List.filterMap_append, List.filterMap_cons_some he]
  obtain ⟨hne, ms', since, hput, hdue⟩ := h.backed hsplit
  obtain ⟨pre', rest, rfl, _, hrest⟩ := List.filterMap_eq_append_iff.mp hput
  obtain ⟨skip, e₀, mid, rfl, _, he₀, hmid⟩ := List.filterMap_eq_cons_iff.mp hrest
  refine ⟨hne, pre' ++ skip, e₀, mid, since, ?_, he₀, List.filterMap_eq_nil_iff.mp hmid, hdue⟩
  rw [List.append_assoc]

end Escrow
