/-
  File:      OcnRegistry/Library/Token.lean
  Subject:   A FUNGIBLE TOKEN THAT MOVES EXACTLY WHAT IS ASKED FOR. No program fact.

  Balances, and allowances that owners give to spenders. A move that the balance does not cover
  fails, a `transferFrom` that the allowance does not cover too; an allowance of `unlimited` is not
  used up. The numbers are natural numbers: an overflow would need a supply no word can hold.

  What a holder keeps: `move_ge` (others' moves never take from it), `move_in` and `move_out` (what
  a move brings and takes), `transferFrom_keeps` (nobody moves the tokens of an owner that has
  approved nobody). `sum_update` is the total of a table after one of its entries was replaced.
-/
import Mathlib.Algebra.BigOperators.Group.Finset.Piecewise
import Mathlib.Data.Fintype.Basic

namespace Token

structure Ledger (α : Type) where
  balance : α → Nat
  allowance : α → α → Nat

variable {α : Type} [DecidableEq α]

namespace Ledger

/-! ## 1. The operations -/

/-- The amount moves from the holder to the recipient, which may be the same. -/
def move (L : Ledger α) (holder recipient : α) (amount : Nat) : Option (Ledger α) :=
  if amount ≤ L.balance holder then
    let rest := Function.update L.balance holder (L.balance holder - amount)
    some { L with balance := Function.update rest recipient (rest recipient + amount) }
  else none

def approve (L : Ledger α) (owner spender : α) (amount : Nat) : Ledger α :=
  { L with
    allowance := Function.update L.allowance owner
      (Function.update (L.allowance owner) spender amount) }

/-- The spender uses up the amount of its allowance. -/
def spend (L : Ledger α) (unlimited : Nat) (owner spender : α) (amount : Nat) :
    Option (Ledger α) :=
  if L.allowance owner spender = unlimited then some L
  else if amount ≤ L.allowance owner spender then
    some (L.approve owner spender (L.allowance owner spender - amount))
  else none

def transferFrom (L : Ledger α) (unlimited : Nat) (spender holder recipient : α) (amount : Nat) :
    Option (Ledger α) :=
  (L.spend unlimited holder spender amount).bind fun L => L.move holder recipient amount

def mint (L : Ledger α) (recipient : α) (amount : Nat) : Ledger α :=
  { L with balance := Function.update L.balance recipient (L.balance recipient + amount) }

variable {L L' : Ledger α} {a holder recipient owner spender : α} {amount unlimited : Nat}

theorem move_spec (h : L.move holder recipient amount = some L') :
    amount ≤ L.balance holder ∧ L'.allowance = L.allowance ∧
      L'.balance = Function.update
        (Function.update L.balance holder (L.balance holder - amount)) recipient
        (Function.update L.balance holder (L.balance holder - amount) recipient + amount) := by
  unfold move at h
  split at h
  · rename_i hle
    cases h
    exact ⟨hle, rfl, rfl⟩
  · cases h

/-- A balance can be moved. -/
theorem exists_move (recipient : α) (h : amount ≤ L.balance holder) :
    ∃ L', L.move holder recipient amount = some L' := ⟨_, if_pos h⟩

/-- A move takes from its holder only. -/
theorem move_ge (h : L.move holder recipient amount = some L') (ha : a ≠ holder) :
    L.balance a ≤ L'.balance a := by
  obtain ⟨_, _, hbalance⟩ := move_spec h
  rw [hbalance]
  by_cases hr : a = recipient
  · subst hr
    rw [Function.update_self, Function.update_of_ne ha]
    exact Nat.le_add_right _ _
  · rw [Function.update_of_ne hr, Function.update_of_ne ha]

/-- The recipient of a move from another holder has the amount more. -/
theorem move_in (h : L.move holder recipient amount = some L') (hne : recipient ≠ holder) :
    L'.balance recipient = L.balance recipient + amount := by
  obtain ⟨_, _, hbalance⟩ := move_spec h
  rw [hbalance, Function.update_self, Function.update_of_ne hne]

/-- The holder has at most the amount less. -/
theorem move_out (h : L.move holder recipient amount = some L') :
    L.balance holder ≤ L'.balance holder + amount := by
  obtain ⟨hle, _, hbalance⟩ := move_spec h
  rw [hbalance]
  by_cases hr : holder = recipient
  · subst hr
    rw [Function.update_self, Function.update_self]
    omega
  · rw [Function.update_of_ne hr, Function.update_self]
    omega

/-- Nobody was given an allowance by this owner. -/
def ApprovesNobody (a : α) (L : Ledger α) : Prop := ∀ spender, L.allowance a spender = 0

theorem approvesNobody_approve (h : ApprovesNobody a L) (ha : a ≠ owner) :
    ApprovesNobody a (L.approve owner spender amount) := by
  intro x
  show Function.update L.allowance owner _ a x = 0
  rw [Function.update_of_ne ha]
  exact h x

theorem spend_cases (h : L.spend unlimited owner spender amount = some L') :
    (L' = L ∧ L.allowance owner spender = unlimited) ∨ (amount ≤ L.allowance owner spender ∧
      L' = L.approve owner spender (L.allowance owner spender - amount)) := by
  unfold spend at h
  split at h
  · rename_i hu
    exact Or.inl ⟨(Option.some.inj h).symm, hu⟩
  · split at h
    · rename_i hle
      exact Or.inr ⟨hle, (Option.some.inj h).symm⟩
    · cases h

theorem spend_balance (h : L.spend unlimited owner spender amount = some L') :
    L'.balance = L.balance := by
  rcases spend_cases h with ⟨rfl, _⟩ | ⟨_, rfl⟩ <;> rfl

theorem approvesNobody_spend (ha : ApprovesNobody a L)
    (h : L.spend unlimited owner spender amount = some L') : ApprovesNobody a L' := by
  rcases spend_cases h with ⟨rfl, _⟩ | ⟨_, rfl⟩
  · exact ha
  · by_cases ho : a = owner
    · subst ho
      intro x
      show Function.update L.allowance a (Function.update (L.allowance a) spender _) a x = 0
      rw [Function.update_self]
      by_cases hx : x = spender
      · rw [hx, Function.update_self, ha spender, Nat.zero_sub]
      · rw [Function.update_of_ne hx]
        exact ha x
    · exact approvesNobody_approve ha ho

/-- **Nobody moves the tokens of an owner that has approved nobody**, and it still has not. -/
theorem transferFrom_keeps (hu : unlimited ≠ 0) (ha : ApprovesNobody a L)
    (h : L.transferFrom unlimited spender holder recipient amount = some L') :
    L.balance a ≤ L'.balance a ∧ ApprovesNobody a L' := by
  obtain ⟨L₁, hspend, hmove⟩ := Option.bind_eq_some_iff.mp h
  have hnobody : ApprovesNobody a L' := fun x => by
    rw [(move_spec hmove).2.1]
    exact approvesNobody_spend ha hspend x
  refine ⟨?_, hnobody⟩
  rw [← spend_balance hspend]
  by_cases hholder : a = holder
  · subst hholder
    have hzero : amount = 0 := by
      rcases spend_cases hspend with ⟨_, hun⟩ | ⟨hle, _⟩
      · exact absurd (hun.symm.trans (ha spender)) hu
      · rw [ha spender] at hle
        exact Nat.le_zero.mp hle
    have hout := move_out hmove
    rwa [hzero] at hout
  · exact move_ge hmove hholder

theorem transferFrom_in (h : L.transferFrom unlimited spender holder recipient amount = some L')
    (hne : recipient ≠ holder) : L'.balance recipient = L.balance recipient + amount := by
  obtain ⟨L₁, hspend, hmove⟩ := Option.bind_eq_some_iff.mp h
  rw [move_in hmove hne, spend_balance hspend]

theorem mint_ge : L.balance a ≤ (L.mint recipient amount).balance a := by
  show _ ≤ Function.update L.balance recipient _ a
  by_cases hr : a = recipient
  · subst hr
    rw [Function.update_self]
    exact Nat.le_add_right _ _
  · rw [Function.update_of_ne hr]

end Ledger

/-! ## 2. Totals -/

/-- Replacing one entry of a table changes its total by the difference. -/
theorem sum_update [Fintype α] (f : α → Nat) (a : α) (n : Nat) :
    (∑ x, Function.update f a n x) + f a = (∑ x, f x) + n := by
  rw [Finset.sum_update_of_mem (Finset.mem_univ a),
    ← Finset.add_sum_erase Finset.univ f (Finset.mem_univ a), Finset.sdiff_singleton_eq_erase]
  omega

end Token
