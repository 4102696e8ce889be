/-
  File:      OcnRegistry/Library/Holdings.lean
  Subject:   A TOKEN'S LEDGER SEEN BY SOME OF ITS HOLDERS. No program fact.

  A group of holders sees its balances and the allowances it gave. A move among others is not seen.
  A move that takes from the group, or one that is covered either way, is made or refused alike in
  two ledgers the group cannot tell apart, and leaves two such ledgers.
-/
import OcnRegistry.Library.Purge
import OcnRegistry.Library.Token
import Mathlib.Data.Option.Basic

namespace Token

open Transaction

namespace Ledger

variable {α : Type} [DecidableEq α]

/-- **Two ledgers the group cannot tell apart.** -/
structure SameOn (p : Set α) (L L' : Ledger α) : Prop where
  balance : Set.EqOn L.balance L'.balance p
  allowance : Set.EqOn L.allowance L'.allowance p

variable {p : Set α} {L L' L'' : Ledger α} {holder recipient owner spender : α}
  {amount unlimited : Nat}

omit [DecidableEq α] in
theorem SameOn.refl (p : Set α) (L : Ledger α) : SameOn p L L :=
  ⟨Set.eqOn_refl _ _, Set.eqOn_refl _ _⟩

omit [DecidableEq α] in
theorem SameOn.symm (h : SameOn p L L') : SameOn p L' L := ⟨h.balance.symm, h.allowance.symm⟩

omit [DecidableEq α] in
theorem SameOn.trans (h : SameOn p L L') (h' : SameOn p L' L'') : SameOn p L L'' :=
  ⟨h.balance.trans h'.balance, h.allowance.trans h'.allowance⟩

/-! ## 1. Others' moves -/

theorem sameOn_move_other (hholder : holder ∉ p) (hrecipient : recipient ∉ p)
    (h : L.move holder recipient amount = some L') : SameOn p L L' := by
  obtain ⟨_, hallowance, hbalance⟩ := move_spec h
  refine ⟨?_, hallowance ▸ Set.eqOn_refl _ _⟩
  rw [hbalance]
  exact (eqOn_update_of_notMem hholder).trans (eqOn_update_of_notMem hrecipient)

theorem sameOn_approve_other (howner : owner ∉ p) :
    SameOn p L (L.approve owner spender amount) :=
  ⟨Set.eqOn_refl _ _, eqOn_update_of_notMem howner⟩

theorem sameOn_mint_other (hrecipient : recipient ∉ p) : SameOn p L (L.mint recipient amount) :=
  ⟨eqOn_update_of_notMem hrecipient, Set.eqOn_refl _ _⟩

theorem sameOn_transferFrom_other (hholder : holder ∉ p) (hrecipient : recipient ∉ p)
    (h : L.transferFrom unlimited spender holder recipient amount = some L') : SameOn p L L' := by
  obtain ⟨L₁, hspend, hmove⟩ := Option.bind_eq_some_iff.mp h
  refine SameOn.trans ?_ (sameOn_move_other hholder hrecipient hmove)
  rcases spend_cases hspend with ⟨rfl, _⟩ | ⟨_, rfl⟩
  · exact SameOn.refl p _
  · exact sameOn_approve_other hholder

/-! ## 2. The same move in two ledgers -/

/-- **A move**, covered in both ledgers or in neither. -/
theorem SameOn.move (h : SameOn p L L')
    (hcovered : amount ≤ L.balance holder ↔ amount ≤ L'.balance holder) :
    Option.Rel (SameOn p) (L.move holder recipient amount)
      (L'.move holder recipient amount) := by
  unfold Ledger.move
  by_cases hle : amount ≤ L.balance holder
  · rw [if_pos hle, if_pos (hcovered.mp hle)]
    have hrest : Set.EqOn (Function.update L.balance holder (L.balance holder - amount))
        (Function.update L'.balance holder (L'.balance holder - amount)) p :=
      eqOn_update_of h.balance fun hp => by rw [h.balance hp]
    refine .some ⟨eqOn_update_of hrest fun hp => ?_, h.allowance⟩
    rw [hrest hp]
  · rw [if_neg hle, if_neg fun hle' => hle (hcovered.mpr hle')]
    exact .none

/-- A holder of the group moves what it holds. -/
theorem SameOn.move_own (h : SameOn p L L') (hholder : holder ∈ p) :
    Option.Rel (SameOn p) (L.move holder recipient amount) (L'.move holder recipient amount) :=
  h.move (by rw [h.balance hholder])

theorem SameOn.approve (h : SameOn p L L') (howner : owner ∈ p) :
    SameOn p (L.approve owner spender amount) (L'.approve owner spender amount) := by
  refine ⟨h.balance, eqOn_update_of h.allowance fun hp => ?_⟩
  rw [h.allowance howner]

theorem SameOn.mint (h : SameOn p L L') (hrecipient : recipient ∈ p) :
    SameOn p (L.mint recipient amount) (L'.mint recipient amount) := by
  refine ⟨eqOn_update_of h.balance fun hp => ?_, h.allowance⟩
  rw [h.balance hrecipient]

theorem SameOn.spend (h : SameOn p L L') (unlimited amount : Nat) (spender : α)
    (howner : owner ∈ p) :
    Option.Rel (SameOn p) (L.spend unlimited owner spender amount)
      (L'.spend unlimited owner spender amount) := by
  unfold Ledger.spend
  rw [← h.allowance howner]
  split
  · exact .some h
  · split
    · exact .some (h.approve howner)
    · exact .none

/-- **A spender moves what a holder of the group allowed it.** -/
theorem SameOn.transferFrom (h : SameOn p L L') (hholder : holder ∈ p) :
    Option.Rel (SameOn p) (L.transferFrom unlimited spender holder recipient amount)
      (L'.transferFrom unlimited spender holder recipient amount) := by
  unfold Ledger.transferFrom
  have hspend := h.spend unlimited amount spender hholder
  generalize L.spend unlimited holder spender amount = x,
    L'.spend unlimited holder spender amount = y at hspend
  cases hspend with
  | none => exact .none
  | some hL => exact hL.move_own hholder

end Ledger

end Token
