/-
  File:      OcnRegistry/Library/Naming.lean
  Subject:   TABLES OF ENTRIES UNDER UNIQUE NAMES. No program fact.

  What bookkeeping with flags and back references is for, without the bookkeeping: every holder has
  at most one entry, an entry has a name, and no two holders have entries of the same name. A table
  carries that as a field, so `put` asks for a name that is free for the holder (`Free`: nobody
  else has it), and `drop` asks for nothing.
-/
import Mathlib.Logic.Function.Basic

namespace Naming

/-- **A table**: the entry of each holder, under a name of its own. -/
structure Table (α β κ : Type) (name : β → κ) where
  entry : α → Option β
  distinct : ∀ a b x y, entry a = some x → entry b = some y → name x = name y → a = b

namespace Table

variable {α β κ : Type} {name : β → κ}

theorem eq_of_entry {T U : Table α β κ name} (h : T.entry = U.entry) : T = U := by
  cases T
  cases U
  cases h
  rfl

def empty : Table α β κ name := ⟨fun _ => none, fun _ _ _ _ h => (by cases h)⟩

/-- Nobody but `a` has an entry named `k`. -/
def Free (T : Table α β κ name) (a : α) (k : κ) : Prop :=
  ∀ b y, T.entry b = some y → name y = k → b = a

variable [DecidableEq α]

theorem put_distinct {T : Table α β κ name} {a : α} {x : β} (h : T.Free a (name x)) (b c : α)
    (y z : β) (hb : Function.update T.entry a (some x) b = some y)
    (hc : Function.update T.entry a (some x) c = some z) (hn : name y = name z) : b = c := by
  by_cases eb : b = a <;> by_cases ec : c = a
  · rw [eb, ec]
  · rw [eb, Function.update_self] at hb
    rw [Function.update_of_ne ec] at hc
    cases hb
    rw [eb, h c z hc hn.symm]
  · rw [Function.update_of_ne eb] at hb
    rw [ec, Function.update_self] at hc
    cases hc
    rw [ec, h b y hb hn]
  · rw [Function.update_of_ne eb] at hb
    rw [Function.update_of_ne ec] at hc
    exact T.distinct b c y z hb hc hn

/-- Holder `a` gets this entry, in place of the one it had. -/
def put (T : Table α β κ name) (a : α) (x : β) (h : T.Free a (name x)) : Table α β κ name :=
  ⟨Function.update T.entry a (some x), put_distinct h⟩

/-- Holder `a` has no entry any more. -/
def drop (T : Table α β κ name) (a : α) : Table α β κ name where
  entry := Function.update T.entry a none
  distinct := by
    intro b c y z hb hc hn
    have entry_of : ∀ d w, Function.update T.entry a none d = some w → T.entry d = some w := by
      intro d w hd
      by_cases e : d = a
      · rw [e, Function.update_self] at hd
        cases hd
      · rwa [Function.update_of_ne e] at hd
    exact T.distinct b c y z (entry_of b y hb) (entry_of c z hc) hn

/-- **A step of a table**: an entry is put under a free name, or dropped. -/
inductive Step (T : Table α β κ name) : Table α β κ name → Prop where
  | put (a : α) (x : β) (h : T.Free a (name x)) : Step T (T.put a x h)
  | drop (a : α) : Step T (T.drop a)

end Table

end Naming
