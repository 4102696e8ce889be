/-
  File:      OcnRegistry/Library/Packed.lean
  Subject:   PACKED BYTE ENCODINGS. No program fact.

  A fixed-width word is written as its bytes, most significant first, and followed by text of any
  length. Such an encoding is read back uniquely, because the width says where the text starts
  (`word_append_injective`), and it is never the encoding of a word alone unless the text is empty
  (`word_append_eq_word`).
-/
import Mathlib.Algebra.Group.Nat.Defs
import Mathlib.Data.List.Basic

namespace Packed

abbrev Byte := BitVec 8

/-- The `n` bytes of a word, most significant first. -/
def wordBytes (n : Nat) (x : BitVec (8 * n)) : List Byte :=
  (List.range n).map fun i => x.extractLsb' (8 * (n - 1 - i)) 8

@[simp] theorem length_wordBytes (n : Nat) (x : BitVec (8 * n)) : (wordBytes n x).length = n := by
  simp [wordBytes]

theorem wordBytes_injective (n : Nat) : Function.Injective (wordBytes n) := by
  intro x y h
  apply BitVec.eq_of_getLsbD_eq
  intro i hi
  -- bit `i` is bit `i % 8` of the byte that starts at bit `8 * (i / 8)`
  have hbyte : x.extractLsb' (8 * (i / 8)) 8 = y.extractLsb' (8 * (i / 8)) 8 := by
    have hmem : n - 1 - i / 8 ∈ List.range n := List.mem_range.mpr (by omega)
    have hat := List.map_inj_left.mp h _ hmem
    have hidx : n - 1 - (n - 1 - i / 8) = i / 8 := by omega
    rwa [hidx] at hat
  have hbit := congrArg (fun b => b.getLsbD (i % 8)) hbyte
  have hlt : i % 8 < 8 := Nat.mod_lt i (by decide)
  simpa [BitVec.getLsbD_extractLsb', hlt, Nat.div_add_mod] using hbit

/-- **Word and text are read back uniquely.** -/
theorem word_append_injective {n : Nat} {x y : BitVec (8 * n)} {d e : List Byte}
    (h : wordBytes n x ++ d = wordBytes n y ++ e) : x = y ∧ d = e := by
  obtain ⟨hw, ht⟩ := List.append_inj h (by simp)
  exact ⟨wordBytes_injective n hw, ht⟩

/-- A word followed by text is the encoding of a word alone only if the text is empty. -/
theorem word_append_eq_word {n : Nat} {x y : BitVec (8 * n)} {d : List Byte}
    (h : wordBytes n x ++ d = wordBytes n y) : x = y ∧ d = [] :=
  word_append_injective (by rw [h, List.append_nil])

/-- A block is not empty. -/
theorem flatMap_cons_ne_nil {α β : Type} {f : α → List β} {n : Nat} (hn : 0 < n)
    (hlen : ∀ a, (f a).length = n) (x : α) (xs : List α) : (x :: xs).flatMap f ≠ [] := by
  intro h
  have hlength := congrArg List.length h
  rw [List.flatMap_cons, List.length_append, hlen, List.length_nil] at hlength
  omega

/-- Blocks of one length, written one after the other, are read back uniquely. -/
theorem flatMap_injective {α β : Type} {f : α → List β} {n : Nat} (hn : 0 < n)
    (hlen : ∀ a, (f a).length = n) (hf : Function.Injective f) :
    Function.Injective fun xs : List α => xs.flatMap f := by
  intro xs ys h
  induction xs generalizing ys with
  | nil =>
      cases ys with
      | nil => rfl
      | cons y ys => exact absurd h.symm (flatMap_cons_ne_nil hn hlen y ys)
  | cons x xs ih =>
      cases ys with
      | nil => exact absurd h (flatMap_cons_ne_nil hn hlen x xs)
      | cons y ys =>
          dsimp only at h
          rw [List.flatMap_cons, List.flatMap_cons] at h
          obtain ⟨hblock, hrest⟩ := List.append_inj h (by rw [hlen, hlen])
          rw [hf hblock, ih hrest]

/-! ## Reading a word back -/

/-- The number these bytes write, most significant first. -/
def wordValue : List Byte → Nat
  | [] => 0
  | b :: rest => b.toNat * 256 ^ rest.length + wordValue rest

/-- The word with these bytes, if there are as many as it has. -/
def ofWordBytes (n : Nat) (bytes : List Byte) : Option (BitVec (8 * n)) :=
  if bytes.length = n then some (BitVec.ofNat (8 * n) (wordValue bytes)) else none

theorem wordValue_lt (bytes : List Byte) : wordValue bytes < 256 ^ bytes.length := by
  induction bytes with
  | nil => exact Nat.one_pos
  | cons b rest ih =>
      have hb : b.toNat + 1 ≤ 256 := b.isLt
      calc b.toNat * 256 ^ rest.length + wordValue rest
          < b.toNat * 256 ^ rest.length + 256 ^ rest.length := Nat.add_lt_add_left ih _
        _ = (b.toNat + 1) * 256 ^ rest.length := (Nat.succ_mul _ _).symm
        _ ≤ 256 * 256 ^ rest.length := Nat.mul_le_mul_right _ hb
        _ = 256 ^ (b :: rest).length := by rw [List.length_cons, Nat.pow_succ, Nat.mul_comm]

/-- Byte `i` is the digit of the number at its place. -/
theorem wordValue_digit {bytes : List Byte} {i : Nat} (hi : i < bytes.length) :
    wordValue bytes / 256 ^ (bytes.length - 1 - i) % 256 = bytes[i].toNat := by
  induction bytes generalizing i with
  | nil => exact absurd hi (Nat.not_lt_zero i)
  | cons b rest ih =>
      have hrest := wordValue_lt rest
      cases i with
      | zero =>
          have hpos : 0 < 256 ^ rest.length := Nat.pow_pos (by decide)
          show (b.toNat * 256 ^ rest.length + wordValue rest) / 256 ^ rest.length % 256 = b.toNat
          rw [Nat.mul_comm, Nat.mul_add_div hpos, Nat.div_eq_of_lt hrest, Nat.add_zero]
          exact Nat.mod_eq_of_lt b.isLt
      | succ j =>
          rw [List.length_cons] at hi
          have hj : j < rest.length := Nat.lt_of_succ_lt_succ hi
          have hsplit : 256 ^ rest.length = 256 ^ (rest.length - 1 - j) * (256 * 256 ^ j) := by
            rw [← Nat.pow_succ', ← Nat.pow_add]
            exact congrArg (256 ^ ·) (by omega)
          have hplace : (b :: rest).length - 1 - (j + 1) = rest.length - 1 - j := by
            rw [List.length_cons]
            omega
          have hpos : 0 < 256 ^ (rest.length - 1 - j) := Nat.pow_pos (by decide)
          rw [hplace, List.getElem_cons_succ, ← ih hj]
          show (b.toNat * 256 ^ rest.length + wordValue rest) / 256 ^ (rest.length - 1 - j) % 256 =
            _
          rw [hsplit, Nat.mul_left_comm, Nat.mul_add_div hpos, Nat.mul_left_comm b.toNat,
            Nat.mul_add_mod]

/-- **A word is read back from its bytes, and from nothing else.** -/
theorem ofWordBytes_eq_some {n : Nat} {bytes : List Byte} {x : BitVec (8 * n)} :
    ofWordBytes n bytes = some x ↔ wordBytes n x = bytes := by
  have hwrite : bytes.length = n →
      wordBytes n (BitVec.ofNat (8 * n) (wordValue bytes)) = bytes := by
    intro hlen
    refine List.ext_getElem (by rw [length_wordBytes, hlen]) fun i hi hi' => ?_
    have hfits : wordValue bytes < 2 ^ (8 * n) := by
      have hlt := wordValue_lt bytes
      rwa [hlen, show (256 : Nat) = 2 ^ 8 from rfl, ← Nat.pow_mul] at hlt
    have hplace : 2 ^ (8 * (n - 1 - i)) = 256 ^ (bytes.length - 1 - i) := by
      rw [hlen, Nat.pow_mul]
    refine BitVec.eq_of_toNat_eq ?_
    rw [← wordValue_digit hi']
    simp only [wordBytes, List.getElem_map, List.getElem_range, BitVec.extractLsb'_toNat,
      BitVec.toNat_ofNat, Nat.mod_eq_of_lt hfits, Nat.shiftRight_eq_div_pow, hplace]
  unfold ofWordBytes
  refine ⟨fun h => ?_, fun h => ?_⟩
  · split at h
    · rename_i hlen
      rw [← Option.some.inj h]
      exact hwrite hlen
    · cases h
  · have hlen : bytes.length = n := by rw [← h, length_wordBytes]
    rw [if_pos hlen]
    exact congrArg some (wordBytes_injective n ((hwrite hlen).trans h.symm))

end Packed
