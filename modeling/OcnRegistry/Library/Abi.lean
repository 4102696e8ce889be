/-
  File:      OcnRegistry/Library/Abi.lean
  Subject:   THE ABI LAYOUT OF A TUPLE OF WORDS AND BYTE STRINGS. No program fact.

  A tuple is written as a head of one word for each component, followed by the contents of its byte
  strings. A word stands in the head itself; for a byte string the head has the offset at which
  its length and its bytes start, counted from the start of the tuple. A tuple with a byte string
  is itself written behind its offset.

  The reader follows the offsets it finds, wherever they point, and refuses offsets and lengths of
  2^64 or more and anything beyond the end of the data.

  * `decodeFrom_written` -- the reader at one place of the head, behind any head and any contents;
  * `decode_encode` -- what was written is read back;
  * `encode_injective` -- so different tuples of the same kinds are written differently.
-/
import OcnRegistry.Library.Packed
import Mathlib.Algebra.Ring.Nat
import Mathlib.Tactic.SplitIfs

namespace Abi

open Packed

abbrev Word := BitVec 256

/-! ## 1. Writing -/

/-- A component: a word, or a byte string of any length. -/
inductive Value where
  | word (w : Word)
  | bytes (content : List Byte)
  deriving DecidableEq, Repr

inductive Kind where
  | word
  | bytes
  deriving DecidableEq, Repr

def Value.kind : Value → Kind
  | .word _ => .word
  | .bytes _ => .bytes

/-- A number as a word. -/
def number (n : Nat) : List Byte := wordBytes 32 (BitVec.ofNat 256 n)

/-- The bytes, with zeros up to a whole number of words. -/
def padded (content : List Byte) : List Byte :=
  content ++ List.replicate ((32 - content.length % 32) % 32) 0

/-- What a component has behind the head. -/
def Value.tail : Value → List Byte
  | .word _ => []
  | .bytes content => number content.length ++ padded content

/-- The head, with the contents of the first byte string at `offset`. -/
def heads : Nat → List Value → List Byte
  | _, [] => []
  | offset, .word w :: rest => wordBytes 32 w ++ heads offset rest
  | offset, .bytes content :: rest =>
      number offset ++ heads (offset + (Value.bytes content).tail.length) rest

/-- The components of a tuple. -/
def encodeTuple (values : List Value) : List Byte :=
  heads (32 * values.length) values ++ values.flatMap Value.tail

/-- **A tuple**: behind its offset if it has a byte string. -/
def encode (values : List Value) : List Byte :=
  if .bytes ∈ values.map Value.kind then number 32 ++ encodeTuple values else encodeTuple values

/-! ## 2. Reading -/

/-- The word at a position. -/
def wordAt (data : List Byte) (position : Nat) : Option Word :=
  ofWordBytes 32 ((data.drop position).take 32)

/-- The number at a position: an offset or a length. -/
def numberAt (data : List Byte) (position : Nat) : Option Nat := do
  let w ← wordAt data position
  if w.toNat < 2 ^ 64 then some w.toNat else none

/-- The byte string at a position: its length, then its bytes. -/
def bytesAt (data : List Byte) (position : Nat) : Option (List Byte) := do
  let length ← numberAt data position
  let content := (data.drop (position + 32)).take length
  if content.length = length then some content else none

/-- The components of these kinds, from a position of the head on. -/
def decodeFrom (data : List Byte) : List Kind → Nat → Option (List Value)
  | [], _ => some []
  | .word :: kinds, position => do
      let w ← wordAt data position
      let rest ← decodeFrom data kinds (position + 32)
      some (.word w :: rest)
  | .bytes :: kinds, position => do
      let offset ← numberAt data position
      let content ← bytesAt data offset
      let rest ← decodeFrom data kinds (position + 32)
      some (.bytes content :: rest)

/-- **The reader of a tuple** of these kinds. -/
def decode (kinds : List Kind) (data : List Byte) : Option (List Value) :=
  if .bytes ∈ kinds then do
    let offset ← numberAt data 0
    decodeFrom (data.drop offset) kinds 0
  else decodeFrom data kinds 0

/-! ## 3. Lengths -/

variable {data rest behind : List Byte} {values : List Value} {position offset : Nat}

@[simp] theorem length_number (n : Nat) : (number n).length = 32 := length_wordBytes 32 _

@[simp] theorem length_heads (offset : Nat) (values : List Value) :
    (heads offset values).length = 32 * values.length := by
  induction values generalizing offset with
  | nil => rfl
  | cons v rest ih =>
      cases v with
      | word w => simp [heads, ih, Nat.mul_succ, Nat.add_comm]
      | bytes content => simp [heads, ih, Nat.mul_succ, Nat.add_comm]

theorem length_tail_le {content : List Byte} {n : Nat} (h : content.length ≤ n) :
    (Value.bytes content).tail.length ≤ n + 63 := by
  simp only [Value.tail, padded, List.length_append, length_number, List.length_replicate]
  omega

theorem length_tails_le {n : Nat} (h : ∀ v ∈ values, v.tail.length ≤ n) :
    (values.flatMap Value.tail).length ≤ n * values.length := by
  induction values with
  | nil => exact Nat.zero_le _
  | cons v rest ih =>
      obtain ⟨hv, hrest⟩ := List.forall_mem_cons.mp h
      have hle := ih hrest
      rw [List.flatMap_cons, List.length_append, List.length_cons, Nat.mul_succ]
      omega

/-- **The size of a tuple** whose components have at most `n` bytes each behind the head. -/
theorem length_encode_le {n : Nat} (h : ∀ v ∈ values, v.tail.length ≤ n) :
    (encode values).length ≤ 32 + (32 + n) * values.length := by
  have htails := length_tails_le h
  have htuple : (encodeTuple values).length ≤ (32 + n) * values.length := by
    rw [encodeTuple, List.length_append, length_heads, Nat.add_mul]
    omega
  unfold encode
  split_ifs
  · rw [List.length_append, length_number]
    omega
  · omega

/-! ## 4. Reading what was written -/

theorem wordAt_eq {w : Word} (h : data.drop position = wordBytes 32 w ++ rest) :
    wordAt data position = some w := by
  rw [wordAt, h, List.take_left' (length_wordBytes 32 w)]
  exact ofWordBytes_eq_some.mpr rfl

theorem numberAt_eq {n : Nat} (hn : n < 2 ^ 64) (h : data.drop position = number n ++ rest) :
    numberAt data position = some n := by
  have hfits : (BitVec.ofNat 256 n).toNat = n := by
    rw [BitVec.toNat_ofNat]
    exact Nat.mod_eq_of_lt (by omega)
  rw [numberAt, wordAt_eq h]
  show (if (BitVec.ofNat 256 n).toNat < 2 ^ 64 then some (BitVec.ofNat 256 n).toNat else none) = _
  rw [hfits, if_pos hn]

/-- What follows a block stands behind it. -/
theorem drop_behind {block : List Byte} {n : Nat} (hn : block.length = n)
    (h : data.drop position = block ++ rest) : data.drop (position + n) = rest := by
  rw [← List.drop_drop, h, List.drop_left' hn]

/-- A block that is found is no longer than the data. -/
theorem length_le_of_drop {block : List Byte} (h : data.drop position = block ++ rest) :
    block.length ≤ data.length := by
  have hlength := congrArg List.length h
  rw [List.length_drop, List.length_append] at hlength
  omega

theorem bytesAt_eq {content : List Byte} (hdata : data.length < 2 ^ 64)
    (h : data.drop position = (Value.bytes content).tail ++ rest) :
    bytesAt data position = some content := by
  have hcontent := length_le_of_drop h
  rw [Value.tail, padded] at h hcontent
  rw [List.append_assoc, List.append_assoc] at h
  simp only [List.length_append, length_number] at hcontent
  have hbehind := drop_behind (length_number content.length) h
  rw [bytesAt, numberAt_eq (by omega) h]
  show (if ((data.drop (position + 32)).take content.length).length = content.length then
    some ((data.drop (position + 32)).take content.length) else none) = _
  rw [hbehind, List.take_left, if_pos rfl]

/-- **The reader at one place of the head**: the heads of the components left follow, their
    contents stand at the offset these heads start from. -/
theorem decodeFrom_written (hdata : data.length < 2 ^ 64)
    (hhead : data.drop position = heads offset values ++ rest)
    (htail : data.drop offset = values.flatMap Value.tail ++ behind) :
    decodeFrom data (values.map Value.kind) position = some values := by
  induction values generalizing position offset with
  | nil => rfl
  | cons v values ih =>
      rw [List.flatMap_cons, List.append_assoc] at htail
      cases v with
      | word w =>
          rw [heads, List.append_assoc] at hhead
          have hrest := ih (drop_behind (length_wordBytes 32 w) hhead) htail
          rw [List.map_cons, Value.kind, decodeFrom, wordAt_eq hhead, hrest]
          rfl
      | bytes content =>
          rw [heads, List.append_assoc] at hhead
          have hrest := ih (drop_behind (length_number offset) hhead) (drop_behind rfl htail)
          -- the contents are not empty, so their offset lies within the data
          have hoffset : offset < 2 ^ 64 := by
            have hlength := congrArg List.length htail
            simp only [List.length_drop, List.length_append, Value.tail, length_number] at hlength
            omega
          rw [List.map_cons, Value.kind, decodeFrom, numberAt_eq hoffset hhead]
          show (bytesAt data offset >>= _) = _
          rw [bytesAt_eq hdata htail]
          show (decodeFrom data (values.map Value.kind) (position + 32) >>= _) = _
          rw [hrest]
          rfl

theorem decodeFrom_encodeTuple (hdata : (encodeTuple values).length < 2 ^ 64) :
    decodeFrom (encodeTuple values) (values.map Value.kind) 0 = some values := by
  have hhead : (encodeTuple values).drop 0 =
      heads (32 * values.length) values ++ values.flatMap Value.tail := rfl
  have htail : (encodeTuple values).drop (32 * values.length) =
      values.flatMap Value.tail ++ [] := by
    rw [encodeTuple, List.drop_left' (length_heads _ _), List.append_nil]
  exact decodeFrom_written hdata hhead htail

/-- **What was written is read back.** -/
theorem decode_encode (hdata : (encode values).length < 2 ^ 64) :
    decode (values.map Value.kind) (encode values) = some values := by
  unfold decode
  by_cases hdynamic : .bytes ∈ values.map Value.kind
  · rw [encode, if_pos hdynamic] at hdata
    rw [if_pos hdynamic, encode, if_pos hdynamic]
    rw [List.length_append, length_number] at hdata
    have hstart : (number 32 ++ encodeTuple values).drop 0 = number 32 ++ encodeTuple values := rfl
    rw [numberAt_eq (by decide) hstart]
    show decodeFrom ((number 32 ++ encodeTuple values).drop 32) _ 0 = _
    rw [List.drop_left' (length_number 32)]
    exact decodeFrom_encodeTuple (by omega)
  · rw [encode, if_neg hdynamic] at hdata
    rw [if_neg hdynamic, encode, if_neg hdynamic]
    exact decodeFrom_encodeTuple hdata

/-- **Different tuples of the same kinds are written differently.** -/
theorem encode_injective {values' : List Value} (hdata : (encode values).length < 2 ^ 64)
    (hkinds : values.map Value.kind = values'.map Value.kind)
    (h : encode values = encode values') : values = values' := by
  have hread := decode_encode hdata
  have hread' := decode_encode (h ▸ hdata)
  rw [← hkinds, ← h, hread] at hread'
  exact Option.some.inj hread'

end Abi
