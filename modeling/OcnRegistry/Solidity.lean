/-
  File:      OcnRegistry/Solidity.lean
  Subject:   THE VALUE TYPES, ERRORS AND CRYPTOGRAPHY THE CONTRACTS SHARE.

  Fixed-width words are bit vectors of the width the source declares; `string` and `bytes` are
  byte lists (Solidity does not check that a `string` is UTF-8); a mapping is a function, an
  `address[]` a list. Amounts and block numbers (`uint256`) are natural numbers, kept below 2^256 by
  the checked operations. A call that reverts is an `Except.error`, which carries the custom error,
  the `require` text or the panic code the source raises.

  `keccak256` and `ecrecover` are a parameter (`Crypto`). Its `Digest` is an abstract type, so that
  a hash without collisions exists; `Crypto.evm` is the instance with 32-byte digests.
-/
import OcnRegistry.Library.Packed
import Mathlib.Algebra.Ring.Nat

namespace Ocn

open Packed

/-! ## 1. Words and texts -/

abbrev Address := BitVec 160
abbrev Bytes2 := BitVec 16
abbrev Bytes3 := BitVec 24
abbrev Bytes32 := BitVec 256

/-- `bytes`, and `string` as the bytes it is stored as. -/
abbrev Bytes := List Byte

/-- The bytes of a text in the source. -/
def utf8 (text : String) : Bytes := text.toUTF8.data.toList.map fun b => b.toBitVec

/-- An account that can send a transaction: `msg.sender` is never the zero address. -/
structure Account where
  address : Address
  nonzero : address ≠ 0
  deriving DecidableEq

/-! ## 2. The enumerations of `OcnRegistryTypes`, `IOcnPaymentManager` and `IOcnCvManager` -/

inductive Role where
  | cpo | emsp | nap | nsp | other | scsp | hub
  deriving DecidableEq, Repr

inductive PaymentStatus where
  | pending | paymentUpToDate | insufficientFunds | inactive
  deriving DecidableEq, Repr

inductive CvStatus where
  | notVerified | approved | failed
  deriving DecidableEq, Repr

/-- `RoleDetails`: one role a party claims, with the certificate for it. -/
structure RoleDetails where
  certificateData : Bytes
  signature : Bytes
  role : Role
  deriving DecidableEq, Repr

/-! ## 3. Errors -/

/-- Why a call reverts: the custom errors of the contracts, a `require` text (`error`), a panic
    code, or what a called contract outside the repository reverted with. -/
inductive Revert where
  | emptyDomainName (reason : String)
  | domainNameAlreadyRegistered (reason : String)
  | emptyCountryCode (reason : String)
  | emptyPartyId (reason : String)
  | noRolesProvided (reason : String)
  | emptyOperator (reason : String)
  | partyAlreadyRegistered (reason : String)
  | partyNotRegistered (reason : String)
  | invalidCertificate (verifier : Address) (reason : String)
  | providerNotFound (role : Role) (reason : String)
  | cerificateOwnerMismatch (reason : String)
  | stakeAlreadyDeposited
  | insufficientAllowance
  | transferFailed
  | noFundsStaked
  | withdrawalNotAllowed
  | accessControlUnauthorizedAccount (account : Address) (neededRole : Bytes32)
  | accessControlBadConfirmation
  | error (reason : String)
  | panic (code : Nat)
  | external (data : Bytes)
  deriving DecidableEq, Repr

/-- What a state-changing call returns when it does not revert: the next state and the events. -/
abbrev Outcome (σ ω : Type) := σ × List ω

/-- A computation that succeeds after a first one did so in both. -/
theorem bind_eq_ok {ε α β : Type} {x : Except ε α} {f : α → Except ε β} {b : β} :
    (x >>= f) = .ok b ↔ ∃ a, x = .ok a ∧ f a = .ok b := by
  cases x with
  | error e => exact ⟨fun h => (by cases h), fun ⟨a, h, _⟩ => (by cases h)⟩
  | ok a => exact ⟨fun h => ⟨a, rfl, h⟩, fun ⟨_, h, hf⟩ => by cases h; exact hf⟩

/-- A guard that reverts is passed when its condition is false. -/
theorem guard_eq_ok {ε α : Type} {c : Prop} [Decidable c] {e : ε} {x : Except ε α} {a : α} :
    (if c then .error e else x) = .ok a ↔ ¬ c ∧ x = .ok a := by
  by_cases hc : c
  · rw [if_pos hc]
    exact ⟨fun h => (by cases h), fun h => absurd hc h.1⟩
  · rw [if_neg hc]
    exact ⟨fun h => ⟨hc, h⟩, fun h => h.2⟩

/-- A check that gives its value is passed when its condition holds. -/
theorem check_eq_ok {ε α : Type} {c : Prop} [Decidable c] {e : ε} {a b : α} :
    (if c then .ok a else .error e : Except ε α) = .ok b ↔ c ∧ b = a := by
  by_cases hc : c
  · rw [if_pos hc]
    exact ⟨fun h => ⟨hc, (Except.ok.inj h).symm⟩, fun h => by rw [h.2]⟩
  · rw [if_neg hc]
    exact ⟨fun h => (by cases h), fun h => absurd h.1 hc⟩

/-- A call that computes a value and stores it succeeds if the computation does. -/
theorem bind_outcome_eq_ok {ε α σ ω : Type} {x : Except ε α} {f : α → σ} {ev₀ ev : List ω}
    {s' : σ} :
    (do let a ← x; .ok (f a, ev₀)) = (.ok (s', ev) : Except ε (Outcome σ ω)) ↔
      ∃ a, x = .ok a ∧ s' = f a ∧ ev = ev₀ := by
  rw [bind_eq_ok]
  refine ⟨fun hr => ?_, fun hr => ?_⟩
  · obtain ⟨a, ha, h⟩ := hr
    cases h
    exact ⟨a, ha, rfl, rfl⟩
  · obtain ⟨a, ha, rfl, rfl⟩ := hr
    exact ⟨a, ha, rfl⟩

/-- The increment of a loop counter of a type with `size` values, checked as Solidity 0.8 does. -/
def checkedIncr (size i : Nat) : Except Revert Nat :=
  if i + 1 < size then .ok (i + 1) else .error (.panic 0x11)

theorem checkedIncr_eq_ok {size i j : Nat} :
    checkedIncr size i = .ok j ↔ i + 1 < size ∧ j = i + 1 := by
  unfold checkedIncr
  exact check_eq_ok

/-- The result of a checked `uint256` operation: a panic where it does not fit the word. -/
def checkedWord (n : Nat) : Except Revert Nat :=
  if n < 2 ^ 256 then .ok n else .error (.panic 0x11)

def checkedAdd (a b : Nat) : Except Revert Nat := checkedWord (a + b)

def checkedMul (a b : Nat) : Except Revert Nat := checkedWord (a * b)

theorem checkedWord_eq_ok {n m : Nat} : checkedWord n = .ok m ↔ n < 2 ^ 256 ∧ m = n := by
  unfold checkedWord
  exact check_eq_ok

/-- `xs[i]`: an index past the end panics. -/
def indexed {α : Type} (xs : List α) (i : Nat) : Except Revert α :=
  match xs[i]? with
  | some x => .ok x
  | none => .error (.panic 0x32)

/-- `xs[i] = x`. -/
def assigned {α : Type} (xs : List α) (i : Nat) (x : α) : Except Revert (List α) :=
  if i < xs.length then .ok (xs.set i x) else .error (.panic 0x32)

theorem indexed_eq_ok {α : Type} {xs : List α} {i : Nat} {x : α} :
    indexed xs i = .ok x ↔ xs[i]? = some x := by
  unfold indexed
  cases h : xs[i]? with
  | none => exact ⟨fun e => (by cases e), fun e => (by cases e)⟩
  | some y => exact ⟨fun e => by rw [Except.ok.inj e], fun e => by rw [Option.some.inj e]⟩

theorem assigned_eq_ok {α : Type} {xs ys : List α} {i : Nat} {x : α} :
    assigned xs i x = .ok ys ↔ i < xs.length ∧ ys = xs.set i x := by
  unfold assigned
  exact check_eq_ok

/-! ## 4. Hashing and signatures -/

/-- **`keccak256` and `ecrecover`**, with the bytes `abi.encodePacked` writes for a digest. -/
structure Crypto where
  Digest : Type
  decEq : DecidableEq Digest
  keccak256 : Bytes → Digest
  digestBytes : Digest → Bytes
  digestBytes_injective : Function.Injective digestBytes
  ecrecover : Digest → BitVec 8 → Bytes32 → Bytes32 → Address

instance (X : Crypto) : DecidableEq X.Digest := X.decEq

/-- The machine's own widths: a digest is a `bytes32`. -/
def Crypto.evm (keccak256 : Bytes → Bytes32)
    (ecrecover : Bytes32 → BitVec 8 → Bytes32 → Bytes32 → Address) : Crypto where
  Digest := Bytes32
  decEq := inferInstance
  keccak256 := keccak256
  digestBytes := wordBytes 32
  digestBytes_injective := wordBytes_injective 32
  ecrecover := ecrecover

/-- `abi.encodePacked(operator)`. -/
def packAddress (a : Address) : Bytes := wordBytes 20 a

end Ocn
