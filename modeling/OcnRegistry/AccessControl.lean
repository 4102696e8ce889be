/-
  File:      OcnRegistry/AccessControl.lean
  Subject:   OpenZeppelin's `AccessControl`, as documented: a set of (role, account) pairs.

  No contract here changes a role's admin, so every role is administered by `DEFAULT_ADMIN_ROLE`.
  Granting a held role and revoking an absent one change nothing. `transferOwnership` is the body
  the three contracts share; with it, `RoleCall` lists the functions that change who holds a role.
-/
import OcnRegistry.Solidity

namespace Ocn

/-- Who holds which role. -/
abbrev RoleMembers := Bytes32 → Address → Bool

def DEFAULT_ADMIN_ROLE : Bytes32 := 0

namespace RoleMembers

/-- `_grantRole` and `_revokeRole`: the pair is in the set, or is not. -/
def setRole (M : RoleMembers) (role : Bytes32) (account : Address) (member : Bool) : RoleMembers :=
  fun r a => if r = role ∧ a = account then member else M r a

def onlyRole (M : RoleMembers) (role : Bytes32) (sender : Address) : Except Revert Unit :=
  if M role sender then .ok () else .error (.accessControlUnauthorizedAccount sender role)

def grantRole (M : RoleMembers) (sender : Address) (role : Bytes32) (account : Address) :
    Except Revert RoleMembers := do
  M.onlyRole DEFAULT_ADMIN_ROLE sender
  .ok (M.setRole role account true)

def revokeRole (M : RoleMembers) (sender : Address) (role : Bytes32) (account : Address) :
    Except Revert RoleMembers := do
  M.onlyRole DEFAULT_ADMIN_ROLE sender
  .ok (M.setRole role account false)

def renounceRole (M : RoleMembers) (sender : Address) (role : Bytes32)
    (callerConfirmation : Address) : Except Revert RoleMembers :=
  if callerConfirmation ≠ sender then .error .accessControlBadConfirmation
  else .ok (M.setRole role callerConfirmation false)

/-- The role changes of `transferOwnership`: grant to the new owner, then revoke from the caller. -/
def transferOwnership (M : RoleMembers) (sender newOwner : Address) :
    Except Revert RoleMembers := do
  M.onlyRole DEFAULT_ADMIN_ROLE sender
  let M ← M.grantRole sender DEFAULT_ADMIN_ROLE newOwner
  M.revokeRole sender DEFAULT_ADMIN_ROLE sender

end RoleMembers

/-- The functions that change who holds which role. -/
inductive RoleCall where
  | transferOwnership (newOwner : Address)
  | grantRole (role : Bytes32) (account : Address)
  | revokeRole (role : Bytes32) (account : Address)
  | renounceRole (role : Bytes32) (callerConfirmation : Address)
  deriving DecidableEq

namespace RoleMembers

def exec (M : RoleMembers) (sender : Address) : RoleCall → Except Revert RoleMembers
  | .transferOwnership newOwner => M.transferOwnership sender newOwner
  | .grantRole role account => M.grantRole sender role account
  | .revokeRole role account => M.revokeRole sender role account
  | .renounceRole role callerConfirmation => M.renounceRole sender role callerConfirmation

theorem onlyRole_eq_ok {M : RoleMembers} {role : Bytes32} {sender : Address} {u : Unit} :
    M.onlyRole role sender = .ok u ↔ M role sender = true := by
  unfold onlyRole
  split <;> simp_all

/-- What follows `onlyRole` runs for members only. -/
theorem onlyRole_bind_eq_ok {M : RoleMembers} {role : Bytes32} {sender : Address} {α : Type}
    {x : Except Revert α} {a : α} :
    (do M.onlyRole role sender; x) = .ok a ↔ M role sender = true ∧ x = .ok a := by
  rw [bind_eq_ok]
  simp only [onlyRole_eq_ok, exists_const]

theorem onlyRole_eq_error {M : RoleMembers} {role : Bytes32} {sender : Address}
    (h : M role sender = false) :
    M.onlyRole role sender = .error (.accessControlUnauthorizedAccount sender role) := by
  unfold onlyRole
  rw [h]
  rfl

theorem setRole_self {M : RoleMembers} {role : Bytes32} {account : Address} {member : Bool} :
    M.setRole role account member role account = member := if_pos ⟨rfl, rfl⟩

theorem setRole_account_ne {M : RoleMembers} {role r : Bytes32} {account a : Address}
    {member : Bool} (h : a ≠ account) : M.setRole role account member r a = M r a :=
  if_neg fun e => h e.2

theorem setRole_role_ne {M : RoleMembers} {role r : Bytes32} {account a : Address}
    {member : Bool} (h : r ≠ role) : M.setRole role account member r a = M r a :=
  if_neg fun e => h e.1

section Transfer

variable {M M' : RoleMembers} {sender newOwner a : Address}

/-- **`transferOwnership`**: an admin adds the new owner and then removes itself. -/
theorem transferOwnership_eq_ok : M.transferOwnership sender newOwner = .ok M' ↔
    M DEFAULT_ADMIN_ROLE sender = true ∧
      M' = (M.setRole DEFAULT_ADMIN_ROLE newOwner true).setRole DEFAULT_ADMIN_ROLE sender
        false := by
  unfold transferOwnership grantRole revokeRole
  simp only [bind_eq_ok, onlyRole_eq_ok, exists_const]
  refine ⟨fun hr => ?_, fun hr => ?_⟩
  · obtain ⟨hadmin, M₁, ⟨_, h₁⟩, _, h⟩ := hr
    cases h₁
    exact ⟨hadmin, (Except.ok.inj h).symm⟩
  · obtain ⟨hadmin, rfl⟩ := hr
    refine ⟨hadmin, _, ⟨hadmin, rfl⟩, ?_, rfl⟩
    unfold setRole
    split
    · rfl
    · exact hadmin

/-- The new owner is an admin afterwards exactly if it is not the caller. -/
theorem transferOwnership_newOwner (h : M.transferOwnership sender newOwner = .ok M') :
    M' DEFAULT_ADMIN_ROLE newOwner = true ↔ newOwner ≠ sender := by
  obtain ⟨_, rfl⟩ := transferOwnership_eq_ok.mp h
  by_cases e : newOwner = sender
  · rw [e, setRole_self]
    exact ⟨fun h => (by cases h), fun h => absurd rfl h⟩
  · rw [setRole_account_ne e, setRole_self]
    exact ⟨fun _ => e, fun _ => rfl⟩

theorem transferOwnership_sender (h : M.transferOwnership sender newOwner = .ok M') :
    M' DEFAULT_ADMIN_ROLE sender = false := by
  obtain ⟨_, rfl⟩ := transferOwnership_eq_ok.mp h
  exact setRole_self

theorem transferOwnership_admin_ne (h : M.transferOwnership sender newOwner = .ok M')
    (hs : a ≠ sender) (hn : a ≠ newOwner) :
    M' DEFAULT_ADMIN_ROLE a = M DEFAULT_ADMIN_ROLE a := by
  obtain ⟨_, rfl⟩ := transferOwnership_eq_ok.mp h
  rw [setRole_account_ne hs, setRole_account_ne hn]

/-- The other roles stay where they are. -/
theorem transferOwnership_role_ne {role : Bytes32}
    (h : M.transferOwnership sender newOwner = .ok M') (hr : role ≠ DEFAULT_ADMIN_ROLE) :
    M' role a = M role a := by
  obtain ⟨_, rfl⟩ := transferOwnership_eq_ok.mp h
  rw [setRole_role_ne hr, setRole_role_ne hr]

end Transfer

end RoleMembers

end Ocn
