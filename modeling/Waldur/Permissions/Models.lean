import Mathlib
import Waldur.Lib.TableCounts

/-!
# Permissions.Models — role grants

The rows of `UserRole` and the writes of `permissions/models.py` and `permissions/utils.py`.  A scope is named by its
content type and primary key, an instant is a number of microseconds.  Who granted or revoked a role and for what reason
is only shown, so it is left out.
-/

namespace Waldur.Permissions

open Relational

/-- `TYPE_MAP`, and the content types without an entry. -/
inductive ContentType
  | customer
  | project
  | offering
  | resource
  | resourceProject
  | serviceProvider
  | callOrganizer
  | call
  | proposal
  | other (id : ℕ)
deriving DecidableEq, Repr

structure Scope where
  contentType : ContentType
  objectId : ℕ
deriving DecidableEq, Repr

structure Role where
  id : ℕ
  name : String
  template : Option ℕ := none
  contentType : ContentType := .project
  isActive : Bool := true

/-- `is_active` may be null. -/
structure UserRole where
  id : ℕ
  user : ℕ
  role : ℕ
  scope : Scope
  source : String := ""
  expirationTime : Option ℤ := none
  isActive : Option Bool := some true
  created : ℤ := 0
deriving DecidableEq, Repr

abbrev UserRoles := Table ℕ UserRole UserRole.id

/-- A role in a scope. -/
abbrev Pair := Scope × ℕ

namespace UserRole

def active (r : UserRole) : Bool := r.isActive == some true

def pair (r : UserRole) : Pair := (r.scope, r.role)

/-- An active row of a user with a role in a scope. -/
def grants (r : UserRole) (user : ℕ) (pair : Pair) : Bool := r.active && (r.user == user && r.pair == pair)

/-- `UserRole.revoke`. -/
def revoke (now : ℤ) (r : UserRole) : UserRole :=
  if r.active then { r with isActive := some false, expirationTime := some now } else r

/-- `UserRole.restore`. -/
def restore (r : UserRole) : UserRole :=
  if r.active then r else { r with isActive := some true, expirationTime := none }

variable {r : UserRole} {now : ℤ} {user : ℕ} {pair : Pair}

@[simp] theorem id_revoke (now : ℤ) (r : UserRole) : (r.revoke now).id = r.id := by
  unfold revoke
  split <;> rfl

@[simp] theorem user_revoke : (r.revoke now).user = r.user := by
  unfold revoke
  split <;> rfl

@[simp] theorem pair_revoke : (r.revoke now).pair = r.pair := by
  unfold revoke
  split <;> rfl

@[simp] theorem source_revoke : (r.revoke now).source = r.source := by
  unfold revoke
  split <;> rfl

@[simp] theorem active_revoke : (r.revoke now).active = false := by
  unfold revoke
  cases h : r.active with
  | true => rfl
  | false => exact h

@[simp] theorem id_restore (r : UserRole) : r.restore.id = r.id := by
  unfold restore
  split <;> rfl

@[simp] theorem user_restore : r.restore.user = r.user := by
  unfold restore
  split <;> rfl

@[simp] theorem pair_restore : r.restore.pair = r.pair := by
  unfold restore
  split <;> rfl

@[simp] theorem source_restore : r.restore.source = r.source := by
  unfold restore
  split <;> rfl

@[simp] theorem active_restore : r.restore.active = true := by
  unfold restore
  cases h : r.active with
  | true => exact h
  | false => rfl

theorem grants_iff : r.grants user pair = true ↔ r.active = true ∧ r.user = user ∧ r.pair = pair := by
  unfold grants
  rw [Bool.and_eq_true, Bool.and_eq_true, beq_iff_eq, beq_iff_eq]

end UserRole

/-! ## Policy -/

/-- `RoleAvailability` and `CustomerRoleConcealment`, with the chain of each scope. -/
structure Policy where
  ancestors : Scope → List Scope
  availability : List (ℕ × Scope) := []
  concealment : List (ℕ × Scope) := []

inductive GrantError
  | notAvailable
  | concealed
deriving DecidableEq, Repr

def GrantError.message : GrantError → String
  | .notAvailable => "Role is not available for this scope."
  | .concealed => "Role is concealed for this organization."

/-- `check_grant_policy`. -/
def checkGrantPolicy (policy : Policy) (pair : Pair) : Except GrantError Unit :=
  let ancestors := policy.ancestors pair.1
  if (policy.availability.any fun a => a.1 == pair.2) &&
      !(ancestors.any fun ancestor => policy.availability.contains (pair.2, ancestor)) then .error .notAvailable
  else if ancestors.any fun ancestor => policy.concealment.contains (pair.2, ancestor) then .error .concealed
  else .ok ()

/-- The policy accepts a grant. -/
def accepts (policy : Policy) (pair : Pair) : Bool :=
  match checkGrantPolicy policy pair with
  | .ok () => true
  | .error _ => false

/-- The row that `add_user` creates. -/
def newRole (user : ℕ) (pair : Pair) (expirationTime : Option ℤ) (source : String) (now : ℤ) (id : ℕ) : UserRole where
  id := id
  user := user
  role := pair.2
  scope := pair.1
  source := source
  expirationTime := expirationTime
  created := now

theorem id_newRole {user : ℕ} {pair : Pair} {expirationTime : Option ℤ} {source : String} {now : ℤ} (id : ℕ) :
    (newRole user pair expirationTime source now id).id = id := rfl

/-- `add_user`. -/
def addUser (policy : Policy) (rows : UserRoles) (user : ℕ) (pair : Pair) (expirationTime : Option ℤ) (source : String)
    (now : ℤ) : Except GrantError UserRoles := do
  checkGrantPolicy policy pair
  return rows.add (newRole user pair expirationTime source now) id_newRole

end Waldur.Permissions
