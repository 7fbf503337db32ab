import Mathlib
import Waldur.Permissions.Models

/-!
# Permissions.Grants — guarded grants, updates and removals of roles

`validate_role_grant`, `update_user` and `delete_user` of `permissions/utils.py`, and the count of the managers of a
project.  What a check reads besides the grants is the `Site`.
-/

namespace Waldur.Permissions

open Relational

/-- Roles, policy and settings.  `restrictions` is `validate_user_restrictions`, `shared` the flag of an offering. -/
structure Site where
  roles : Table ℕ Role Role.id
  policy : Policy
  shared : Scope → Option Bool := fun _ => none
  restrictions : Scope → ℕ → Bool := fun _ _ => true
  invitationDisableMultipleRoles : Bool := false
  onlyOneProjectManager : Bool := false

/-- The `ValidationError` of a refused grant. -/
inductive RoleGrantError
  | duplicate
  | wrongScope
  | inactiveRole
  | offeringNotAvailable
  | policy (e : GrantError)
  | multipleRoles
  | managerExists
  | restricted
deriving DecidableEq, Repr

def RoleGrantError.message : RoleGrantError → String
  | .duplicate => "User has already the same role in this scope."
  | .wrongScope => "Role is not valid for this scope."
  | .inactiveRole => "Role is not active."
  | .offeringNotAvailable => "Offering is not available."
  | .policy e => e.message
  | .multipleRoles => "User already has role within this scope."
  | .managerExists => "Project already has an active project manager."
  | .restricted => "User does not match the restrictions of the scope."

/-- `RoleEnum.PROJECT_MANAGER`. -/
def projectManager : String := "PROJECT.MANAGER"

section

variable (site : Site)

/-- `role.name == PROJECT_MANAGER`, or that of its template. -/
def isManagerRole (role : ℕ) : Bool :=
  (site.roles.get? role).any fun r => r.name == projectManager ||
    (r.template.bind site.roles.get?).any fun t => t.name == projectManager

/-- `expiration_time=None` or `expiration_time__gte=now`. -/
def unexpired (now : ℤ) (expirationTime : Option ℤ) : Bool := expirationTime.all fun t => decide (now ≤ t)

/-- A row of the managers that `count_active_project_managers` counts, whether or not its user is active. -/
def managerRow (now : ℤ) (project : ℕ) (r : UserRole) : Bool :=
  r.active && r.scope == ⟨.project, project⟩ && isManagerRole site r.role && unexpired now r.expirationTime

/-- `count_active_project_managers`. -/
def countActiveProjectManagers (rows : UserRoles) (userActive : ℕ → Bool) (now : ℤ) (project : ℕ) : ℕ :=
  rows.count fun r => managerRow site now project r && userActive r.user

/-- `has_user`, regardless of expiration; without a role, of any role. -/
def hasUser (rows : UserRoles) (scope : Scope) (user : ℕ) (role : Option ℕ) : Bool :=
  rows.rows.any fun r => r.active && r.user == user && r.scope == scope && role.all (r.role == ·)

/-- `validate_only_one_project_manager`. -/
def validateOnlyOneProjectManager (rows : UserRoles) (userActive : ℕ → Bool) (now : ℤ) (pair : Pair) :
    Except RoleGrantError Unit :=
  if !site.onlyOneProjectManager then .ok ()
  else if pair.1.contentType ≠ .project then .ok ()
  else if !isManagerRole site pair.2 then .ok ()
  else if 1 ≤ countActiveProjectManagers site rows userActive now pair.1.objectId then .error .managerExists
  else .ok ()

/-- `validate_role_grant`, check by check. -/
def validateRoleGrant (rows : UserRoles) (userActive : ℕ → Bool) (now : ℤ) (user : ℕ) (pair : Pair) :
    Except RoleGrantError Unit :=
  if hasUser rows pair.1 user (some pair.2) then .error .duplicate
  else
    match site.roles.get? pair.2 with
    | none => .error .wrongScope
    | some role =>
      if role.contentType ≠ pair.1.contentType then .error .wrongScope
      else if !role.isActive then .error .inactiveRole
      else if site.shared pair.1 = some false then .error .offeringNotAvailable
      else do
        (checkGrantPolicy site.policy pair).mapError .policy
        if site.invitationDisableMultipleRoles && hasUser rows pair.1 user none then .error .multipleRoles
        validateOnlyOneProjectManager site rows userActive now pair
        if site.restrictions pair.1 user then .ok () else .error .restricted

/-- What `UserRole.objects.get(user, role, scope, is_active=True)` raises. -/
inductive GetError
  | doesNotExist
  | multipleObjectsReturned
deriving DecidableEq, Repr

/-- `UserRole.objects.get(user, role, scope, is_active=True)`. -/
def getActive (rows : UserRoles) (user : ℕ) (pair : Pair) : Except GetError UserRole :=
  match rows.rows.filter (·.grants user pair) with
  | [] => .error .doesNotExist
  | [r] => .ok r
  | _ => .error .multipleObjectsReturned

/-- `UserRole.set_expiration_time`. -/
def UserRole.setExpirationTime (expirationTime : Option ℤ) (r : UserRole) : UserRole :=
  { r with expirationTime := expirationTime }

theorem UserRole.id_setExpirationTime (expirationTime : Option ℤ) (r : UserRole) :
    (r.setExpirationTime expirationTime).id = r.id := rfl

/-- `update_user`: `False` without a row. -/
def updateUser (rows : UserRoles) (user : ℕ) (pair : Pair) (expirationTime : Option ℤ) :
    Except GetError (UserRoles × Bool) :=
  match getActive rows user pair with
  | .ok r => .ok (rows.update r.id (UserRole.setExpirationTime expirationTime)
    (UserRole.id_setExpirationTime expirationTime), true)
  | .error .doesNotExist => .ok (rows, false)
  | .error e => .error e

/-- `delete_user`: `False` without a row. -/
def deleteUser (rows : UserRoles) (user : ℕ) (pair : Pair) (now : ℤ) : Except GetError (UserRoles × Bool) :=
  match getActive rows user pair with
  | .ok r => .ok (rows.update r.id (UserRole.revoke now) (UserRole.id_revoke now), true)
  | .error .doesNotExist => .ok (rows, false)
  | .error e => .error e

/-- One row of `check_expired_permissions`, with `is_expiration_exempt`. -/
def UserRole.cleanUp (exempt : UserRole → Bool) (now : ℤ) (r : UserRole) : UserRole :=
  if r.active && !unexpired now r.expirationTime && !exempt r then r.revoke now else r

theorem UserRole.id_cleanUp (exempt : UserRole → Bool) (now : ℤ) (r : UserRole) : (r.cleanUp exempt now).id = r.id := by
  unfold UserRole.cleanUp
  split
  · exact UserRole.id_revoke now r
  · rfl

/-- `check_expired_permissions`. -/
def checkExpiredPermissions (exempt : UserRole → Bool) (now : ℤ) (rows : UserRoles) : UserRoles :=
  rows.mapRows (UserRole.cleanUp exempt now) (UserRole.id_cleanUp exempt now)

end

variable {site : Site} {rows : UserRoles} {userActive : ℕ → Bool} {now : ℤ} {user project : ℕ} {pair : Pair}
  {r : UserRole}

theorem getActive_ok (h : getActive rows user pair = .ok r) :
    rows.get? r.id = some r ∧ r.grants user pair = true ∧ rows.count (·.grants user pair) = 1 := by
  unfold getActive at h
  split at h
  · cases h
  · next r' hrows =>
    obtain rfl := Except.ok.inj h
    have hmem : r' ∈ rows.rows.filter (·.grants user pair) := hrows ▸ List.mem_singleton_self r'
    obtain ⟨hr, hgrants⟩ := List.mem_filter.mp hmem
    refine ⟨Table.get?_eq_some.mpr ⟨hr, rfl⟩, hgrants, ?_⟩
    unfold Table.count
    rw [List.countP_eq_length_filter, hrows, List.length_singleton]
  · cases h

/-- `MultipleObjectsReturned` is raised exactly where more than one row is active. -/
theorem getActive_multiple : getActive rows user pair = .error .multipleObjectsReturned ↔
    1 < rows.count (·.grants user pair) := by
  unfold getActive Table.count
  rw [List.countP_eq_length_filter]
  split
  · next hrows =>
    rw [hrows]
    exact iff_of_false (fun h => by cases h) (by simp)
  · next r' hrows =>
    rw [hrows]
    exact iff_of_false (fun h => by cases h) (by simp)
  · next hnil hone =>
    refine iff_of_true rfl ?_
    cases hrows : rows.rows.filter (·.grants user pair) with
    | nil => exact absurd hrows hnil
    | cons a l =>
      cases l with
      | nil => exact absurd hrows (hone a)
      | cons b l => simp

/-- A grant that passes the checks: the user does not hold the pair, the policy accepts it, and under the setting no
manager is counted where a manager is granted. -/
theorem validateRoleGrant_ok (h : validateRoleGrant site rows userActive now user pair = .ok ()) :
    hasUser rows pair.1 user (some pair.2) = false ∧ accepts site.policy pair = true ∧
      (site.onlyOneProjectManager = true → isManagerRole site pair.2 = true → ∀ project, pair.1 = ⟨.project, project⟩ →
        countActiveProjectManagers site rows userActive now project = 0) := by
  unfold validateRoleGrant at h
  split at h
  · cases h
  next hholds =>
  split at h
  · cases h
  next role _ =>
  split at h
  · cases h
  split at h
  · cases h
  split at h
  · cases h
  cases hpolicy : checkGrantPolicy site.policy pair with
  | error e =>
    rw [hpolicy] at h
    cases h
  | ok u =>
    rw [hpolicy] at h
    cases hmultiple : site.invitationDisableMultipleRoles && hasUser rows pair.1 user none with
    | true =>
      rw [hmultiple] at h
      cases h
    | false =>
      rw [hmultiple] at h
      cases hmanager : validateOnlyOneProjectManager site rows userActive now pair with
      | error e =>
        rw [hmanager] at h
        cases h
      | ok v =>
        refine ⟨by simpa using hholds, by unfold accepts; rw [hpolicy], fun hsetting hrole project hproject => ?_⟩
        unfold validateOnlyOneProjectManager at hmanager
        rw [hsetting, hrole, hproject] at hmanager
        simp only [Bool.not_true, Bool.false_eq_true, if_false, ne_eq, not_true_eq_false] at hmanager
        split at hmanager
        · cases hmanager
        · next hzero => omega

end Waldur.Permissions
