import Mathlib
import Waldur.Lib.Grouping
import Waldur.Lib.Json

/-!
# Permissions.RoleIndex — many permission checks in a few queries

`build_role_index` asks one query for each permission of a list of pairs, over the scopes of all types at once, and
`has_permission` reads the answers instead of its own query.  The index has an answer for exactly the pairs of the list,
and it is the answer of the query (`lookup_buildRoleIndex`).
-/

namespace Waldur.Permissions.RoleIndex

open Grouping

/-! ## The models -/

/-- A value of `PermissionEnum`. -/
structure Permission where
  value : String
deriving DecidableEq, Repr

structure User where
  id : ℕ
  isActive : Bool
  isStaff : Bool
deriving DecidableEq, Repr

/-- `content_type`, `object_id` and `is_active` may be null. -/
structure UserRole where
  user : ℕ
  role : ℕ
  isActive : Option Bool
  contentType : Option ℕ
  objectId : Option ℕ
deriving DecidableEq, Repr

structure RolePermission where
  role : ℕ
  permission : Permission
deriving DecidableEq, Repr

structure Database where
  userRoles : List UserRole
  rolePermissions : List RolePermission

/-- The models of the scopes: content types, primary keys, and the attributes that `hasattr` may find, the value of an
attribute being an object or null. -/
structure Models (S : Type) where
  contentType : S → ℕ
  id : S → ℕ
  isUser : S → Bool
  resource : S → Option (Option S)
  offering : S → Option (Option S)
  project : S → Option (Option S)
  customer : S → Option (Option S)

variable {S : Type}

/-- The content type and the id of a scope. -/
def Models.key (m : Models S) (scope : S) : ℕ × ℕ := (m.contentType scope, m.id scope)

/-- A project and its customer. -/
def Models.projectChain (m : Models S) : Option (Option S) → List (Option S)
  | none => []
  | some project => [project] ++ (project.bind m.customer).toList

/-- `get_scope_ancestors`. -/
def getScopeAncestors (m : Models S) (scope : S) : List S :=
  if m.isUser scope then [scope]
  else
    ([some scope] ++
      (match m.resource scope with
        | none => []
        | some resource =>
          [resource] ++ (resource.bind m.offering).toList ++ m.projectChain (resource.bind m.project)) ++
      (m.offering scope).toList ++
      m.projectChain (m.project scope) ++
      (m.customer scope).toList).reduceOption

/-! ## Callers -/

structure PersonalAccessToken where
  scopes : List String
  allowedScopes : List Json

/-- `request.auth`, by `get_auth_method`. -/
inductive Auth
  | session
  | pat (token : PersonalAccessToken)
  | token
  | oidc
  | unknown

/-- What `has_permission` takes for a request. -/
inductive Caller
  | user (user : User)
  | request (user : User) (auth : Auth)

def Caller.subject : Caller → User
  | .user u => u
  | .request u _ => u

def hashable : Json → Bool
  | .array _ | .object _ => false
  | _ => true

/-- The pair of a binding, unless it is malformed. -/
def bindingPair : Json → Option (Json × Json)
  | .object fields =>
    match fields.lookup "content_type_id", fields.lookup "object_id" with
    | some contentType, some objectId =>
      if hashable contentType && hashable objectId then some (contentType, objectId) else none
    | _, _ => none
  | _ => none

/-- `_pat_allowed_pairs`. -/
def patAllowedPairs (auth : PersonalAccessToken) : List (Json × Json) := auth.allowedScopes.filterMap bindingPair

/-- `_pat_entity_check`. -/
def patEntityCheck (m : Models S) (auth : PersonalAccessToken) (scope : Option S) : Bool :=
  let allowedPairs := patAllowedPairs auth
  if allowedPairs.isEmpty then true
  else
    match scope with
    | none => false
    | some scope =>
      (getScopeAncestors m scope).any fun ancestor => allowedPairs.any fun pair =>
        Json.equals (.number (m.contentType ancestor)) pair.1 && Json.equals (.number (m.id ancestor)) pair.2

/-- `_pat_scope_check`. -/
def patScopeCheck (m : Models S) (caller : Caller) (permission : Permission) (scope : Option S) : Option Bool :=
  match caller with
  | .request _ (.pat auth) =>
    if permission.value ∉ auth.scopes then some false
    else if !patEntityCheck m auth scope then some false
    else none
  | _ => none

/-! ## The queries -/

/-- `UserRole.objects.filter(user=user, is_active=True, role__permissions__permission=permission)`. -/
def Database.rolesWith (db : Database) (user : User) (permission : Permission) : List UserRole :=
  db.userRoles.filter fun r => r.user == user.id && r.isActive == some true &&
    db.rolePermissions.any fun p => p.role == r.role && p.permission == permission

/-- `.filter(scope=scope).exists()`, for a scope by its key. -/
def Database.holds (db : Database) (user : User) (permission : Permission) (key : ℕ × ℕ) : Bool :=
  (db.rolesWith user permission).any fun r => r.objectId == some key.2 && r.contentType == some key.1

/-- `scope_keys_q`; no condition at all where there are no keys. -/
def scopeKeysQ (scopeKeys : List (ℕ × ℕ)) (r : UserRole) : Bool :=
  let byCt := group (fun objectId objectIds => objectIds ++ [objectId]) scopeKeys
  byCt.entries.isEmpty || byCt.entries.any fun entry =>
    r.contentType == some entry.1 && entry.2.any fun objectId => r.objectId == some objectId

/-- Permission, `content_type_id` and `object_id`. -/
abbrev Key := Permission × Option ℕ × Option ℕ

def indexKey (permission : Permission) (key : ℕ × ℕ) : Key := (permission, some key.1, some key.2)

/-- The pairs that `build_role_index` does not skip. -/
def askedFor (m : Models S) (pairs : List (Option Permission × Option S)) : List (Permission × ℕ × ℕ) :=
  pairs.filterMap fun pair =>
    match pair with
    | (some permission, some scope) => some (permission, m.key scope)
    | _ => none

/-- One permission of `build_role_index`. -/
def addPermission (db : Database) (user : User) (index : Dict Key Bool)
    (entry : Σ _ : Permission, List (ℕ × ℕ)) : Dict Key Bool :=
  let held := ((db.rolesWith user entry.1).filter (scopeKeysQ entry.2)).map fun r =>
    (entry.1, r.contentType, r.objectId)
  assign true held (assign false (entry.2.map (indexKey entry.1)) index)

/-- `build_role_index`. -/
def buildRoleIndex (db : Database) (m : Models S) (user : User) (pairs : List (Option Permission × Option S)) :
    Dict Key Bool :=
  (group List.insert (askedFor m pairs)).entries.foldl (addPermission db user) ∅

/-- `has_permission`. -/
def hasPermission (db : Database) (m : Models S) (caller : Caller) (permission : Permission) (scope : Option S)
    (roleIndex : Option (Dict Key Bool)) : Bool :=
  if patScopeCheck m caller permission scope == some false then false
  else if !caller.subject.isActive then false
  else if caller.subject.isStaff then true
  else
    match scope with
    | none => false
    | some scope =>
      match roleIndex.bind fun index => index.lookup (indexKey permission (m.key scope)) with
      | some cached => cached
      | none => db.holds caller.subject permission (m.key scope)

/-! ## The index -/

section Index

variable {db : Database} {m : Models S} {user : User} {permission : Permission} {key : ℕ × ℕ} {r : UserRole}
  {scopeKeys : List (ℕ × ℕ)} {index : Dict Key Bool} {entry : Σ _ : Permission, List (ℕ × ℕ)}
  {entries : List (Σ _ : Permission, List (ℕ × ℕ))}

/-- The disjunction over the content types selects the rows of the keys. -/
theorem scopeKeysQ_iff (hkeys : scopeKeys ≠ []) : scopeKeysQ scopeKeys r = true ↔
    ∃ key ∈ scopeKeys, r.contentType = some key.1 ∧ r.objectId = some key.2 := by
  unfold scopeKeysQ
  simp only [Bool.or_eq_true, List.isEmpty_iff, List.any_eq_true, Bool.and_eq_true, beq_iff_eq]
  rw [or_iff_right (mt group_entries_eq_nil.mp hkeys)]
  constructor
  · rintro ⟨entry, hentry, hct, objectId, hid, hobject⟩
    exact ⟨(entry.1, objectId), (mem_of_mem_entries adds_append hentry).mp hid, hct, hobject⟩
  · rintro ⟨key, hkey, hct, hobject⟩
    obtain ⟨entry, hentry, hfst, hid⟩ := (exists_entry adds_append).mpr hkey
    exact ⟨entry, hentry, hfst ▸ hct, key.2, hid, hobject⟩

theorem holds_iff : db.holds user permission key = true ↔
    ∃ r ∈ db.rolesWith user permission, r.contentType = some key.1 ∧ r.objectId = some key.2 := by
  unfold Database.holds
  simp only [List.any_eq_true, Bool.and_eq_true, beq_iff_eq, and_comm]

theorem indexKey_inj {permission' : Permission} {key' : ℕ × ℕ} :
    indexKey permission key = indexKey permission' key' ↔ permission = permission' ∧ key = key' := by
  unfold indexKey
  simp only [Option.some.injEq, Prod.ext_iff]

/-- One permission answers for its scopes and changes nothing else. -/
theorem lookup_addPermission (hentry : entry.2 ≠ []) :
    (addPermission db user index entry).lookup (indexKey permission key) =
      if entry.1 = permission ∧ key ∈ entry.2 then some (db.holds user permission key)
      else index.lookup (indexKey permission key) := by
  have hheld : indexKey permission key ∈ ((db.rolesWith user entry.1).filter (scopeKeysQ entry.2)).map
      (fun r => (entry.1, r.contentType, r.objectId)) ↔
        (entry.1 = permission ∧ key ∈ entry.2) ∧ db.holds user permission key = true := by
    rw [List.mem_map, holds_iff]
    constructor
    · rintro ⟨r, hr, heq⟩
      obtain ⟨hr, hq⟩ := List.mem_filter.mp hr
      obtain ⟨key', hkey', hct', hobject'⟩ := (scopeKeysQ_iff hentry).mp hq
      obtain ⟨rfl, hrest⟩ := Prod.mk.inj heq
      obtain ⟨hct, hobject⟩ := Prod.mk.inj hrest
      have hkey : key' = key :=
        Prod.ext (Option.some.inj (hct'.symm.trans hct)) (Option.some.inj (hobject'.symm.trans hobject))
      exact ⟨⟨rfl, hkey ▸ hkey'⟩, r, hr, hct, hobject⟩
    · rintro ⟨⟨rfl, hkey⟩, r, hr, hct, hobject⟩
      refine ⟨r, List.mem_filter.mpr ⟨hr, (scopeKeysQ_iff hentry).mpr ⟨key, hkey, hct, hobject⟩⟩, ?_⟩
      rw [hct, hobject]
      rfl
  have hasked : indexKey permission key ∈ entry.2.map (indexKey entry.1) ↔ entry.1 = permission ∧ key ∈ entry.2 := by
    rw [List.mem_map]
    constructor
    · rintro ⟨key', hkey', heq⟩
      obtain ⟨hpermission, rfl⟩ := indexKey_inj.mp heq
      exact ⟨hpermission, hkey'⟩
    · rintro ⟨rfl, hkey⟩
      exact ⟨key, hkey, rfl⟩
  unfold addPermission
  simp only
  rw [lookup_assign, lookup_assign]
  by_cases hcovered : entry.1 = permission ∧ key ∈ entry.2
  · rw [if_pos hcovered, if_pos (hasked.mpr hcovered)]
    cases hholds : db.holds user permission key with
    | true => rw [if_pos (hheld.mpr ⟨hcovered, hholds⟩)]
    | false =>
      rw [if_neg fun h => ?_]
      rw [(hheld.mp h).2] at hholds
      cases hholds
  · rw [if_neg hcovered, if_neg fun h => hcovered (hheld.mp h).1, if_neg (mt hasked.mp hcovered)]

theorem lookup_foldl_addPermission (hentries : ∀ entry ∈ entries, entry.2 ≠ []) :
    (entries.foldl (addPermission db user) index).lookup (indexKey permission key) =
      if ∃ entry ∈ entries, entry.1 = permission ∧ key ∈ entry.2 then some (db.holds user permission key)
      else index.lookup (indexKey permission key) := by
  induction entries generalizing index with
  | nil => simp
  | cons entry entries ih =>
    rw [List.foldl_cons, ih fun e he => hentries e (List.mem_cons_of_mem entry he),
      lookup_addPermission (hentries entry List.mem_cons_self)]
    by_cases hlater : ∃ entry ∈ entries, entry.1 = permission ∧ key ∈ entry.2
    · obtain ⟨e, he, h⟩ := hlater
      rw [if_pos ⟨e, he, h⟩, if_pos ⟨e, List.mem_cons_of_mem entry he, h⟩]
    · rw [if_neg hlater]
      by_cases hnow : entry.1 = permission ∧ key ∈ entry.2
      · rw [if_pos hnow, if_pos ⟨entry, List.mem_cons_self, hnow⟩]
      · rw [if_neg hnow, if_neg]
        rintro ⟨e, he, h⟩
        rcases List.mem_cons.mp he with rfl | he
        · exact hnow h
        · exact hlater ⟨e, he, h⟩

/-- **The index has the answer of the query for the pairs of the list**, and none for the others. -/
theorem lookup_buildRoleIndex {pairs : List (Option Permission × Option S)} :
    (buildRoleIndex db m user pairs).lookup (indexKey permission key) =
      if (permission, key) ∈ askedFor m pairs then some (db.holds user permission key) else none := by
  have hentries : ∀ entry ∈ (group List.insert (askedFor m pairs)).entries, entry.2 ≠ [] := by
    rintro ⟨permission, scopeKeys⟩ hentry
    have hmem : permission ∈ group List.insert (askedFor m pairs) :=
      AList.lookup_isSome.mp (by rw [AList.mem_lookup_iff.mpr hentry]; rfl)
    obtain ⟨pair, hpair, rfl⟩ := List.mem_map.mp (mem_group_keys.mp hmem)
    exact List.ne_nil_of_mem ((mem_of_mem_entries adds_insert hentry).mpr hpair)
  unfold buildRoleIndex
  rw [lookup_foldl_addPermission hentries, AList.lookup_empty]
  simp only [exists_entry adds_insert]

end Index

/-- **A check with the index of its user is the check without**: for every caller, permission and scope. -/
theorem hasPermission_roleIndex (db : Database) (m : Models S) (caller : Caller)
    (pairs : List (Option Permission × Option S)) (permission : Permission) (scope : Option S) :
    hasPermission db m caller permission scope (some (buildRoleIndex db m caller.subject pairs)) =
      hasPermission db m caller permission scope none := by
  have hanswer : ∀ key : ℕ × ℕ, (match (some (buildRoleIndex db m caller.subject pairs)).bind fun index =>
      index.lookup (indexKey permission key) with
      | some cached => cached
      | none => db.holds caller.subject permission key) = db.holds caller.subject permission key := by
    intro key
    rw [Option.bind_some, lookup_buildRoleIndex]
    split_ifs <;> rfl
  unfold hasPermission
  cases scope with
  | none => rfl
  | some scope =>
    simp only
    rw [hanswer]
    rfl

end Waldur.Permissions.RoleIndex
