import Mathlib
import Waldur.Checklist.Models
import Waldur.Lib.PythonText
import Waldur.Lib.Runs

/-!
# Scim.GroupPatch — the operations of a PATCH on the members of a group

`apply_group_patch` sorts the operations into additions, removals and a replacement, and the view applies the
replacement, then the removals, then the additions.  `applySequentially` is what the request asks for: one operation
after another, each naming users by any spelling of their uuids.  `InOrder` is the exact condition for the two to agree.
-/

namespace Waldur.Scim

open PythonText Runs
open Checklist (truthy)

/-! ## The operations -/

/-- `ScimError`, or another exception of a malformed request. -/
inductive ScimError
  /-- "Unsupported PATCH op ...". -/
  | unsupportedOp (verb : String)
  /-- "PATCH 'replace' on a filtered member is not supported." -/
  | filteredReplace
  /-- "'remove' requires a path." -/
  | removeWithoutPath
  /-- "PATCH replace without path requires an object value." -/
  | notAnObject
  /-- "Unsupported PATCH path ...". -/
  | unsupportedPath (path : String)
  /-- "Group 'members' value must be an array of member objects." -/
  | notAnArray
  /-- "Invalid member entry ...". -/
  | invalidMember (item : Json)
  /-- "Group members reference unknown user uuids: ...". -/
  | unknownMembers (ids : List String)
  /-- "Role ... is not active and cannot be assigned; ...". -/
  | inactiveRole
  /-- `AttributeError`: an operation that is no object, or a verb or path that is no text. -/
  | attributeError

inductive Verb
  | add
  | replace
  | remove
deriving DecidableEq

/-- What one operation is about. -/
inductive GroupOperation
  | add (ids : List String)
  | remove (ids : List String)
  | removeAll
  | replace (ids : List String)
  /-- Without a path: the members of the object, if it has any. -/
  | object (adds : Bool) (ids : Option (List String))

/-- `GroupPatchResult`. -/
structure GroupPatchResult where
  addMemberIds : List String := []
  removeMemberIds : List String := []
  replaceMemberIds : Option (List String) := none

/-- `\s`. -/
def isSpace (c : Char) : Bool :=
  let n := c.toNat
  decide (9 ≤ n ∧ n ≤ 13) || decide (28 ≤ n ∧ n ≤ 32) || decide (0x2000 ≤ n ∧ n ≤ 0x200A) ||
    [0x85, 0xA0, 0x1680, 0x2028, 0x2029, 0x202F, 0x205F, 0x3000].contains n

/-- A letter of the pattern under `re.IGNORECASE`, where the long s is an s. -/
def sameLetter (c p : Char) : Bool := c.toLower == p || (c.toNat == 0x17F && p == 's')

/-- What follows a literal of the pattern. -/
def afterLiteral : List Char → List Char → Option (List Char)
  | [], l => some l
  | _ :: _, [] => none
  | p :: ps, c :: l => if sameLetter c p then afterLiteral ps l else none

/-- What follows `\s+`. -/
def afterSpaces : List Char → Option (List Char)
  | c :: l => if isSpace c then some (l.dropWhile isSpace) else none
  | [] => none

def quote : Char := Char.ofNat 34

/-- `_MEMBER_FILTER_RE`: the id of the filter. -/
def memberFilter (path : String) : Option String := do
  let l ← afterLiteral "members[".toList path.toList
  let l ← afterLiteral "value".toList (l.dropWhile isSpace)
  let l ← afterSpaces l
  let l ← afterLiteral "eq".toList l
  let l ← afterSpaces l
  let l ← afterLiteral [quote] l
  let id := l.takeWhile (· != quote)
  let l ← afterLiteral [quote] (l.dropWhile (· != quote))
  let l ← afterLiteral "]".toList (l.dropWhile isSpace)
  if !id.isEmpty && (l == [] || l == ['\n']) then some (String.ofList id) else none

/-- `op.get(key) or ""`, of which a method of `str` is called. -/
def textField (fields : List (String × Json)) (key : String) : Except ScimError String :=
  match fields.lookup key with
  | none => .ok ""
  | some (.string s) => .ok s
  | some value => if truthy value then .error .attributeError else .ok ""

/-- `text.lower()`; no other letter has one of the words that are compared as its lower case. -/
def lower (text : String) : String := String.ofList (text.toList.map Char.toLower)

section Reading

variable (str : Json → String)

/-- `str(value)`, with `str` for a value that is no text. -/
def textOf : Json → String
  | .string s => s
  | value => str value

/-- The id of one member. -/
def memberId : Json → Except ScimError String
  | .object fields =>
    match fields.lookup "value" with
    | some value => if truthy value then .ok (textOf str value) else .error (.invalidMember (.object fields))
    | none => .error (.invalidMember (.object fields))
  | .string s => .ok s
  | item => .error (.invalidMember item)

/-- `_extract_member_ids`. -/
def extractMemberIds : Option Json → Except ScimError (List String)
  | none | some .null => .ok []
  | some (.object fields) => [Json.object fields].mapM (memberId str)
  | some (.array items) => items.mapM (memberId str)
  | some _ => .error .notAnArray

def readVerb (verb : String) : Except ScimError Verb :=
  if verb = "add" then .ok .add else if verb = "replace" then .ok .replace
  else if verb = "remove" then .ok .remove else .error (.unsupportedOp verb)

/-- The branches of the loop of `apply_group_patch`. -/
def readOperation : Json → Except ScimError GroupOperation
  | .object fields => do
    let verb := lower (← textField fields "op")
    let path ← textField fields "path"
    let value := fields.lookup "value"
    let verb ← readVerb verb
    if lower path = "members" then
      let ids ← extractMemberIds str value
      match verb with
      | .add => return .add ids
      | .remove => return if ids.isEmpty then .removeAll else .remove ids
      | .replace => return .replace ids
    else
      match memberFilter path with
      | some id =>
        match verb with
        | .remove => return .remove [id]
        | .add => return .add [id]
        | .replace => .error .filteredReplace
      | none =>
        if path = "" then
          if verb = .remove then .error .removeWithoutPath
          else
            match value with
            | some (.object fields) =>
              match fields.lookup "members" with
              | some members => return .object (verb = .add) (some (← extractMemberIds str (some members)))
              | none => return .object (verb = .add) none
            | _ => .error .notAnObject
        else .error (.unsupportedPath path)
  | _ => .error .attributeError

end Reading

/-- The list that the operation puts in place of the members. -/
def GroupOperation.replacement : GroupOperation → Option (List String)
  | .removeAll => some []
  | .replace ids => some ids
  | .object _ ids => ids
  | _ => none

/-- What one operation adds to the result. -/
def GroupPatchResult.collect (result : GroupPatchResult) : GroupOperation → GroupPatchResult
  | .add ids => { result with addMemberIds := result.addMemberIds ++ ids }
  | .remove ids => { result with removeMemberIds := result.removeMemberIds ++ ids }
  | op => { result with replaceMemberIds := op.replacement.or result.replaceMemberIds }

/-- `apply_group_patch`, of operations that are read. -/
def applyGroupPatch (ops : List GroupOperation) : GroupPatchResult := ops.foldl GroupPatchResult.collect {}

/-! ## The view -/

abbrev Members := Finset Uuid

section View

/- The users that `User.objects` finds, the active ones, and `role.is_active`. -/
variable (found : Uuid → Bool) (roleActive : Bool)

/-- `User.objects.filter(uuid__in=ids)`; an id that is no uuid is dropped from the query. -/
def findUsers (ids : List String) : List Uuid := ((ids.filterMap readUuid).dedup).filter found

/-- The ids that are not the `uuid.hex` of a user found. -/
def missing (ids : List String) : List String := ids.filter fun id => !((findUsers found ids).map hex).contains id

/-- `_grant_membership` where the grant is accepted. -/
def grantMembership (members : Members) (user : Uuid) : Members := insert user members

/-- `delete_user`, of a user with at most one active row. -/
def deleteMember (members : Members) (user : Uuid) : Members := members.erase user

/-- `_require_grantable_role` before the grants, if there are any. -/
def grantAll (members : Members) (toAdd : List Uuid) : Except ScimError Members :=
  if toAdd.isEmpty then .ok members
  else if roleActive then .ok (toAdd.foldl grantMembership members)
  else .error .inactiveRole

/-- `_sync_members`. -/
def syncMembers (members : Members) (ids : List String) : Except ScimError Members :=
  if missing found ids = [] then
    grantAll roleActive members ((findUsers found ids).filter fun u => decide (u ∉ members))
  else .error (.unknownMembers (missing found ids))

/-- `_replace_members`; that the role is inactive is raised before the first removal. -/
def replaceMembers (members : Members) (ids : List String) : Except ScimError Members :=
  if missing found ids = [] then
    let users := findUsers found ids
    grantAll roleActive (members.filter fun u => u ∈ users) (users.filter fun u => decide (u ∉ members))
  else .error (.unknownMembers (missing found ids))

/-- One turn of the loop of `_remove_members`: `user_map.get(uuid_hex)`. -/
def removeMember (users : List Uuid) (members : Members) (id : String) : Members :=
  match users.find? fun u => hex u == id with
  | none => members
  | some user => deleteMember members user

/-- `_remove_members`. -/
def removeMembers (members : Members) (ids : List String) : Members :=
  ids.foldl (removeMember (findUsers found ids)) members

/-- `_replace_members`, if the result has a replacement. -/
def applyReplacement (members : Members) : Option (List String) → Except ScimError Members
  | none => .ok members
  | some ids => replaceMembers found roleActive members ids

/-- The transaction of `GroupDetailView.patch`. -/
def applyResult (members : Members) (result : GroupPatchResult) : Except ScimError Members := do
  let members ← applyReplacement found roleActive members result.replaceMemberIds
  syncMembers found roleActive (removeMembers found members result.removeMemberIds) result.addMemberIds

/-- `GroupDetailView.patch`. -/
def patch (str : Json → String) (members : Members) (operations : List Json) : Except ScimError Members := do
  let ops ← operations.mapM (readOperation str)
  applyResult found roleActive members (applyGroupPatch ops)

end View

/-! ## What the request asks for -/

/-- The users that a list of ids names, in any spelling. -/
def named (ids : List String) : Members := (ids.filterMap readUuid).toFinset

/-- One operation on the members. -/
def GroupOperation.apply (members : Members) : GroupOperation → Members
  | .add ids => members ∪ named ids
  | .remove ids => members \ named ids
  | .removeAll => ∅
  | .replace ids => named ids
  | .object _ none => members
  | .object true (some ids) => members ∪ named ids
  | .object false (some ids) => named ids

/-- The operations one after another. -/
def applySequentially (members : Members) (ops : List GroupOperation) : Members :=
  ops.foldl GroupOperation.apply members

/-- Whether the operation, by itself, leaves the user in the group; `none` if it does not touch the user. -/
def GroupOperation.word (u : Uuid) : GroupOperation → Option Bool
  | .add ids => if u ∈ named ids then some true else none
  | .remove ids => if u ∈ named ids then some false else none
  | .removeAll => some false
  | .replace ids => some (decide (u ∈ named ids))
  | .object _ none => none
  | .object true (some ids) => if u ∈ named ids then some true else none
  | .object false (some ids) => some (decide (u ∈ named ids))

/-- The last word on a user. -/
def lastWord (ops : List GroupOperation) (u : Uuid) : Option Bool :=
  ops.foldl (fun word op => (op.word u).or word) none

/-- The last list that an operation puts in place of the members. -/
def lastReplacement (ops : List GroupOperation) : Option (List String) :=
  ops.foldl (fun replacement op => op.replacement.or replacement) none

/-- Some addition names the user. -/
def Added (ops : List GroupOperation) (u : Uuid) : Prop := ∃ ids, .add ids ∈ ops ∧ u ∈ named ids

/-- Some removal names the user, whom the query finds, by its `uuid.hex`. -/
def Removed (found : Uuid → Bool) (ops : List GroupOperation) (u : Uuid) : Prop :=
  found u = true ∧ ∃ ids, .remove ids ∈ ops ∧ hex u ∈ ids

/-- **The order of the operations does not matter**: the last word on a user who is added takes them in, that on one
who is only removed takes them out, and on all others it agrees with the last replacement, or takes no member out. -/
structure InOrder (found : Uuid → Bool) (members : Members) (ops : List GroupOperation) : Prop where
  added : ∀ u, Added ops u → lastWord ops u = some true
  removed : ∀ u, ¬ Added ops u → Removed found ops u → lastWord ops u = some false
  replaced : ∀ u ids, ¬ Added ops u → ¬ Removed found ops u → lastReplacement ops = some ids →
    ((lastWord ops u).getD (decide (u ∈ members)) = true ↔ u ∈ named ids)
  others : ∀ u, ¬ Added ops u → ¬ Removed found ops u → lastReplacement ops = none → u ∈ members →
    lastWord ops u ≠ some false

variable {found : Uuid → Bool} {roleActive : Bool} {members result : Members} {ids : List String} {u : Uuid}
  {ops : List GroupOperation}

/-! ## Ids and users -/

theorem mem_named : u ∈ named ids ↔ ∃ id ∈ ids, readUuid id = some u := by
  unfold named
  rw [List.mem_toFinset, List.mem_filterMap]

theorem mem_named_of_hex (h : hex u ∈ ids) : u ∈ named ids := mem_named.mpr ⟨hex u, h, readUuid_hex u⟩

theorem hex_injective {v : Uuid} (h : hex u = hex v) : u = v := by
  have hread := congrArg readUuid h
  rw [readUuid_hex, readUuid_hex] at hread
  exact Option.some.inj hread

theorem mem_findUsers : u ∈ findUsers found ids ↔ u ∈ named ids ∧ found u = true := by
  unfold findUsers named
  rw [List.mem_filter, List.mem_dedup, List.mem_toFinset]

/-- Ids none of which is missing are the `uuid.hex` of users that are found. -/
theorem mem_findUsers_of_missing (h : missing found ids = []) : u ∈ findUsers found ids ↔ u ∈ named ids := by
  refine ⟨fun hu => (mem_findUsers.mp hu).1, fun hu => ?_⟩
  obtain ⟨id, hid, hread⟩ := mem_named.mp hu
  have hfound : ((findUsers found ids).map hex).contains id = true := by
    have hall := List.filter_eq_nil_iff.mp h id hid
    rwa [Bool.not_eq_true, Bool.not_eq_false'] at hall
  obtain ⟨v, hv, rfl⟩ := List.mem_map.mp (List.contains_iff_mem.mp hfound)
  rw [readUuid_hex] at hread
  rwa [← Option.some.inj hread]

/-! ## What the view does to a user -/

theorem mem_foldl_grant {l : List Uuid} : u ∈ l.foldl grantMembership members ↔ u ∈ members ∨ u ∈ l := by
  induction l generalizing members with
  | nil => simp
  | cons v l ih =>
    rw [List.foldl_cons, ih, List.mem_cons]
    unfold grantMembership
    rw [Finset.mem_insert]
    tauto

theorem mem_grantAll {l : List Uuid} (h : grantAll roleActive members l = .ok result) :
    u ∈ result ↔ u ∈ members ∨ u ∈ l := by
  unfold grantAll at h
  split at h
  · next hempty =>
    obtain rfl := Except.ok.inj h
    rw [List.isEmpty_iff.mp hempty]
    simp
  · split at h
    · obtain rfl := Except.ok.inj h
      exact mem_foldl_grant
    · cases h

theorem mem_syncMembers (h : syncMembers found roleActive members ids = .ok result) :
    u ∈ result ↔ u ∈ members ∨ u ∈ named ids := by
  unfold syncMembers at h
  split at h
  · next hmissing =>
    rw [mem_grantAll h, List.mem_filter, mem_findUsers_of_missing hmissing, decide_eq_true_eq]
    tauto
  · cases h

theorem mem_replaceMembers (h : replaceMembers found roleActive members ids = .ok result) :
    u ∈ result ↔ u ∈ named ids := by
  unfold replaceMembers at h
  split at h
  · next hmissing =>
    rw [mem_grantAll h, Finset.mem_filter, List.mem_filter, mem_findUsers_of_missing hmissing, decide_eq_true_eq]
    tauto
  · cases h

theorem mem_removeMember {users : List Uuid} {id : String} :
    u ∈ removeMember users members id ↔ u ∈ members ∧ ¬ (u ∈ users ∧ hex u = id) := by
  unfold removeMember
  cases hfind : users.find? fun u => hex u == id with
  | none =>
    refine (and_iff_left ?_).symm
    rintro ⟨hu, rfl⟩
    exact List.find?_eq_none.mp hfind u hu (beq_self_eq_true _)
  | some v =>
    have hbeq := List.find?_some hfind
    have hv : hex v = id := beq_iff_eq.mp hbeq
    have hmem := List.mem_of_find?_eq_some hfind
    unfold deleteMember
    dsimp only
    rw [Finset.mem_erase, and_comm]
    refine and_congr_right fun _ => not_congr ⟨?_, ?_⟩
    · rintro rfl
      exact ⟨hmem, hv⟩
    · rintro ⟨-, hu⟩
      exact hex_injective (hu.trans hv.symm)

theorem mem_foldl_removeMember {users : List Uuid} :
    u ∈ ids.foldl (removeMember users) members ↔ u ∈ members ∧ ¬ (u ∈ users ∧ hex u ∈ ids) := by
  induction ids generalizing members with
  | nil => simp
  | cons id ids ih =>
    rw [List.foldl_cons, ih, mem_removeMember, List.mem_cons, and_or_left, not_or, and_assoc]

/-- A removal reaches a user by the `uuid.hex` alone, and only one that the query finds. -/
theorem mem_removeMembers : u ∈ removeMembers found members ids ↔ u ∈ members ∧ ¬ (found u = true ∧ hex u ∈ ids) := by
  unfold removeMembers
  rw [mem_foldl_removeMember, mem_findUsers]
  refine and_congr_right fun _ => not_congr ⟨?_, ?_⟩
  · rintro ⟨⟨-, hfound⟩, hid⟩
    exact ⟨hfound, hid⟩
  · rintro ⟨hfound, hid⟩
    exact ⟨⟨mem_named_of_hex hid, hfound⟩, hid⟩

/-- The members before the removals and the additions. -/
theorem mem_applyResult {r : GroupPatchResult} (h : applyResult found roleActive members r = .ok result) :
    u ∈ result ↔ ((match r.replaceMemberIds with
        | none => u ∈ members
        | some ids => u ∈ named ids) ∧ ¬ (found u = true ∧ hex u ∈ r.removeMemberIds)) ∨
      u ∈ named r.addMemberIds := by
  obtain ⟨base, hbase, hsync⟩ := bind_eq_ok.mp h
  rw [mem_syncMembers hsync, mem_removeMembers]
  cases hreplace : r.replaceMemberIds with
  | none =>
    rw [hreplace] at hbase
    obtain rfl := Except.ok.inj hbase
    rfl
  | some ids =>
    rw [hreplace] at hbase
    rw [mem_replaceMembers hbase]

/-! ## The buckets -/

theorem foldl_collect {r : GroupPatchResult} : (∀ id, id ∈ (ops.foldl GroupPatchResult.collect r).addMemberIds ↔
      id ∈ r.addMemberIds ∨ ∃ ids, .add ids ∈ ops ∧ id ∈ ids) ∧
    (∀ id, id ∈ (ops.foldl GroupPatchResult.collect r).removeMemberIds ↔
      id ∈ r.removeMemberIds ∨ ∃ ids, .remove ids ∈ ops ∧ id ∈ ids) ∧
    (ops.foldl GroupPatchResult.collect r).replaceMemberIds =
      ops.foldl (fun replacement op => op.replacement.or replacement) r.replaceMemberIds := by
  induction ops generalizing r with
  | nil => simp
  | cons op ops ih =>
    obtain ⟨hadd, hremove, hreplace⟩ := @ih (r.collect op)
    rw [List.foldl_cons]
    refine ⟨fun id => ?_, fun id => ?_, ?_⟩
    · rw [hadd]
      cases op <;> simp [GroupPatchResult.collect, or_assoc, or_and_right, exists_or]
    · rw [hremove]
      cases op <;> simp [GroupPatchResult.collect, or_assoc, or_and_right, exists_or]
    · rw [hreplace, List.foldl_cons]
      cases op <;> rfl

theorem mem_named_addMemberIds : u ∈ named (applyGroupPatch ops).addMemberIds ↔ Added ops u := by
  unfold applyGroupPatch Added
  rw [mem_named]
  simp only [foldl_collect.1, List.not_mem_nil, false_or, mem_named]
  constructor
  · rintro ⟨id, ⟨ids, hop, hid⟩, hread⟩
    exact ⟨ids, hop, id, hid, hread⟩
  · rintro ⟨ids, hop, id, hid, hread⟩
    exact ⟨id, ⟨ids, hop, hid⟩, hread⟩

theorem removed_iff : found u = true ∧ hex u ∈ (applyGroupPatch ops).removeMemberIds ↔ Removed found ops u := by
  unfold applyGroupPatch Removed
  simp only [foldl_collect.2.1, List.not_mem_nil, false_or]

theorem replaceMemberIds_applyGroupPatch : (applyGroupPatch ops).replaceMemberIds = lastReplacement ops :=
  foldl_collect.2.2

/-! ## The last word -/

/-- The last of what the elements of a list say is what one of them says. -/
theorem foldl_or {α β : Type} {f : α → Option β} : ∀ {l : List α} {b : Option β} {x : β},
    l.foldl (fun b a => (f a).or b) b = some x → b = some x ∨ ∃ a ∈ l, f a = some x
  | [], b, x, h => Or.inl h
  | a :: l, b, x, h => by
    rcases foldl_or (l := l) h with hfirst | ⟨a', ha', hx⟩
    · rcases Option.or_eq_some_iff.mp hfirst with hx | ⟨-, hx⟩
      · exact Or.inr ⟨a, List.mem_cons_self, hx⟩
      · exact Or.inl hx
    · exact Or.inr ⟨a', List.mem_cons_of_mem a ha', hx⟩

/-- Where nothing is said, no element says anything. -/
theorem foldl_or_none {α β : Type} {f : α → Option β} : ∀ {l : List α} {b : Option β},
    l.foldl (fun b a => (f a).or b) b = none → b = none ∧ ∀ a ∈ l, f a = none
  | [], b, h => ⟨h, fun a ha => absurd ha List.not_mem_nil⟩
  | a :: l, b, h => by
    obtain ⟨hfirst, hrest⟩ := foldl_or_none (l := l) h
    obtain ⟨hfa, hb⟩ := Option.or_eq_none_iff.mp hfirst
    exact ⟨hb, List.forall_mem_cons.mpr ⟨hfa, hrest⟩⟩

/-- An operation says of a user whether they are in the group after it. -/
theorem mem_apply {op : GroupOperation} :
    u ∈ op.apply members ↔ (op.word u).getD (decide (u ∈ members)) = true := by
  cases op with
  | add ids => by_cases h : u ∈ named ids <;> simp [GroupOperation.apply, GroupOperation.word, h]
  | remove ids => by_cases h : u ∈ named ids <;> simp [GroupOperation.apply, GroupOperation.word, h]
  | removeAll => simp [GroupOperation.apply, GroupOperation.word]
  | replace ids => simp [GroupOperation.apply, GroupOperation.word]
  | object adds ids =>
    cases ids with
    | none => simp [GroupOperation.apply, GroupOperation.word]
    | some ids =>
      cases adds with
      | true => by_cases h : u ∈ named ids <;> simp [GroupOperation.apply, GroupOperation.word, h]
      | false => simp [GroupOperation.apply, GroupOperation.word]

/-- The operations one after another leave a user in the group as the last word on them says. -/
theorem mem_applySequentially :
    u ∈ applySequentially members ops ↔ (lastWord ops u).getD (decide (u ∈ members)) = true := by
  induction ops using List.reverseRecOn with
  | nil => simp [applySequentially, lastWord]
  | append_singleton ops op ih =>
    unfold applySequentially lastWord at ih ⊢
    rw [List.foldl_append, List.foldl_append, List.foldl_cons, List.foldl_nil, List.foldl_cons, List.foldl_nil]
    rw [mem_apply]
    cases op.word u with
    | some b => simp
    | none => simpa using ih

/-- There is a word on a user whom an addition or a removal names. -/
theorem lastWord_ne_none (h : Added ops u ∨ Removed found ops u) : lastWord ops u ≠ none := by
  intro hnone
  obtain ⟨-, hall⟩ := foldl_or_none hnone
  rcases h with ⟨ids, hop, hu⟩ | ⟨-, ids, hop, hu⟩
  · have hword := hall _ hop
    rw [GroupOperation.word, if_pos hu] at hword
    cases hword
  · have hword := hall _ hop
    rw [GroupOperation.word, if_pos (mem_named_of_hex hu)] at hword
    cases hword

/-- Without additions and replacements nobody is taken in. -/
theorem lastWord_ne_true (hadded : ¬ Added ops u) (hnone : lastReplacement ops = none) :
    lastWord ops u ≠ some true := by
  intro htrue
  obtain ⟨-, hall⟩ := foldl_or_none hnone
  rcases foldl_or htrue with hnil | ⟨op, hop, hword⟩
  · cases hnil
  · have hreplacement := hall op hop
    cases op with
    | add ids =>
      dsimp only [GroupOperation.word] at hword
      split at hword
      · next hu => exact hadded ⟨ids, hop, hu⟩
      · cases hword
    | remove ids =>
      dsimp only [GroupOperation.word] at hword
      split at hword <;> cases hword
    | removeAll => cases hreplacement
    | replace ids => cases hreplacement
    | object adds ids =>
      obtain rfl : ids = none := hreplacement
      cases hword

/-- Who is in the group after the PATCH. -/
theorem mem_patched (h : applyResult found roleActive members (applyGroupPatch ops) = .ok result) :
    u ∈ result ↔ ((match lastReplacement ops with
        | none => u ∈ members
        | some ids => u ∈ named ids) ∧ ¬ Removed found ops u) ∨ Added ops u := by
  rw [mem_applyResult h, mem_named_addMemberIds, removed_iff, replaceMemberIds_applyGroupPatch]

/-- **When a PATCH is the sequence of its operations**: the members after an accepted request are those after its
operations one by one, exactly if their order does not matter. -/
theorem patch_iff (found : Uuid → Bool) (roleActive : Bool) (str : Json → String) (members result : Members)
    (operations : List Json) (ops : List GroupOperation) (hops : operations.mapM (readOperation str) = .ok ops)
    (hok : patch found roleActive str members operations = .ok result) :
    result = applySequentially members ops ↔ InOrder found members ops := by
  have happlied : applyResult found roleActive members (applyGroupPatch ops) = .ok result := by
    obtain ⟨ops', hops', h⟩ := bind_eq_ok.mp hok
    obtain rfl := Except.ok.inj (hops.symm.trans hops')
    exact h
  rw [Finset.ext_iff]
  constructor
  · intro hsame
    have hword : ∀ u, _ := fun u => (mem_patched happlied).symm.trans ((hsame u).trans mem_applySequentially)
    refine ⟨fun u hadded => ?_, fun u hadded hremoved => ?_, fun u ids hadded hremoved hlast => ?_,
      fun u hadded hremoved hlast hmember hfalse => ?_⟩
    · have htrue := (hword u).mp (Or.inr hadded)
      cases h : lastWord ops u with
      | none => exact absurd h (@lastWord_ne_none found _ _ (Or.inl hadded))
      | some b =>
        rw [h] at htrue
        exact congrArg some htrue
    · cases h : lastWord ops u with
      | none => exact absurd h (lastWord_ne_none (Or.inr hremoved))
      | some b =>
        cases b with
        | false => rfl
        | true =>
          rcases (hword u).mpr (by rw [h]; rfl) with ⟨-, hnot⟩ | hin
          · exact absurd hremoved hnot
          · exact absurd hin hadded
    · have hu := hword u
      rw [hlast] at hu
      exact hu.symm.trans (by tauto)
    · have hu := hword u
      rw [hlast, hfalse] at hu
      have hin := hu.mp (Or.inl ⟨hmember, hremoved⟩)
      cases hin
  · intro horder u
    rw [mem_patched happlied, mem_applySequentially]
    by_cases hadded : Added ops u
    · rw [horder.added u hadded]
      exact iff_of_true (Or.inr hadded) rfl
    · by_cases hremoved : Removed found ops u
      · rw [horder.removed u hadded hremoved]
        refine iff_of_false ?_ Bool.false_ne_true
        rintro (⟨-, hnot⟩ | hin)
        · exact hnot hremoved
        · exact hadded hin
      · cases hlast : lastReplacement ops with
        | some ids =>
          rw [horder.replaced u ids hadded hremoved hlast]
          dsimp only
          tauto
        | none =>
          have hothers := horder.others u hadded hremoved hlast
          have hnottrue := lastWord_ne_true hadded hlast
          dsimp only
          cases h : lastWord ops u with
          | none =>
            rw [Option.getD_none, decide_eq_true_eq]
            tauto
          | some b =>
            cases b with
            | true => exact absurd h hnottrue
            | false =>
              have hnotMember : u ∉ members := fun hmember => hothers hmember h
              refine iff_of_false ?_ Bool.false_ne_true
              tauto

/-- An operation on the `members` path with one member. -/
def onMember (verb : String) (user : Uuid) : Json :=
  .object [("op", .string verb), ("path", .string "members"),
    ("value", .array [.object [("value", .string (hex user))]])]

/-- The handover with the removal first is in order, since it is its sequence. -/
theorem handover_inOrder : InOrder (fun _ => true) {1} [.remove [hex 1], .add [hex 2]] := by
  have hread : [onMember "remove" 1, onMember "add" 2].mapM (readOperation fun _ => "") =
      .ok [.remove [hex 1], .add [hex 2]] := rfl
  have hpatch : patch (fun _ => true) true (fun _ => "") {1} [onMember "remove" 1, onMember "add" 2] = .ok {2} := rfl
  refine (patch_iff _ true _ _ _ _ _ hread hpatch).mp ?_
  decide

/-- A user who is added and then removed stays in the group. -/
theorem removed_stays : ¬ ∀ (found : Uuid → Bool) (roleActive : Bool) (str : Json → String) (members result : Members)
    (operations : List Json) (ops : List GroupOperation), operations.mapM (readOperation str) = .ok ops →
      patch found roleActive str members operations = .ok result → result = applySequentially members ops := by
  intro hall
  have hread : [onMember "add" 1, onMember "remove" 1].mapM (readOperation fun _ => "") =
      .ok [.add [hex 1], .remove [hex 1]] := rfl
  have hpatch : patch (fun _ => true) true (fun _ => "") ∅ [onMember "add" 1, onMember "remove" 1] = .ok {1} := rfl
  have hsame := hall _ true _ _ _ _ _ hread hpatch
  revert hsame
  decide

end Waldur.Scim
