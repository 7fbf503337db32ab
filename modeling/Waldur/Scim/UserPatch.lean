import Waldur.Scim.SshKeys

/-!
# Scim.UserPatch — the operations of a PATCH on the keys of a user

`apply_user_patch` sorts the operations on keys into a replacement, additions and removals, and the view applies the
replacement, then the additions, then the removals.  `applySequentially` is what the request asks for: one operation after
another.  What the operations on other attributes set is left out, their errors are not.
-/

namespace Waldur.Scim

open PythonText Runs
open Checklist (truthy)

/-! ## Paths -/

/-- `path.lower()`; the Kelvin sign has a plain letter as its lower case. -/
def lowerPath (path : String) : String :=
  String.ofList (path.toList.map fun c => if c.toNat = 0x212A then 'k' else c.toLower)

/-- A letter of the pattern under `re.IGNORECASE`. -/
def samePathLetter (c p : Char) : Bool :=
  sameLetter c p || (c.toNat == 0x212A && p == 'k') || ((c.toNat == 0x130 || c.toNat == 0x131) && p == 'i')

/-- What follows a literal of the pattern. -/
def afterText : List Char → List Char → Option (List Char)
  | [], l => some l
  | _ :: _, [] => none
  | p :: ps, c :: l => if samePathLetter c p then afterText ps l else none

def enterpriseUrn : String := "urn:ietf:params:scim:schemas:extension:enterprise:2.0:user"

def waldurUrn : String := "urn:waldur:params:scim:schemas:extension:user:1.0"

/-- `_SSH_FILTER_RE`: the key of the filter. -/
def sshFilter (path : String) : Option String := do
  let l ← afterText "sshpublickeys[".toList ((afterText (waldurUrn ++ ":").toList path.toList).getD path.toList)
  let l ← afterLiteral "value".toList (l.dropWhile isSpace)
  let l ← afterSpaces l
  let l ← afterLiteral "eq".toList l
  let l ← afterSpaces l
  let l ← afterLiteral [quote] l
  let material := l.takeWhile (· != quote)
  let l ← afterLiteral [quote] (l.dropWhile (· != quote))
  let l ← afterLiteral "]".toList (l.dropWhile isSpace)
  if !material.isEmpty && (l == [] || l == ['\n']) then some (String.ofList material) else none

/-- `_SSH_KEYS_PATHS`. -/
def sshKeysPaths : List String := ["sshpublickeys", waldurUrn ++ ":sshpublickeys"]

/-- `_EXTENSION_ATTRIBUTE_PATHS`. -/
def extensionAttributePaths : List String :=
  [enterpriseUrn ++ ":organization", waldurUrn ++ ":civilnumber", waldurUrn ++ ":affiliations",
    waldurUrn ++ ":edupersonassurance"]

/-- `_EXTENSION_OBJECT_PATHS`. -/
def extensionObjectPaths : List String := [enterpriseUrn, waldurUrn]

/-- Paths of attributes that any operation sets. -/
def attributePaths : List String :=
  ["externalid", "name.givenname", "name.familyname", "displayname", "emails", "phonenumbers"]

/-! ## The operations -/

/-- What one operation is about. -/
inductive UserOperation
  /-- Attributes other than the keys. -/
  | other
  | addKeys (entries : List Json)
  | addKey (material : String)
  | removeKey (material : String)
  | removeAllKeys
  | replaceKeys (entries : List Json)
  /-- An object of attributes, with the keys it has, if any. -/
  | object (adds : Bool) (entries : Option (List Json))

/-- `_ssh_key_entries`. -/
def sshKeyEntries : Option Json → Except KeyError (List Json)
  | none | some .null => .ok []
  | some (.object fields) => .ok [.object fields]
  | some (.array items) => .ok items
  | some _ => .error .notAnArray

/-- The keys of an extension object: of several fields in different case, the last. -/
def extensionKeys (fields : List (String × Json)) : Except KeyError (Option (List Json)) :=
  fields.foldlM (fun keys field =>
    if lowerPath field.1 = "sshpublickeys" then (sshKeyEntries (some field.2)).map some else .ok keys) none

/-- The keys in `_merge_user_attributes`: of the extension, in any case of its name. -/
def userKeys (fields : List (String × Json)) : Except KeyError (Option (List Json)) :=
  fields.foldlM (fun keys field =>
    match field.2 with
    | .object fields =>
      if lowerPath field.1 = waldurUrn then do return (← extensionKeys fields).or keys else .ok keys
    | _ => .ok keys) none

/-- `_apply_user_path`, of the filter of a key. -/
def readFilter (material : String) : Verb → Except KeyError UserOperation
  | .remove => .ok (.removeKey material)
  | .add => .ok (.addKey material)
  | .replace => .error .filteredReplace

/-- `_apply_user_path`, after the filter. -/
def readKeysPath (verb : Verb) (path : String) (value : Option Json) : Except KeyError UserOperation :=
  let lc := lowerPath path
  if sshKeysPaths.contains lc then
    match verb with
    | .add => (sshKeyEntries value).map .addKeys
    | .remove => .ok .removeAllKeys
    | .replace => (sshKeyEntries value).map .replaceKeys
  else if extensionAttributePaths.contains lc then .ok .other
  else if extensionObjectPaths.contains lc then
    match verb, value with
    | .remove, _ => .ok .other
    | _, some (.object fields) => (extensionKeys fields).map (.object (verb = .add))
    | _, _ => .error .extensionNotAnObject
  else .error (.operation (.unsupportedPath path))

/-- `_apply_user_path`. -/
def readUserPath (verb : Verb) (path : String) (value : Option Json) : Except KeyError UserOperation :=
  let lc := lowerPath path
  if lc = "active" then if verb = .remove then .error .removeActive else .ok .other
  else if lc = "username" then .error .userName
  else if lc = "name" then
    match verb, value with
    | .remove, _ => .ok .other
    | _, some (.object _) => .ok .other
    | _, _ => .error .nameNotAnObject
  else if attributePaths.contains lc then .ok .other
  else
    match sshFilter path with
    | some material => readFilter material verb
    | none => readKeysPath verb path value

/-- The branches of the loop of `apply_user_patch`. -/
def readUserOperation : Json → Except KeyError UserOperation
  | .object fields => do
    let verb ← (textField fields "op").mapError .operation
    let verb ← (readVerb (lower verb)).mapError .operation
    let path ← (textField fields "path").mapError .operation
    let value := fields.lookup "value"
    if path = "" then
      if verb = .remove then .error (.operation .removeWithoutPath)
      else
        match value with
        | some (.object fields) => (userKeys fields).map (.object (verb = .add))
        | _ => .error (.operation .notAnObject)
    else readUserPath verb path value
  | _ => .error (.operation .attributeError)

/-- The keys of `UserPatchResult`. -/
structure UserPatchResult where
  addSshKeys : List Json := []
  removeSshKeyValues : List String := []
  replaceSshKeys : Option (List Json) := none

/-- The list that the operation puts in place of the keys. -/
def UserOperation.replacement : UserOperation → Option (List Json)
  | .removeAllKeys => some []
  | .replaceKeys entries => some entries
  | .object _ entries => entries
  | _ => none

/-- An entry with the key of a filter. -/
def filterEntry (material : String) : Json := .object [("value", .string material)]

/-- What one operation adds to the result. -/
def UserPatchResult.collect (result : UserPatchResult) : UserOperation → UserPatchResult
  | .addKeys entries => { result with addSshKeys := result.addSshKeys ++ entries }
  | .addKey material => { result with addSshKeys := result.addSshKeys ++ [filterEntry material] }
  | .removeKey material => { result with removeSshKeyValues := result.removeSshKeyValues ++ [material] }
  | op => { result with replaceSshKeys := op.replacement.or result.replaceSshKeys }

/-- `apply_user_patch`, of operations that are read. -/
def applyUserPatch (ops : List UserOperation) : UserPatchResult := ops.foldl UserPatchResult.collect {}

/-! ## The view -/

section View

variable (loads : String → Bool) (allowedTypes : List String)

/-- The synchronisation that replaces, if the result has a replacement. -/
def replaceKeys (existing : List SshKey) : Option (List Json) → Except KeyError (List SshKey)
  | none => .ok existing
  | some items => do
    let entries ← normalizeEntries items
    syncSshKeys loads allowedTypes true existing entries

/-- The synchronisation that adds, if there is anything to add. -/
def addKeys (existing : List SshKey) (items : List Json) : Except KeyError (List SshKey) :=
  if items = [] then .ok existing
  else do
    let entries ← normalizeEntries items
    syncSshKeys loads allowedTypes false existing entries

/-- Keys in the transaction of `UserDetailView.patch`, where `_ssh_keys_enabled()`. -/
def applyKeys (existing : List SshKey) (result : UserPatchResult) : Except KeyError (List SshKey) := do
  let replaced ← replaceKeys loads allowedTypes existing result.replaceSshKeys
  let added ← addKeys loads allowedTypes replaced result.addSshKeys
  return removeSshKeys added result.removeSshKeyValues

/-- What `UserDetailView.patch` does to the keys. -/
def patchUser (enabled : Bool) (existing : List SshKey) (operations : List Json) : Except KeyError (List SshKey) := do
  let ops ← operations.mapM readUserOperation
  if enabled then applyKeys loads allowedTypes existing (applyUserPatch ops) else return existing

end View

/-! ## What the request asks for -/

/-- The identity of the key of an entry. -/
def entryIdentity (item : Json) : Option String :=
  match normalizeEntry item with
  | .ok entry => some (keyIdentity entry.publicKey)
  | .error _ => none

/-- The identities of the keys of a list of entries. -/
def namedKeys (items : List Json) : Finset String := (items.filterMap entryIdentity).toFinset

/-- The entries that an operation adds. -/
def UserOperation.additions : UserOperation → List Json
  | .addKeys entries => entries
  | .addKey material => [filterEntry material]
  | _ => []

/-- The key that an operation takes away. -/
def UserOperation.removal : UserOperation → Option String
  | .removeKey material => some material
  | _ => none

/-- One operation on the identities. -/
def UserOperation.apply (ids : Finset String) : UserOperation → Finset String
  | .other => ids
  | .addKeys entries => ids ∪ namedKeys entries
  | .addKey material => ids ∪ namedKeys [filterEntry material]
  | .removeKey material => ids.erase (keyIdentity material)
  | .removeAllKeys => ∅
  | .replaceKeys entries => namedKeys entries
  | .object _ none => ids
  | .object true (some entries) => ids ∪ namedKeys entries
  | .object false (some entries) => namedKeys entries

/-- The operations one after another. -/
def applyKeysSequentially (ids : Finset String) (ops : List UserOperation) : Finset String :=
  ops.foldl UserOperation.apply ids

/-- Whether the operation, by itself, leaves the identity among the keys; `none` if it does not touch it. -/
def UserOperation.word (i : String) : UserOperation → Option Bool
  | .other => none
  | .addKeys entries => if i ∈ namedKeys entries then some true else none
  | .addKey material => if i ∈ namedKeys [filterEntry material] then some true else none
  | .removeKey material => if keyIdentity material = i then some false else none
  | .removeAllKeys => some false
  | .replaceKeys entries => some (decide (i ∈ namedKeys entries))
  | .object _ none => none
  | .object true (some entries) => if i ∈ namedKeys entries then some true else none
  | .object false (some entries) => some (decide (i ∈ namedKeys entries))

/-- The last word on an identity. -/
def lastKeyWord (ops : List UserOperation) (i : String) : Option Bool :=
  ops.foldl (fun word op => (op.word i).or word) none

/-- The last list that an operation puts in place of the keys. -/
def lastKeyReplacement (ops : List UserOperation) : Option (List Json) :=
  ops.foldl (fun replacement op => op.replacement.or replacement) none

def KeyAdded (ops : List UserOperation) (i : String) : Prop := i ∈ namedKeys (ops.flatMap UserOperation.additions)

def KeyRemoved (ops : List UserOperation) (i : String) : Prop :=
  ∃ material ∈ ops.filterMap UserOperation.removal, keyIdentity material = i

/-- **The order of the operations does not matter**: the last word on an identity that is removed by name takes it out,
that on one that is only added takes it in, and on all others it agrees with the last replacement, which leaves an
identity that is stored more than once. -/
structure KeysInOrder (existing : List SshKey) (ops : List UserOperation) : Prop where
  removed : ∀ i, KeyRemoved ops i → lastKeyWord ops i = some false
  added : ∀ i, ¬ KeyRemoved ops i → KeyAdded ops i → lastKeyWord ops i = some true
  replaced : ∀ i entries, ¬ KeyRemoved ops i → ¬ KeyAdded ops i → lastKeyReplacement ops = some entries →
    ((lastKeyWord ops i).getD (decide (i ∈ identities existing)) = true ↔ i ∈ namedKeys entries ∨ 1 < copies existing i)

section Facts

variable {loads : String → Bool} {allowedTypes : List String} {existing result : List SshKey} {i : String}
  {ops : List UserOperation}

/-! ## The buckets -/

theorem foldl_collectKeys {r : UserPatchResult} :
    (ops.foldl UserPatchResult.collect r).addSshKeys = r.addSshKeys ++ ops.flatMap UserOperation.additions ∧
    (ops.foldl UserPatchResult.collect r).removeSshKeyValues =
      r.removeSshKeyValues ++ ops.filterMap UserOperation.removal ∧
    (ops.foldl UserPatchResult.collect r).replaceSshKeys =
      ops.foldl (fun replacement op => op.replacement.or replacement) r.replaceSshKeys := by
  induction ops generalizing r with
  | nil => simp
  | cons op ops ih =>
    obtain ⟨hadd, hremove, hreplace⟩ := @ih (r.collect op)
    rw [List.foldl_cons, hadd, hremove, hreplace, List.flatMap_cons, List.filterMap_cons, List.foldl_cons]
    cases op <;> simp [UserPatchResult.collect, UserOperation.additions, UserOperation.removal,
      UserOperation.replacement]

theorem sentIdentities_normalizeEntries {items : List Json} {entries : List SshEntry}
    (h : normalizeEntries items = .ok entries) : sentIdentities entries = namedKeys items := by
  induction items generalizing entries with
  | nil =>
    obtain rfl := Except.ok.inj h
    rfl
  | cons item items ih =>
    unfold normalizeEntries at h ih
    rw [List.mapM_cons] at h
    obtain ⟨entry, hentry, h⟩ := bind_eq_ok.mp h
    obtain ⟨rest, hrest, h⟩ := bind_eq_ok.mp h
    obtain rfl := Except.ok.inj h
    have hidentity : entryIdentity item = some (keyIdentity entry.publicKey) := by
      unfold entryIdentity
      rw [hentry]
    have htail := ih hrest
    unfold sentIdentities namedKeys at htail ⊢
    rw [List.filterMap_cons_some hidentity, List.map_cons, List.toFinset_cons, List.toFinset_cons, htail]

/-! ## What the view does to an identity -/

theorem mem_applyKeys {r : UserPatchResult} (h : applyKeys loads allowedTypes existing r = .ok result) :
    i ∈ identities result ↔ ((match r.replaceSshKeys with
        | none => i ∈ identities existing
        | some items => i ∈ namedKeys items ∨ 1 < copies existing i) ∨ i ∈ namedKeys r.addSshKeys) ∧
      ∀ v ∈ r.removeSshKeyValues, v ≠ "" → keyIdentity v ≠ i := by
  obtain ⟨replaced, hreplaced, h⟩ := bind_eq_ok.mp h
  obtain ⟨added, hadded, h⟩ := bind_eq_ok.mp h
  obtain rfl := Except.ok.inj h
  rw [mem_removeSshKeys]
  refine and_congr_left fun _ => ?_
  have hbase : i ∈ identities replaced ↔ match r.replaceSshKeys with
      | none => i ∈ identities existing
      | some items => i ∈ namedKeys items ∨ 1 < copies existing i := by
    cases hitems : r.replaceSshKeys with
    | none =>
      rw [hitems] at hreplaced
      obtain rfl := Except.ok.inj hreplaced
      rfl
    | some items =>
      rw [hitems] at hreplaced
      obtain ⟨entries, hentries, hsync⟩ := bind_eq_ok.mp hreplaced
      rw [mem_syncSshKeys hsync, sentIdentities_normalizeEntries hentries]
      rfl
  rw [← hbase]
  unfold addKeys at hadded
  split_ifs at hadded with hnil
  · obtain rfl := Except.ok.inj hadded
    rw [hnil]
    exact (or_iff_left (Finset.notMem_empty i)).symm
  · obtain ⟨entries, hentries, hsync⟩ := bind_eq_ok.mp hadded
    rw [mem_syncSshKeys hsync, sentIdentities_normalizeEntries hentries, if_neg Bool.false_ne_true, ← mem_identities,
      or_comm]

/-! ## The last word -/

/-- An operation says of an identity whether it is among the keys after it. -/
theorem mem_applyKey {ids : Finset String} {op : UserOperation} :
    i ∈ op.apply ids ↔ (op.word i).getD (decide (i ∈ ids)) = true := by
  cases op with
  | other => simp [UserOperation.apply, UserOperation.word]
  | addKeys entries => by_cases h : i ∈ namedKeys entries <;> simp [UserOperation.apply, UserOperation.word, h]
  | addKey material =>
    by_cases h : i ∈ namedKeys [filterEntry material] <;> simp [UserOperation.apply, UserOperation.word, h]
  | removeKey material =>
    by_cases h : keyIdentity material = i
    · simp [UserOperation.apply, UserOperation.word, h]
    · simp [UserOperation.apply, UserOperation.word, h, Ne.symm h]
  | removeAllKeys => simp [UserOperation.apply, UserOperation.word]
  | replaceKeys entries => simp [UserOperation.apply, UserOperation.word]
  | object adds entries =>
    cases entries with
    | none => simp [UserOperation.apply, UserOperation.word]
    | some entries =>
      cases adds with
      | true => by_cases h : i ∈ namedKeys entries <;> simp [UserOperation.apply, UserOperation.word, h]
      | false => simp [UserOperation.apply, UserOperation.word]

theorem mem_applyKeysSequentially {ids : Finset String} :
    i ∈ applyKeysSequentially ids ops ↔ (lastKeyWord ops i).getD (decide (i ∈ ids)) = true := by
  induction ops using List.reverseRecOn with
  | nil => simp [applyKeysSequentially, lastKeyWord]
  | append_singleton ops op ih =>
    unfold applyKeysSequentially lastKeyWord at ih ⊢
    rw [List.foldl_append, List.foldl_append, List.foldl_cons, List.foldl_nil, List.foldl_cons, List.foldl_nil]
    rw [mem_applyKey]
    cases op.word i with
    | some b => simp
    | none => simpa using ih

theorem keyAdded_iff : KeyAdded ops i ↔ ∃ op ∈ ops, i ∈ namedKeys op.additions := by
  unfold KeyAdded namedKeys
  simp only [List.mem_toFinset, List.mem_filterMap, List.mem_flatMap]
  constructor
  · rintro ⟨item, ⟨op, hop, hitem⟩, hi⟩
    exact ⟨op, hop, item, hitem, hi⟩
  · rintro ⟨op, hop, item, hitem, hi⟩
    exact ⟨item, ⟨op, hop, hitem⟩, hi⟩

/-- There is a word on an identity that is added or removed. -/
theorem lastKeyWord_ne_none (h : KeyAdded ops i ∨ KeyRemoved ops i) : lastKeyWord ops i ≠ none := by
  intro hnone
  obtain ⟨-, hall⟩ := foldl_or_none hnone
  rcases h with hadded | ⟨material, hmaterial, hidentity⟩
  · obtain ⟨op, hop, hi⟩ := keyAdded_iff.mp hadded
    have hword := hall op hop
    cases op with
    | addKeys entries =>
      have hin : i ∈ namedKeys entries := hi
      rw [UserOperation.word, if_pos hin] at hword
      cases hword
    | addKey material =>
      have hin : i ∈ namedKeys [filterEntry material] := hi
      rw [UserOperation.word, if_pos hin] at hword
      cases hword
    | _ => exact absurd hi (Finset.notMem_empty i)
  · obtain ⟨op, hop, hremoval⟩ := List.mem_filterMap.mp hmaterial
    have hword := hall op hop
    cases op with
    | removeKey material' =>
      obtain rfl := Option.some.inj hremoval
      rw [UserOperation.word, if_pos hidentity] at hword
      cases hword
    | _ => cases hremoval

/-- Without a replacement, an identity that is neither added nor removed is not touched. -/
theorem lastKeyWord_eq_none (hadded : ¬ KeyAdded ops i) (hremoved : ¬ KeyRemoved ops i)
    (hnone : lastKeyReplacement ops = none) : lastKeyWord ops i = none := by
  obtain ⟨-, hall⟩ := foldl_or_none hnone
  cases hword : lastKeyWord ops i with
  | none => rfl
  | some b =>
    rcases foldl_or hword with hnil | ⟨op, hop, hsays⟩
    · cases hnil
    · have hreplacement := hall op hop
      cases op with
      | other => cases hsays
      | addKeys entries =>
        have hnot : i ∉ namedKeys entries := fun hi => hadded (keyAdded_iff.mpr ⟨_, hop, hi⟩)
        rw [UserOperation.word, if_neg hnot] at hsays
        cases hsays
      | addKey material =>
        have hnot : i ∉ namedKeys [filterEntry material] := fun hi => hadded (keyAdded_iff.mpr ⟨_, hop, hi⟩)
        rw [UserOperation.word, if_neg hnot] at hsays
        cases hsays
      | removeKey material =>
        have hnot : keyIdentity material ≠ i := fun hi =>
          hremoved ⟨material, List.mem_filterMap.mpr ⟨_, hop, rfl⟩, hi⟩
        rw [UserOperation.word, if_neg hnot] at hsays
        cases hsays
      | removeAllKeys => cases hreplacement
      | replaceKeys entries => cases hreplacement
      | object adds entries =>
        obtain rfl : entries = none := hreplacement
        cases hsays

/-- The filter of a key is not empty. -/
theorem sshFilter_ne_empty {path material : String} (h : sshFilter path = some material) : material ≠ "" := by
  unfold sshFilter at h
  simp only [Option.bind_eq_bind, Option.bind_eq_some_iff] at h
  obtain ⟨_, -, _, -, _, -, _, -, _, -, l, -, _, -, _, -, h⟩ := h
  split_ifs at h with hend
  obtain rfl := Option.some.inj h
  simp only [Bool.and_eq_true, Bool.not_eq_true'] at hend
  intro hempty
  have hnil : l.takeWhile (· != quote) = [] := by
    have htext := congrArg String.toList hempty
    rwa [String.toList_ofList] at htext
  rw [hnil] at hend
  exact absurd hend.1 (by decide)

theorem map_eq_ok {α β ε : Type} {f : α → β} {x : Except ε α} {b : β} (h : x.map f = .ok b) : ∃ a, f a = b := by
  cases x with
  | error e => cases h
  | ok a => exact ⟨a, Except.ok.inj h⟩

theorem removal_readKeysPath {verb : Verb} {path : String} {value : Option Json} {op : UserOperation}
    (h : readKeysPath verb path value = .ok op) : op.removal = none := by
  unfold readKeysPath at h
  simp only at h
  split_ifs at h
  · cases verb with
    | remove =>
      obtain rfl := Except.ok.inj h
      rfl
    | _ =>
      obtain ⟨entries, rfl⟩ := map_eq_ok h
      rfl
  · obtain rfl := Except.ok.inj h
    rfl
  · split at h
    · obtain rfl := Except.ok.inj h
      rfl
    · obtain ⟨entries, rfl⟩ := map_eq_ok h
      rfl
    · cases h

theorem removal_readUserPath {verb : Verb} {path material : String} {value : Option Json} {op : UserOperation}
    (h : readUserPath verb path value = .ok op) (hremoval : op.removal = some material) :
    sshFilter path = some material := by
  unfold readUserPath at h
  by_cases hactive : lowerPath path = "active"
  · rw [if_pos hactive] at h
    split_ifs at h
    obtain rfl := Except.ok.inj h
    cases hremoval
  rw [if_neg hactive] at h
  by_cases huserName : lowerPath path = "username"
  · rw [if_pos huserName] at h
    cases h
  rw [if_neg huserName] at h
  by_cases hname : lowerPath path = "name"
  · rw [if_pos hname] at h
    split at h
    · obtain rfl := Except.ok.inj h
      cases hremoval
    · obtain rfl := Except.ok.inj h
      cases hremoval
    · cases h
  rw [if_neg hname] at h
  by_cases hattribute : attributePaths.contains (lowerPath path) = true
  · rw [if_pos hattribute] at h
    obtain rfl := Except.ok.inj h
    cases hremoval
  rw [if_neg hattribute] at h
  cases hfilter : sshFilter path with
  | some material' =>
    rw [hfilter] at h
    cases verb with
    | add =>
      obtain rfl := Except.ok.inj h
      cases hremoval
    | replace => cases h
    | remove =>
      obtain rfl := Except.ok.inj h
      exact hremoval
  | none =>
    rw [hfilter] at h
    rw [removal_readKeysPath h] at hremoval
    cases hremoval

/-- Only a filter removes a key, so its text is not empty. -/
theorem removal_ne_empty {item : Json} {op : UserOperation} {material : String} (h : readUserOperation item = .ok op)
    (hremoval : op.removal = some material) : material ≠ "" := by
  cases item with
  | object fields =>
    unfold readUserOperation at h
    obtain ⟨_, -, h⟩ := bind_eq_ok.mp h
    obtain ⟨verb, -, h⟩ := bind_eq_ok.mp h
    obtain ⟨path, -, h⟩ := bind_eq_ok.mp h
    simp only at h
    split_ifs at h
    · split at h
      · obtain ⟨keys, rfl⟩ := map_eq_ok h
        cases hremoval
      · cases h
    · exact sshFilter_ne_empty (removal_readUserPath h hremoval)
  | _ => cases h

theorem exists_of_mem_mapM {operations : List Json} {op : UserOperation}
    (h : operations.mapM readUserOperation = .ok ops) (hop : op ∈ ops) : ∃ item, readUserOperation item = .ok op := by
  induction operations generalizing ops with
  | nil =>
    obtain rfl := Except.ok.inj h
    exact absurd hop List.not_mem_nil
  | cons item operations ih =>
    rw [List.mapM_cons] at h
    obtain ⟨first, hfirst, h⟩ := bind_eq_ok.mp h
    obtain ⟨rest, hrest, h⟩ := bind_eq_ok.mp h
    obtain rfl := Except.ok.inj h
    rcases List.mem_cons.mp hop with rfl | hop
    · exact ⟨item, hfirst⟩
    · exact ih hrest hop

/-! ## Patches and synchronisations -/

/-- What is stored after the PATCH. -/
theorem mem_patchedKeys (hremovals : ∀ op ∈ ops, ∀ material, op.removal = some material → material ≠ "")
    (h : applyKeys loads allowedTypes existing (applyUserPatch ops) = .ok result) :
    i ∈ identities result ↔ ((match lastKeyReplacement ops with
        | none => i ∈ identities existing
        | some items => i ∈ namedKeys items ∨ 1 < copies existing i) ∨ KeyAdded ops i) ∧ ¬ KeyRemoved ops i := by
  obtain ⟨hadd, hremove, hreplace⟩ := @foldl_collectKeys ops {}
  rw [mem_applyKeys h]
  unfold applyUserPatch
  rw [hadd, hremove, hreplace]
  refine and_congr Iff.rfl ?_
  unfold KeyRemoved
  rw [List.nil_append, not_exists]
  constructor
  · rintro hkept material ⟨hmaterial, hidentity⟩
    obtain ⟨op, hop, hremoval⟩ := List.mem_filterMap.mp hmaterial
    exact hkept material hmaterial (hremovals op hop material hremoval) hidentity
  · intro hkept material hmaterial _ hidentity
    exact hkept material ⟨hmaterial, hidentity⟩

/-- **When keys have the meaning of a set**: an accepted PATCH leaves the identities that its operations leave one after
another exactly if their order does not matter, and a synchronisation that replaces leaves those of its entries exactly if
it names every identity that is stored more than once. -/
theorem sshKeys_iff (loads : String → Bool) (allowedTypes : List String) :
    (∀ existing result operations ops, operations.mapM readUserOperation = .ok ops →
      patchUser loads allowedTypes true existing operations = .ok result →
        (identities result = applyKeysSequentially (identities existing) ops ↔ KeysInOrder existing ops)) ∧
    ∀ existing result entries, syncSshKeys loads allowedTypes true existing entries = .ok result →
      (identities result = sentIdentities entries ↔ ∀ i, 1 < copies existing i → i ∈ sentIdentities entries) := by
  refine ⟨fun existing result operations ops hops hok => ?_, fun existing result entries hok => ?_⟩
  · have happlied : applyKeys loads allowedTypes existing (applyUserPatch ops) = .ok result := by
      obtain ⟨ops', hops', h⟩ := bind_eq_ok.mp hok
      obtain rfl := Except.ok.inj (hops.symm.trans hops')
      exact h
    have hremovals : ∀ op ∈ ops, ∀ material, op.removal = some material → material ≠ "" := by
      intro op hop material hremoval
      obtain ⟨item, hitem⟩ := exists_of_mem_mapM hops hop
      exact removal_ne_empty hitem hremoval
    have hpatched := fun i => @mem_patchedKeys loads allowedTypes existing result i ops hremovals happlied
    rw [Finset.ext_iff]
    constructor
    · intro hsame
      have hword := fun i => (hpatched i).symm.trans ((hsame i).trans mem_applyKeysSequentially)
      refine ⟨fun i hremoved => ?_, fun i hremoved hadded => ?_, fun i entries hremoved hadded hlast => ?_⟩
      · cases h : lastKeyWord ops i with
        | none => exact absurd h (lastKeyWord_ne_none (.inr hremoved))
        | some b =>
          cases b with
          | false => rfl
          | true => exact absurd hremoved ((hword i).mpr (by rw [h]; rfl)).2
      · have htrue := (hword i).mp ⟨.inr hadded, hremoved⟩
        cases h : lastKeyWord ops i with
        | none => exact absurd h (lastKeyWord_ne_none (.inl hadded))
        | some b =>
          rw [h] at htrue
          exact congrArg some htrue
      · have hi := hword i
        rw [hlast] at hi
        exact hi.symm.trans (by tauto)
    · intro horder i
      rw [hpatched i, mem_applyKeysSequentially]
      by_cases hremoved : KeyRemoved ops i
      · rw [horder.removed i hremoved]
        exact iff_of_false (fun h => h.2 hremoved) Bool.false_ne_true
      · by_cases hadded : KeyAdded ops i
        · rw [horder.added i hremoved hadded]
          exact iff_of_true ⟨.inr hadded, hremoved⟩ rfl
        · cases hlast : lastKeyReplacement ops with
          | some entries =>
            rw [horder.replaced i entries hremoved hadded hlast]
            tauto
          | none =>
            rw [lastKeyWord_eq_none hadded hremoved hlast]
            simp [hremoved, hadded]
  · rw [Finset.ext_iff]
    refine forall_congr' fun i => ?_
    rw [mem_syncSshKeys hok, if_pos rfl]
    tauto

end Facts

/-! ### A key that is revoked -/

def laptopKey : String :=
  "ssh-ed25519 AAAAC3NzaC1lZDI1NTE5AAAAIJJ8hP1eFBxBCWiUaB5vsLAvFaYjs0zQ0gWOltsWd8LI key1@example.com"

def laptopEntry : Json := .object [("value", .string laptopKey), ("display", .string "laptop")]

def addLaptop : Json :=
  .object [("op", .string "add"), ("path", .string "sshPublicKeys"), ("value", .array [laptopEntry])]

def removeAll : Json := .object [("op", .string "remove"), ("path", .string "sshPublicKeys")]

theorem eq_ok_of_toOption {α ε : Type} {x : Except ε α} {a : α} (h : x.toOption = some a) : x = .ok a := by
  cases x with
  | error e => cases h
  | ok b => rw [Option.some.inj h]

theorem sync_laptop : syncSshKeys (fun _ => true) [] true [⟨"laptop", laptopKey⟩] [] = .ok [] :=
  eq_ok_of_toOption (by decide +kernel)

/-- All keys are removed, and a synchronisation leaves none of a key that is stored once. -/
theorem removeAll_inOrder : KeysInOrder [⟨"laptop", laptopKey⟩] [.removeAllKeys] ∧
    ∀ i, 1 < copies [⟨"laptop", laptopKey⟩] i → i ∈ sentIdentities [] := by
  have hread : [removeAll].mapM readUserOperation = .ok [.removeAllKeys] := rfl
  have hpatch : patchUser (fun _ => true) [] true [⟨"laptop", laptopKey⟩] [removeAll] = .ok [] := by
    show (syncSshKeys (fun _ => true) [] true [⟨"laptop", laptopKey⟩] [] >>= fun rows => _) = _
    rw [sync_laptop]
    rfl
  exact ⟨((sshKeys_iff (fun _ => true) []).1 _ _ _ _ hread hpatch).mp rfl,
    ((sshKeys_iff (fun _ => true) []).2 _ _ _ sync_laptop).mp rfl⟩

/-- A key that is added and removed with all others stays, and one of two rows of a key survives a synchronisation that
does not name it. -/
theorem removed_key_stays : (∃ existing operations ops result, operations.mapM readUserOperation = .ok ops ∧
      patchUser (fun _ => true) [] true existing operations = .ok result ∧
        identities result ≠ applyKeysSequentially (identities existing) ops) ∧
    ∃ existing entries result, syncSshKeys (fun _ => true) [] true existing entries = .ok result ∧
      identities result ≠ sentIdentities entries := by
  constructor
  · have hread : [addLaptop, removeAll].mapM readUserOperation = .ok [.addKeys [laptopEntry], .removeAllKeys] := rfl
    have haccepted : (patchUser (fun _ => true) [] true [] [addLaptop, removeAll]).toOption.isSome = true := by
      decide +kernel
    obtain ⟨result, hresult⟩ := Option.isSome_iff_exists.mp haccepted
    refine ⟨[], _, _, result, hread, eq_ok_of_toOption hresult, ?_⟩
    obtain ⟨i, hi⟩ := Option.isSome_iff_exists.mp (by decide +kernel : (entryIdentity laptopEntry).isSome = true)
    have hadded : KeyAdded [.addKeys [laptopEntry], .removeAllKeys] i :=
      List.mem_toFinset.mpr (List.mem_filterMap.mpr ⟨laptopEntry, List.mem_cons_self, hi⟩)
    have hmem : i ∈ identities result := by
      refine (@mem_patchedKeys (fun _ => true) [] [] result i [.addKeys [laptopEntry], .removeAllKeys] ?_ ?_).mpr
        ⟨.inr hadded, ?_⟩
      · intro op hop material hremoval
        rcases List.mem_pair.mp hop with rfl | rfl <;> cases hremoval
      · obtain ⟨ops, hops, h⟩ := bind_eq_ok.mp (eq_ok_of_toOption hresult)
        obtain rfl := Except.ok.inj (hread.symm.trans hops)
        exact h
      · rintro ⟨material, hmaterial, -⟩
        exact absurd hmaterial List.not_mem_nil
    exact ne_of_mem_of_not_mem' hmem (Finset.notMem_empty i)
  · have hsync : syncSshKeys (fun _ => true) [] true [⟨"desktop", laptopKey⟩, ⟨"laptop", laptopKey⟩] [] = .ok _ := rfl
    refine ⟨_, _, _, hsync, ?_⟩
    have hmem := (@mem_syncSshKeys _ _ _ _ _ (keyIdentity laptopKey) _ hsync).mpr (.inr (by simp [copies]))
    exact ne_of_mem_of_not_mem' hmem (Finset.notMem_empty _)

end Waldur.Scim
