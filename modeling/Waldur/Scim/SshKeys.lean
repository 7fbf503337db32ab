import Mathlib
import Waldur.Scim.GroupPatch

/-!
# Scim.SshKeys — the SSH keys of a user

Keys are compared by their identity, the algorithm and the body.  A synchronisation adds the keys that are missing and,
where it replaces, deletes one row of each identity that is absent: of rows that share an identity, the last.
-/

namespace Waldur.Scim

open PythonText

/-! ## Keys -/

/-- A row of the user's keys. -/
structure SshKey where
  name : String
  publicKey : String
deriving DecidableEq

/-- An entry of `sshPublicKeys` that is normalised. -/
structure SshEntry where
  publicKey : String
  name : String
deriving DecidableEq

/-- What a request on keys raises. -/
inductive KeyError
  /-- An operation that is refused whatever it is about. -/
  | operation (e : ScimError)
  /-- "Cannot remove 'active'." -/
  | removeActive
  /-- "Changing 'userName' via PATCH is not allowed." -/
  | userName
  /-- "PATCH on 'name' requires an object value." -/
  | nameNotAnObject
  /-- "PATCH 'replace' on a filtered sshPublicKeys entry is not supported." -/
  | filteredReplace
  /-- "PATCH on an extension schema requires an object value." -/
  | extensionNotAnObject
  /-- "'sshPublicKeys' value must be an array of key objects." -/
  | notAnArray
  /-- "Invalid sshPublicKeys entry ...". -/
  | invalidEntry (item : Json)
  /-- "Each sshPublicKeys entry requires a non-empty 'value'." -/
  | emptyValue
  /-- "SSH public key is not valid: it should be a single line." -/
  | severalLines
  /-- "SSH public key is not valid: ...". -/
  | invalidKey
  /-- "SSH key type ... is not allowed. ..." -/
  | typeNotAllowed (keyType : String)
  /-- `DataError`: a name of more than 150 characters. -/
  | nameTooLong

/-- `text.strip()`. -/
def stripText (text : String) : String := String.ofList (strip isSpace text.toList)

/-- `text.split()`. -/
def splitText (text : String) : List String :=
  ((text.toList.splitOnP isSpace).filter (· ≠ [])).map String.ofList

/-- The characters at which `splitlines` splits. -/
def isLineEnd (c : Char) : Bool :=
  let n := c.toNat
  decide (10 ≤ n ∧ n ≤ 13) || decide (28 ≤ n ∧ n ≤ 30) || [0x85, 0x2028, 0x2029].contains n

/-- `item.get(key) or ""`, stripped. -/
def strippedField (fields : List (String × Json)) (key : String) : Except KeyError String :=
  match textField fields key with
  | .error e => .error (.operation e)
  | .ok text => .ok (stripText text)

/-- An entry of `normalize_entries`. -/
def normalizeEntry : Json → Except KeyError SshEntry
  | .object fields => do
    let publicKey ← strippedField fields "value"
    if publicKey = "" then .error .emptyValue
    else
      let name ← strippedField fields "display"
      return { publicKey := publicKey, name := name }
  | item => .error (.invalidEntry item)

def normalizeEntries (items : List Json) : Except KeyError (List SshEntry) := items.mapM normalizeEntry

/-- `_key_identity`. -/
def keyIdentity (publicKey : String) : String :=
  match splitText publicKey with
  | algorithm :: body :: _ => algorithm ++ " " ++ body
  | _ => stripText publicKey

/-! ## Names -/

/-- The names that `_resolve_name` tries, one after another. -/
def candidate (base : String) (n : ℕ) : String :=
  if n = 0 then base else base ++ " (" ++ (n + 1).repr ++ ")"

/-- `_resolve_name`; among as many candidates as there are names taken, and one more, one is free. -/
def resolveName (desired identity : String) (taken : List String) : String :=
  let desired := stripText desired
  let body := ((identity.toList.splitOnP (· == ' ')).getLast?).getD []
  let base := if desired = "" then "scim-" ++ String.ofList (body.take 12) else desired
  (((List.range (taken.length + 1)).map (candidate base)).find? fun name => !taken.contains name).getD base

theorem candidate_injective (base : String) : Function.Injective (candidate base) := by
  intro m n h
  unfold candidate at h
  have hlength : ∀ k : ℕ, base ≠ base ++ " (" ++ (k + 1).repr ++ ")" := by
    intro k heq
    have hlen := congrArg String.length heq
    simp only [String.length_append] at hlen
    have hbracket : (")" : String).length = 1 := rfl
    omega
  split_ifs at h with hm hn hn
  · rw [hm, hn]
  · exact absurd h (hlength n)
  · exact absurd h.symm (hlength m)
  · rw [String.append_left_inj, String.append_right_inj] at h
    exact Nat.succ_injective (Nat.repr_inj.mp h)

/-- **A name is free**, so the pair of user and name stays unique. -/
theorem resolveName_not_mem (desired identity : String) (taken : List String) :
    resolveName desired identity taken ∉ taken := by
  unfold resolveName
  simp only
  set base := if stripText desired = "" then _ else stripText desired
  set candidates := (List.range (taken.length + 1)).map (candidate base) with hcandidates
  cases hfind : candidates.find? fun name => !taken.contains name with
  | some name =>
    have hfree := List.find?_some hfind
    simpa using hfree
  | none =>
    have hall : candidates ⊆ taken := by
      intro name hname
      simpa using List.find?_eq_none.mp hfind name hname
    have hnodup : candidates.Nodup := List.nodup_range.map (candidate_injective base)
    have hle := (hnodup.subperm hall).length_le
    rw [hcandidates, List.length_map, List.length_range] at hle
    omega

/-! ## Synchronisation -/

section Sync

/- `load_ssh_public_key` and the fingerprints, and `SSH_KEY_ALLOWED_TYPES`. -/
variable (loads : String → Bool) (allowedTypes : List String)

/-- `_validate_key_material`, of a key that is stripped. -/
def validateKeyMaterial (publicKey : String) : Except KeyError Unit :=
  if publicKey.toList.any isLineEnd then .error .severalLines
  else if !loads publicKey then .error .invalidKey
  else
    let keyType := (splitText publicKey).headD ""
    if !allowedTypes.isEmpty && !allowedTypes.contains keyType then .error (.typeNotAllowed keyType) else .ok ()

/-- `existing_by_identity.get(identity)`: the last of the rows. -/
def existingByIdentity (existing : List SshKey) (identity : String) : Option SshKey :=
  existing.reverse.find? fun k => keyIdentity k.publicKey == identity

/-- The variables of the loop of `sync_ssh_keys`, and the rows. -/
structure SyncState where
  incoming : List String := []
  taken : List String
  rows : List SshKey

/-- One turn of the loop. -/
def syncEntry (existing : List SshKey) (state : SyncState) (entry : SshEntry) : Except KeyError SyncState :=
  let identity := keyIdentity entry.publicKey
  if state.incoming.contains identity then .ok state
  else if (existingByIdentity existing identity).isSome then
    .ok { state with incoming := identity :: state.incoming }
  else
    let name := resolveName entry.name identity state.taken
    if name.length ≤ 150 then
      .ok { incoming := identity :: state.incoming, taken := name :: state.taken,
            rows := state.rows ++ [{ name := name, publicKey := entry.publicKey }] }
    else .error .nameTooLong

/-- The rows that a replacing synchronisation deletes. -/
def staleKeys (existing : List SshKey) (incoming : List String) : List SshKey :=
  (((existing.map fun k => keyIdentity k.publicKey).dedup).filter fun i => !incoming.contains i).filterMap
    (existingByIdentity existing)

/-- `sync_ssh_keys`, of the rows in the order of the query. -/
def syncSshKeys (replace : Bool) (existing : List SshKey) (entries : List SshEntry) : Except KeyError (List SshKey) := do
  entries.forM fun entry => validateKeyMaterial loads allowedTypes entry.publicKey
  let state ← entries.foldlM (syncEntry existing) { taken := existing.map (·.name), rows := existing }
  return if replace then state.rows.diff (staleKeys existing state.incoming) else state.rows

/-- `remove_ssh_keys`. -/
def removeSshKeys (existing : List SshKey) (matchValues : List String) : List SshKey :=
  let wanted := (matchValues.filter (· ≠ "")).map keyIdentity
  existing.filter fun k => !wanted.contains (keyIdentity k.publicKey)

end Sync

/-! ## Identities -/

/-- The identities of rows. -/
def identities (rows : List SshKey) : Finset String := (rows.map fun k => keyIdentity k.publicKey).toFinset

/-- The identities of entries. -/
def sentIdentities (entries : List SshEntry) : Finset String := (entries.map fun e => keyIdentity e.publicKey).toFinset

/-- How often an identity is stored. -/
def copies (rows : List SshKey) (i : String) : ℕ := rows.countP fun k => keyIdentity k.publicKey == i

section Identities

variable {loads : String → Bool} {allowedTypes : List String} {existing rows : List SshKey} {entries : List SshEntry}
  {i : String}

theorem mem_identities : i ∈ identities rows ↔ 0 < copies rows i := by
  unfold identities copies
  rw [List.mem_toFinset, List.mem_map, List.countP_pos_iff]
  simp only [beq_iff_eq]

theorem mem_sentIdentities : i ∈ sentIdentities entries ↔ ∃ e ∈ entries, keyIdentity e.publicKey = i := by
  unfold sentIdentities
  rw [List.mem_toFinset, List.mem_map]

theorem existingByIdentity_eq_some {k : SshKey} (h : existingByIdentity existing i = some k) :
    k ∈ existing ∧ keyIdentity k.publicKey = i := by
  have hidentity := List.find?_some h
  exact ⟨List.mem_reverse.mp (List.mem_of_find?_eq_some h), beq_iff_eq.mp hidentity⟩

theorem isSome_existingByIdentity : (existingByIdentity existing i).isSome = true ↔ 0 < copies existing i := by
  unfold existingByIdentity copies
  rw [List.find?_isSome, List.countP_pos_iff]
  simp only [List.mem_reverse]

/-- The rows that are there are kept by the loop, and those that are new carry identities that were sent and missing. -/
structure Synced (existing : List SshKey) (entries : List SshEntry) (state : SyncState) : Prop where
  incoming : ∀ i, i ∈ state.incoming ↔ i ∈ sentIdentities entries
  rows : ∃ created, state.rows = existing ++ created ∧ ∀ i, i ∈ identities created ↔
    i ∈ sentIdentities entries ∧ copies existing i = 0

theorem copies_append (l l' : List SshKey) (i : String) : copies (l ++ l') i = copies l i + copies l' i :=
  List.countP_append

theorem mem_identities_append {l l' : List SshKey} : i ∈ identities (l ++ l') ↔ i ∈ identities l ∨ i ∈ identities l' := by
  simp only [mem_identities, copies_append]
  omega

theorem mem_sentIdentities_append {l l' : List SshEntry} :
    i ∈ sentIdentities (l ++ l') ↔ i ∈ sentIdentities l ∨ i ∈ sentIdentities l' := by
  unfold sentIdentities
  rw [List.map_append, List.toFinset_append, Finset.mem_union]

theorem mem_sentIdentities_singleton {e : SshEntry} : i ∈ sentIdentities [e] ↔ i = keyIdentity e.publicKey := by
  rw [mem_sentIdentities]
  simp [eq_comm]

theorem mem_identities_singleton {k : SshKey} : i ∈ identities [k] ↔ i = keyIdentity k.publicKey := by
  unfold identities
  simp

/-- One turn of the loop. -/
theorem Synced.step {state state' : SyncState} {entry : SshEntry} (h : Synced existing entries state)
    (hstep : syncEntry existing state entry = .ok state') : Synced existing (entries ++ [entry]) state' := by
  obtain ⟨created, hrows, hcreated⟩ := h.rows
  unfold syncEntry at hstep
  simp only at hstep
  split_ifs at hstep with hseen hknown hname
  · obtain rfl := Except.ok.inj hstep
    have hsent := (h.incoming _).mp (List.contains_iff_mem.mp hseen)
    have hsame : ∀ i, i ∈ sentIdentities (entries ++ [entry]) ↔ i ∈ sentIdentities entries := by
      intro i
      rw [mem_sentIdentities_append, mem_sentIdentities_singleton, or_iff_left_iff_imp]
      rintro rfl
      exact hsent
    exact ⟨fun i => (h.incoming i).trans (hsame i).symm, created, hrows, fun i => by rw [hsame, hcreated]⟩
  · obtain rfl := Except.ok.inj hstep
    refine ⟨fun i => ?_, created, hrows, fun i => ?_⟩
    · rw [List.mem_cons, h.incoming, mem_sentIdentities_append, mem_sentIdentities_singleton, or_comm]
    · rw [hcreated, mem_sentIdentities_append, mem_sentIdentities_singleton]
      constructor
      · rintro ⟨hsent, hnone⟩
        exact ⟨.inl hsent, hnone⟩
      · rintro ⟨hsent | rfl, hnone⟩
        · exact ⟨hsent, hnone⟩
        · have hpos := isSome_existingByIdentity.mp hknown
          omega
  · obtain rfl := Except.ok.inj hstep
    have hnone : copies existing (keyIdentity entry.publicKey) = 0 := by
      rw [isSome_existingByIdentity] at hknown
      omega
    refine ⟨fun i => ?_, created ++ [_], by rw [← List.append_assoc, ← hrows], fun i => ?_⟩
    · rw [List.mem_cons, h.incoming, mem_sentIdentities_append, mem_sentIdentities_singleton, or_comm]
    · rw [mem_identities_append, mem_identities_singleton, hcreated, mem_sentIdentities_append,
        mem_sentIdentities_singleton]
      constructor
      · rintro (⟨hsent, hzero⟩ | rfl)
        · exact ⟨.inl hsent, hzero⟩
        · exact ⟨.inr rfl, hnone⟩
      · rintro ⟨hsent | rfl, hzero⟩
        · exact .inl ⟨hsent, hzero⟩
        · exact .inr rfl

theorem synced_run {state state' : SyncState} {before : List SshEntry} (h : Synced existing before state)
    (hrun : entries.foldlM (syncEntry existing) state = .ok state') : Synced existing (before ++ entries) state' := by
  induction entries generalizing state before with
  | nil =>
    obtain rfl := Except.ok.inj hrun
    rwa [List.append_nil]
  | cons e entries ih =>
    rw [List.foldlM_cons] at hrun
    obtain ⟨next, hnext, hrest⟩ := Runs.bind_eq_ok.mp hrun
    have hdone := ih (h.step hnext) hrest
    rwa [List.append_assoc] at hdone

/-! ## Deletion -/

/-- One row for each identity of a list that is stored. -/
theorem copies_filterMap {l : List String} (hl : l.Nodup) (hstored : ∀ j ∈ l, 0 < copies existing j) :
    copies (l.filterMap (existingByIdentity existing)) i = if i ∈ l then 1 else 0 := by
  induction l with
  | nil => rfl
  | cons j l ih =>
    obtain ⟨hj, hl⟩ := List.nodup_cons.mp hl
    obtain ⟨k, hk⟩ := Option.isSome_iff_exists.mp (isSome_existingByIdentity.mpr (hstored j List.mem_cons_self))
    rw [List.filterMap_cons_some hk, copies, List.countP_cons, ← copies,
      ih hl fun j' hj' => hstored j' (List.mem_cons_of_mem _ hj'), (existingByIdentity_eq_some hk).2]
    by_cases hij : j = i
    · subst hij
      simp [hj]
    · simp [hij, Ne.symm hij]

theorem mem_stale_identities {incoming : List String} :
    i ∈ ((existing.map fun k => keyIdentity k.publicKey).dedup).filter (fun i => !incoming.contains i) ↔
      0 < copies existing i ∧ i ∉ incoming := by
  rw [List.mem_filter, List.mem_dedup, ← mem_identities, identities, List.mem_toFinset]
  simp

theorem copies_staleKeys (incoming : List String) :
    copies (staleKeys existing incoming) i = if 0 < copies existing i ∧ i ∉ incoming then 1 else 0 := by
  unfold staleKeys
  rw [copies_filterMap ((List.nodup_dedup _).filter _) fun j hj => (mem_stale_identities.mp hj).1]
  simp only [mem_stale_identities]

theorem staleKeys_nodup (incoming : List String) : (staleKeys existing incoming).Nodup := by
  refine ((List.nodup_dedup _).filter _).filterMap fun j j' k hj hj' => ?_
  rw [← (existingByIdentity_eq_some (Option.mem_def.mp hj)).2, (existingByIdentity_eq_some (Option.mem_def.mp hj')).2]

theorem staleKeys_subset (incoming : List String) : staleKeys existing incoming ⊆ existing := by
  intro k hk
  obtain ⟨j, -, hj⟩ := List.mem_filterMap.mp hk
  exact (existingByIdentity_eq_some hj).1

/-- **What is stored after a synchronisation**: of an identity that is absent, a replacing one takes one row away. -/
theorem mem_syncSshKeys {replace : Bool}
    (h : syncSshKeys loads allowedTypes replace existing entries = .ok rows) :
    i ∈ identities rows ↔ i ∈ sentIdentities entries ∨ (if replace then 1 else 0) < copies existing i := by
  obtain ⟨-, -, h⟩ := Runs.bind_eq_ok.mp h
  obtain ⟨state, hstate, h⟩ := Runs.bind_eq_ok.mp h
  obtain rfl := Except.ok.inj h
  have hinitial : Synced existing [] { taken := existing.map (·.name), rows := existing } :=
    ⟨fun i => by simp [sentIdentities], [], (List.append_nil _).symm, fun i => by simp [sentIdentities, identities]⟩
  have hsynced := synced_run hinitial hstate
  rw [List.nil_append] at hsynced
  obtain ⟨created, hrows, hcreated⟩ := hsynced.rows
  have hcopies : copies state.rows i = copies existing i + copies created i := by rw [hrows, copies_append]
  have hnew := hcreated i
  rw [mem_identities] at hnew
  cases replace with
  | false =>
    rw [if_neg Bool.false_ne_true, if_neg Bool.false_ne_true, mem_identities, hcopies]
    by_cases hsent : i ∈ sentIdentities entries <;> simp only [hsent, true_and, false_and, true_or, false_or,
      iff_true, iff_false] at hnew ⊢ <;> omega
  | true =>
    have hsubperm : List.Subperm (staleKeys existing state.incoming) state.rows :=
      (staleKeys_nodup _).subperm fun k hk => hrows ▸ List.mem_append_left _ (staleKeys_subset _ hk)
    have hdiff : copies (state.rows.diff (staleKeys existing state.incoming)) i =
        copies state.rows i - copies (staleKeys existing state.incoming) i := List.countP_diff hsubperm _
    have hstale := @copies_staleKeys existing i state.incoming
    simp only [hsynced.incoming] at hstale
    rw [if_pos rfl, if_pos rfl, mem_identities, hdiff, hcopies, hstale]
    by_cases hsent : i ∈ sentIdentities entries
    · simp only [hsent, true_and, not_true_eq_false, and_false, if_false, true_or, iff_true] at hnew ⊢
      omega
    · simp only [hsent, false_and, iff_false, not_false_eq_true, and_true, false_or] at hnew ⊢
      split_ifs <;> omega

theorem mem_removeSshKeys {matchValues : List String} : i ∈ identities (removeSshKeys existing matchValues) ↔
    i ∈ identities existing ∧ ∀ v ∈ matchValues, v ≠ "" → keyIdentity v ≠ i := by
  unfold removeSshKeys identities
  simp only [List.mem_toFinset, List.mem_map, List.mem_filter, decide_eq_true_eq, Bool.not_eq_true',
    List.contains_eq_mem, decide_eq_false_iff_not]
  constructor
  · rintro ⟨k, ⟨hk, hkept⟩, rfl⟩
    exact ⟨⟨k, hk, rfl⟩, fun v hv hne heq => hkept ⟨v, ⟨hv, hne⟩, heq⟩⟩
  · rintro ⟨⟨k, hk, rfl⟩, hkept⟩
    refine ⟨k, ⟨hk, ?_⟩, rfl⟩
    rintro ⟨v, ⟨hv, hne⟩, heq⟩
    exact hkept v hv hne heq

end Identities

end Waldur.Scim
