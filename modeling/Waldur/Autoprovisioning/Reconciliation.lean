import Mathlib
import Waldur.Permissions.Models

/-!
# Autoprovisioning.Reconciliation — the roles that rules assert for a user

`reconciliation.py`.  The rules give the pairs that a user is to hold (`getAssertedGrants`); `reconcile` grants or
restores those without an active row and revokes the rows of opted-in rules that no rule asserts any more.  Whether a
rule matches and which project name it resolves depends on the claims of the user alone, so both are part of the
`Directory` that a run reads.
-/

namespace Waldur.Autoprovisioning

open Relational Permissions

structure Rule where
  id : ℕ
  uuid : String
  customer : Option ℕ := none
  projectRole : Option ℕ := none
  customerRole : Option ℕ := none
  createProject : Bool := true
  revokeWhenUnmatched : Bool := false
  useUserOrganizationAsCustomerName : Bool := false
deriving DecidableEq

/-- `Rule.grant_source`. -/
def Rule.grantSource (r : Rule) : String := "rule:" ++ r.uuid

structure User where
  id : ℕ
  organization : String := ""
  shouldProtectUserDetails : Bool := false

structure Project where
  id : ℕ
  name : String
  customer : ℕ

/-- What a run reads besides the grants: organizations by name, the projects that are not removed, the verdict and the
project name of each rule for the user, the names in the labels, and the policy. -/
structure Directory where
  customers : List (ℕ × String) := []
  projects : List Project := []
  matched : Rule → Bool
  projectName : Rule → String
  adminRole : ℕ
  roleName : ℕ → String
  scopeName : Scope → String
  policy : Policy

def Directory.label (w : Directory) (pair : Pair) : String := w.roleName pair.2 ++ " on " ++ w.scopeName pair.1

structure Report where
  granted : List String := []
  revoked : List String := []
deriving DecidableEq

section

variable (w : Directory) (rules : List Rule) (user : User)

/-- `resolve_customer`. -/
def resolveCustomer (rule : Rule) : Option ℕ :=
  if !rule.useUserOrganizationAsCustomerName then rule.customer
  else if !user.shouldProtectUserDetails then none
  else if user.organization = "" then none
  else
    match w.customers.filter fun c => c.2 = user.organization with
    | [candidate] => some candidate.1
    | _ => none

/-- `asserted[pair] = rule`: a pair that is there keeps its place. -/
def assign (asserted : List (Pair × Rule)) (pair : Pair) (rule : Rule) : List (Pair × Rule) :=
  if asserted.any fun e => e.1 = pair then asserted.map fun e => if e.1 = pair then (pair, rule) else e
  else asserted ++ [(pair, rule)]

/-- One turn of `get_asserted_grants`. -/
def assertRule (asserted : List (Pair × Rule)) (rule : Rule) : List (Pair × Rule) :=
  if !w.matched rule then asserted
  else
    match resolveCustomer w user rule with
    | none => asserted
    | some customer =>
      let asserted := match rule.customerRole with
        | some role => assign asserted (⟨.customer, customer⟩, role) rule
        | none => asserted
      if rule.createProject then
        match w.projects.find? fun p => p.name = w.projectName rule && p.customer = customer with
        | some project => assign asserted (⟨.project, project.id⟩, rule.projectRole.getD w.adminRole) rule
        | none => asserted
      else asserted

/-- `get_asserted_grants`. -/
def getAssertedGrants : List (Pair × Rule) := rules.foldl (assertRule w user) []

/-- `key in existing`. -/
def existing (rows : UserRoles) (pair : Pair) : Bool := rows.rows.any (·.grants user.id pair)

/-- `revoked_by_us.get(key)`: the last one created. -/
def revokedByUs (rows : UserRoles) (pair : Pair) : Option UserRole :=
  (rows.rows.filter fun r => r.user == user.id && r.isActive == some false &&
    (rules.map (·.grantSource)).contains r.source && r.pair == pair).foldl (fun latest r =>
      match latest with
      | none => some r
      | some l => if l.created ≤ r.created then some r else some l) none

/-- One turn of the loop over `asserted`; `before` are the rows as the run found them. -/
def grantOne (dryRun : Bool) (now : ℤ) (before : UserRoles) (s : UserRoles × List String) (e : Pair × Rule) :
    UserRoles × List String :=
  if existing user before e.1 then s
  else if dryRun then (s.1, s.2 ++ [w.label e.1])
  else
    match (revokedByUs rules user before e.1).filter fun previous => previous.source == e.2.grantSource with
    | some previous =>
      match checkGrantPolicy w.policy e.1 with
      | .ok () => (s.1.update previous.id UserRole.restore UserRole.id_restore, s.2 ++ [w.label e.1])
      | .error _ => s
    | none =>
      match addUser w.policy s.1 user.id e.1 none e.2.grantSource now with
      | .ok rows => (rows, s.2 ++ [w.label e.1])
      | .error _ => s

/-- A row that an opted-in rule has issued and no rule asserts. -/
def stale (r : UserRole) : Bool :=
  r.active && r.user == user.id && ((rules.filter (·.revokeWhenUnmatched)).map (·.grantSource)).contains r.source &&
    !(getAssertedGrants w rules user).any fun e => e.1 = r.pair

def revokeStale (now : ℤ) (r : UserRole) : UserRole := if stale w rules user r then r.revoke now else r

theorem id_revokeStale (now : ℤ) (r : UserRole) : (revokeStale w rules user now r).id = r.id := by
  unfold revokeStale
  split
  · exact UserRole.id_revoke now r
  · rfl

/-- `reconcile_autoprovisioned_roles`. -/
def reconcile (dryRun : Bool) (now : ℤ) (rows : UserRoles) : UserRoles × Report :=
  if rules.isEmpty then (rows, {})
  else
    let s := (getAssertedGrants w rules user).foldl (grantOne w rules user dryRun now rows) (rows, [])
    let report := ⟨s.2, (s.1.rows.filter (stale w rules user)).map fun r => w.label r.pair⟩
    if dryRun then (s.1, report)
    else (s.1.mapRows (revokeStale w rules user now) (id_revokeStale w rules user now), report)

/-- What reconciliation may change: rows of the user that a rule has issued. -/
def issued (r : UserRole) : Bool := r.user == user.id && (rules.map (·.grantSource)).contains r.source

end

variable {w : Directory} {rules : List Rule} {user : User}

/-! ## The asserted pairs -/

section Asserted

variable {asserted : List (Pair × Rule)} {pair : Pair} {rule : Rule}

theorem nodup_assign (h : (asserted.map Prod.fst).Nodup) : ((assign asserted pair rule).map Prod.fst).Nodup := by
  unfold assign
  split_ifs with hany
  · have hkeys : (asserted.map fun e => if e.1 = pair then (pair, rule) else e).map Prod.fst = asserted.map Prod.fst := by
      rw [List.map_map]
      refine List.map_congr_left fun e _ => ?_
      simp only [Function.comp_apply]
      split_ifs with he
      · exact he.symm
      · rfl
    rwa [hkeys]
  · rw [List.map_append, List.map_singleton, List.nodup_append]
    refine ⟨h, List.nodup_singleton _, ?_⟩
    rintro a ha b hb rfl
    obtain ⟨e, he, rfl⟩ := List.mem_map.mp ha
    apply hany
    rw [List.any_eq_true]
    exact ⟨e, he, decide_eq_true (List.mem_singleton.mp hb)⟩

theorem mem_assign {e : Pair × Rule} (h : e ∈ assign asserted pair rule) : e ∈ asserted ∨ e.2 = rule := by
  unfold assign at h
  split_ifs at h
  · obtain ⟨e', he', rfl⟩ := List.mem_map.mp h
    split_ifs
    · exact Or.inr rfl
    · exact Or.inl he'
  · rcases List.mem_append.mp h with h | h
    · exact Or.inl h
    · rw [List.mem_singleton.mp h]
      exact Or.inr rfl

/-- What each turn keeps: the pairs are distinct, and asserted by rules. -/
def WellAsserted (rules : List Rule) (asserted : List (Pair × Rule)) : Prop :=
  (asserted.map Prod.fst).Nodup ∧ ∀ e ∈ asserted, e.2 ∈ rules

theorem wellAsserted_assign (h : WellAsserted rules asserted) (hrule : rule ∈ rules) :
    WellAsserted rules (assign asserted pair rule) := by
  refine ⟨nodup_assign h.1, fun e he => ?_⟩
  rcases mem_assign he with he | he
  · exact h.2 e he
  · exact he ▸ hrule

theorem wellAsserted_assertRule (h : WellAsserted rules asserted) (hrule : rule ∈ rules) :
    WellAsserted rules (assertRule w user asserted rule) := by
  have hcustomer : ∀ customer, WellAsserted rules (match rule.customerRole with
      | some role => assign asserted (⟨.customer, customer⟩, role) rule
      | none => asserted) := by
    intro customer
    cases rule.customerRole with
    | none => exact h
    | some role => exact wellAsserted_assign h hrule
  unfold assertRule
  split
  · exact h
  · cases resolveCustomer w user rule with
    | none => exact h
    | some customer =>
      dsimp only
      by_cases hproject : rule.createProject = true
      · rw [if_pos hproject]
        split
        · exact wellAsserted_assign (hcustomer customer) hrule
        · exact hcustomer customer
      · rw [if_neg hproject]
        exact hcustomer customer

theorem wellAsserted : WellAsserted rules (getAssertedGrants w rules user) := by
  have hfold : ∀ (l : List Rule) (asserted : List (Pair × Rule)), (∀ rule ∈ l, rule ∈ rules) →
      WellAsserted rules asserted → WellAsserted rules (l.foldl (assertRule w user) asserted) := by
    intro l
    induction l with
    | nil => exact fun _ _ h => h
    | cons rule l ih =>
      intro asserted hl h
      exact ih _ (fun r hr => hl r (List.mem_cons_of_mem _ hr))
        (wellAsserted_assertRule h (hl rule List.mem_cons_self))
  exact hfold rules [] (fun _ h => h) ⟨List.nodup_nil, fun e he => absurd he List.not_mem_nil⟩

theorem grantSource_mem {e : Pair × Rule} (he : e ∈ getAssertedGrants w rules user) :
    e.2.grantSource ∈ rules.map (·.grantSource) := List.mem_map_of_mem (wellAsserted.2 e he)

end Asserted

/-! ## One turn -/

section Turn

variable {now : ℤ} {before : UserRoles} {s : UserRoles × List String} {e : Pair × Rule} {pair : Pair}

theorem existing_iff {rows : UserRoles} : existing user rows pair = true ↔ 0 < rows.count (·.grants user.id pair) := by
  unfold existing Table.count
  rw [List.any_eq_true, List.countP_pos_iff]

theorem foldl_latest {l : List UserRole} : ∀ {latest : Option UserRole} {r : UserRole},
    l.foldl (fun latest r => match latest with
      | none => some r
      | some l => if l.created ≤ r.created then some r else some l) latest = some r → latest = some r ∨ r ∈ l := by
  induction l with
  | nil => exact fun h => Or.inl h
  | cons b l ih =>
    intro latest r h
    rcases ih h with hlatest | hmem
    · cases latest with
      | none =>
        obtain rfl := Option.some.inj hlatest
        exact Or.inr List.mem_cons_self
      | some a =>
        simp only at hlatest
        split at hlatest
        · obtain rfl := Option.some.inj hlatest
          exact Or.inr List.mem_cons_self
        · exact Or.inl hlatest
    · exact Or.inr (List.mem_cons_of_mem b hmem)

/-- The row that a run restores is an inactive one of the user that a rule has issued. -/
theorem revokedByUs_spec {rows : UserRoles} {r : UserRole} (h : revokedByUs rules user rows pair = some r) :
    r ∈ rows.rows ∧ r.user = user.id ∧ r.active = false ∧ r.source ∈ rules.map (·.grantSource) ∧ r.pair = pair := by
  rcases foldl_latest h with hnone | hmem
  · cases hnone
  · obtain ⟨hr, hp⟩ := List.mem_filter.mp hmem
    simp only [Bool.and_eq_true, beq_iff_eq, List.contains_eq_mem, decide_eq_true_eq] at hp
    obtain ⟨⟨⟨huser, hactive⟩, hsource⟩, hpair⟩ := hp
    refine ⟨hr, huser, ?_, hsource, hpair⟩
    unfold UserRole.active
    rw [hactive]
    rfl

theorem accepts_iff {policy : Policy} : accepts policy pair = true ↔ checkGrantPolicy policy pair = .ok () := by
  unfold accepts
  cases checkGrantPolicy policy pair with
  | ok u => exact iff_of_true rfl rfl
  | error err =>
    refine iff_of_false Bool.false_ne_true fun h => ?_
    cases h

/-- What a real turn does: nothing where the pair is held or refused; otherwise it restores a revoked row of the pair or
adds a row to the table. -/
theorem grantOne_cases :
    (existing user before e.1 = true ∨ accepts w.policy e.1 = false) ∧
        grantOne w rules user false now before s e = s ∨
      existing user before e.1 = false ∧ accepts w.policy e.1 = true ∧
        (grantOne w rules user false now before s e).2 = s.2 ++ [w.label e.1] ∧
        ((∃ r, revokedByUs rules user before e.1 = some r ∧
            (grantOne w rules user false now before s e).1 =
              s.1.update r.id UserRole.restore UserRole.id_restore) ∨
          (grantOne w rules user false now before s e).1 =
            s.1.add (newRole user.id e.1 none e.2.grantSource now) id_newRole) := by
  unfold grantOne
  cases hexisting : existing user before e.1 with
  | true =>
    rw [if_pos rfl]
    exact Or.inl ⟨Or.inl rfl, rfl⟩
  | false =>
    rw [if_neg Bool.false_ne_true, if_neg Bool.false_ne_true]
    cases haccepts : accepts w.policy e.1 with
    | true =>
      have hpolicy := accepts_iff.mp haccepts
      refine Or.inr ⟨rfl, rfl, ?_⟩
      cases hprevious : (revokedByUs rules user before e.1).filter fun r => r.source == e.2.grantSource with
      | some r =>
        refine ⟨?_, Or.inl ⟨r, (Option.filter_eq_some_iff.mp hprevious).1, ?_⟩⟩
        · simp only [hpolicy]
        · simp only [hpolicy]
      | none =>
        have hadd : addUser w.policy s.1 user.id e.1 none e.2.grantSource now =
            .ok (s.1.add (newRole user.id e.1 none e.2.grantSource now) id_newRole) := by
          unfold addUser
          rw [hpolicy]
          rfl
        refine ⟨?_, Or.inr ?_⟩
        · simp only [hadd]
        · simp only [hadd]
    | false =>
      refine Or.inl ⟨Or.inr rfl, ?_⟩
      obtain ⟨err, herr⟩ : ∃ err, checkGrantPolicy w.policy e.1 = .error err := by
        cases hpolicy : checkGrantPolicy w.policy e.1 with
        | error err => exact ⟨err, rfl⟩
        | ok u =>
          rw [accepts_iff.mpr hpolicy] at haccepts
          cases haccepts
      have hadd : addUser w.policy s.1 user.id e.1 none e.2.grantSource now = .error err := by
        unfold addUser
        rw [herr]
        rfl
      cases (revokedByUs rules user before e.1).filter fun r => r.source == e.2.grantSource with
      | some r => simp only [herr]
      | none => simp only [hadd]

/-- The rows that a turn may still restore are as the run found them. -/
def Untouched (rules : List Rule) (user : User) (before rows : UserRoles) (pair : Pair) : Prop :=
  ∀ r, revokedByUs rules user before pair = some r → rows.get? r.id = some r

/-- A turn leaves the rows alone that no grant of its pair to the user under a rule meets. -/
theorem filter_grantOne {p : UserRole → Bool} (hsource : e.2.grantSource ∈ rules.map (·.grantSource))
    (huntouched : Untouched rules user before s.1 e.1)
    (hp : ∀ r : UserRole, r.user = user.id → r.pair = e.1 → r.source ∈ rules.map (·.grantSource) → p r = false) :
    (grantOne w rules user false now before s e).1.rows.filter p = s.1.rows.filter p := by
  rcases @grantOne_cases w rules user now before s e with
    ⟨-, hs⟩ | ⟨-, -, -, ⟨r, hr, hs⟩ | hs⟩
  · rw [hs]
  · obtain ⟨-, huser, -, hissued, hpair⟩ := revokedByUs_spec hr
    rw [hs]
    refine Table.filter_update s.1 (huntouched r hr) _ _ p (hp r huser hpair hissued) ?_
    exact hp _ (UserRole.user_restore.trans huser) (UserRole.pair_restore.trans hpair)
      (UserRole.source_restore.symm ▸ hissued)
  · rw [hs]
    exact Table.filter_add (hp _ rfl rfl hsource)

/-- An accepted turn leaves one more active row of its pair, and as many as before of every other. -/
theorem count_grantOne (huntouched : Untouched rules user before s.1 e.1)
    (haccept : existing user before e.1 = false → accepts w.policy e.1 = true) (pair : Pair) :
    (grantOne w rules user false now before s e).1.count (·.grants user.id pair) =
      s.1.count (·.grants user.id pair) + if pair = e.1 ∧ existing user before e.1 = false then 1 else 0 := by
  rcases @grantOne_cases w rules user now before s e with
    ⟨hskip, hs⟩ | ⟨hnot, -, -, ⟨r, hr, hs⟩ | hs⟩
  · have hexisting : existing user before e.1 = true := by
      by_contra hne
      rw [Bool.not_eq_true] at hne
      rcases hskip with hskip | hskip
      · rw [hskip] at hne
        cases hne
      · rw [haccept hne] at hskip
        cases hskip
    rw [hs, hexisting, if_neg (by simp), Nat.add_zero]
  · obtain ⟨-, huser, hinactive, -, hpair⟩ := revokedByUs_spec hr
    have hcount := Table.count_update s.1 (huntouched r hr) UserRole.restore UserRole.id_restore
      (·.grants user.id pair)
    have hbefore : r.grants user.id pair = false := by
      unfold UserRole.grants
      rw [hinactive, Bool.false_and]
    have hafter : r.restore.grants user.id pair = (e.1 == pair) := by
      unfold UserRole.grants
      rw [UserRole.active_restore, UserRole.user_restore, huser, UserRole.pair_restore, hpair]
      simp
    rw [hbefore, hafter] at hcount
    rw [hs, hnot]
    by_cases hsame : pair = e.1
    · simp [hsame] at hcount ⊢
      omega
    · have hne : (e.1 == pair) = false := beq_eq_false_iff_ne.mpr (Ne.symm hsame)
      simp [hsame, hne] at hcount ⊢
      omega
  · have hnew : (newRole user.id e.1 none e.2.grantSource now s.1.freshId).grants user.id pair =
        (e.1 == pair) := by
      unfold UserRole.grants UserRole.active UserRole.pair newRole
      simp
    rw [hs, hnot, Table.count_add, hnew]
    by_cases hsame : pair = e.1
    · simp [hsame]
    · simp [hsame, Ne.symm hsame]

theorem untouched_grantOne (hne : pair ≠ e.1)
    (h : Untouched rules user before s.1 pair) :
    Untouched rules user before (grantOne w rules user false now before s e).1 pair := by
  intro r hr
  rcases @grantOne_cases w rules user now before s e with
    ⟨-, hs⟩ | ⟨-, -, -, ⟨r', hr', hs⟩ | hs⟩
  · rw [hs]
    exact h r hr
  · obtain ⟨hmem, -, -, -, hpair⟩ := revokedByUs_spec hr
    obtain ⟨hmem', -, -, -, hpair'⟩ := revokedByUs_spec hr'
    have hid : r.id ≠ r'.id := by
      intro hid
      apply hne
      rw [← hpair, ← hpair', before.eq_of_key_eq hmem hmem' hid]
    rw [hs, Table.get?_update_ne _ _ _ hid]
    exact h r hr
  · rw [hs]
    exact Table.get?_add (h r hr)

end Turn

/-! ## The loop -/

section Loop

variable {now : ℤ} {before : UserRoles} {l : List (Pair × Rule)}

/-- The loop leaves the rows alone that no grant of an asserted pair under a rule meets. -/
theorem filter_grants {p : UserRole → Bool} : ∀ {s : UserRoles × List String}, (l.map Prod.fst).Nodup →
    (∀ e ∈ l, e.2.grantSource ∈ rules.map (·.grantSource)) → (∀ e ∈ l, Untouched rules user before s.1 e.1) →
    (∀ e ∈ l, ∀ r : UserRole, r.user = user.id → r.pair = e.1 → r.source ∈ rules.map (·.grantSource) → p r = false) →
    (l.foldl (grantOne w rules user false now before) s).1.rows.filter p = s.1.rows.filter p := by
  induction l with
  | nil => exact fun _ _ _ _ => rfl
  | cons e l ih =>
    intro s hnodup hsource huntouched hp
    obtain ⟨hnew, hnodup⟩ := List.nodup_cons.mp hnodup
    have hstep : (grantOne w rules user false now before s e).1.rows.filter p = s.1.rows.filter p :=
      filter_grantOne (hsource e List.mem_cons_self) (huntouched e List.mem_cons_self) (hp e List.mem_cons_self)
    refine (ih hnodup (fun e' he' => hsource e' (List.mem_cons_of_mem _ he')) (fun e' he' => ?_)
      fun e' he' => hp e' (List.mem_cons_of_mem _ he')).trans hstep
    refine untouched_grantOne (fun heq => ?_) (huntouched e' (List.mem_cons_of_mem _ he'))
    exact hnew (heq ▸ List.mem_map_of_mem he')

/-- Where the policy accepts, the loop adds an active row for each asserted pair without one. -/
theorem count_grants : ∀ {s : UserRoles × List String}, (l.map Prod.fst).Nodup →
    (∀ e ∈ l, Untouched rules user before s.1 e.1) →
    (∀ e ∈ l, existing user before e.1 = false → accepts w.policy e.1 = true) → ∀ pair : Pair,
    (l.foldl (grantOne w rules user false now before) s).1.count (·.grants user.id pair) =
      s.1.count (·.grants user.id pair) + if pair ∈ l.map Prod.fst ∧ existing user before pair = false then 1 else 0 := by
  induction l with
  | nil =>
    intro s _ _ _ pair
    simp
  | cons e l ih =>
    intro s hnodup huntouched haccept pair
    obtain ⟨hnew, hnodup⟩ := List.nodup_cons.mp hnodup
    have hrest := @ih (grantOne w rules user false now before s e) hnodup
      (fun e' he' => by
        refine untouched_grantOne (fun heq => ?_)
          (huntouched e' (List.mem_cons_of_mem _ he'))
        exact hnew (heq ▸ List.mem_map_of_mem he'))
      (fun e' he' => haccept e' (List.mem_cons_of_mem _ he')) pair
    rw [List.foldl_cons, hrest, count_grantOne (huntouched e List.mem_cons_self)
      (haccept e List.mem_cons_self)]
    by_cases hsame : pair = e.1
    · subst hsame
      simp [hnew]
    · have hmem : pair ∈ (e :: l).map Prod.fst ↔ pair ∈ l.map Prod.fst := by
        rw [List.map_cons, List.mem_cons, or_iff_right hsame]
      simp only [hsame, false_and, if_false, Nat.add_zero, hmem]

theorem untouched_start {pair : Pair} : Untouched rules user before before pair := by
  intro r hr
  obtain ⟨hmem, -⟩ := revokedByUs_spec hr
  exact Table.get?_eq_some.mpr ⟨hmem, rfl⟩

end Loop


/-! ## The whole run -/

/-- The user holds each pair of the list at most once. -/
def HeldOnce (user : User) (rows : UserRoles) : Prop := ∀ pair, rows.count (·.grants user.id pair) ≤ 1

/-- What a run is to leave: only rows of the user that a rule has issued differ, every asserted pair has one active
row, no active row of an opted-in rule lies outside them, no pair is held twice, and another run changes nothing. -/
structure Converged (w : Directory) (rules : List Rule) (user : User) (rows after : UserRoles) : Prop where
  others : (after.rows.filter fun r => !issued rules user r) = rows.rows.filter fun r => !issued rules user r
  asserted : ∀ e ∈ getAssertedGrants w rules user, after.count (·.grants user.id e.1) = 1
  no_stale : ∀ r ∈ after.rows, r.user = user.id → r.active = true →
    (∃ rule ∈ rules, rule.revokeWhenUnmatched = true ∧ rule.grantSource = r.source) →
    ∃ e ∈ getAssertedGrants w rules user, e.1 = r.pair
  once : HeldOnce user after
  again : ∀ now, reconcile w rules user false now after = (after, {})

section Run

variable {now : ℤ} {rows : UserRoles} {r : UserRole}

/-- The rows after the loop. -/
def granted (w : Directory) (rules : List Rule) (user : User) (dryRun : Bool) (now : ℤ) (rows : UserRoles) :
    UserRoles × List String :=
  (getAssertedGrants w rules user).foldl (grantOne w rules user dryRun now rows) (rows, [])

theorem stale_iff : stale w rules user r = true ↔ r.active = true ∧ r.user = user.id ∧
    (∃ rule ∈ rules, rule.revokeWhenUnmatched = true ∧ rule.grantSource = r.source) ∧
    ¬ ∃ e ∈ getAssertedGrants w rules user, e.1 = r.pair := by
  unfold stale
  simp only [Bool.and_eq_true, beq_iff_eq, List.contains_eq_mem, decide_eq_true_eq, List.mem_map, List.mem_filter,
    Bool.not_eq_true', ← Bool.not_eq_true, List.any_eq_true, and_assoc]

theorem issued_of_stale (h : stale w rules user r = true) : issued rules user r = true := by
  obtain ⟨-, huser, ⟨rule, hrule, -, hsource⟩, -⟩ := stale_iff.mp h
  unfold issued
  rw [huser, beq_self_eq_true, Bool.true_and, List.contains_eq_mem, decide_eq_true_eq, ← hsource]
  exact List.mem_map_of_mem hrule

theorem reconcile_of_rules (h : rules ≠ []) : (reconcile w rules user false now rows).1 =
    (granted w rules user false now rows).1.mapRows (revokeStale w rules user now) (id_revokeStale w rules user now) := by
  unfold reconcile granted
  rw [if_neg (by simpa using h), if_neg Bool.false_ne_true]

/-- Revoking what is stale changes nothing else. -/
theorem filter_revokeStale {t : UserRoles} {p : UserRole → Bool} (hp : ∀ r, stale w rules user r = true → p r = false)
    (hp' : ∀ r, stale w rules user r = true → p (r.revoke now) = false) :
    (t.mapRows (revokeStale w rules user now) (id_revokeStale w rules user now)).rows.filter p = t.rows.filter p := by
  show (t.rows.map (revokeStale w rules user now)).filter p = _
  rw [List.filter_map]
  have hfilter : t.rows.filter (p ∘ revokeStale w rules user now) = t.rows.filter p := by
    refine List.filter_congr fun r _ => ?_
    simp only [Function.comp_apply]
    unfold revokeStale
    split_ifs with hstale
    · rw [hp r hstale, hp' r hstale]
    · rfl
  rw [hfilter]
  refine (List.map_congr_left fun r hr => ?_).trans (List.map_id _)
  unfold revokeStale
  rw [if_neg]
  · rfl
  · intro hstale
    have hpr := (List.mem_filter.mp hr).2
    rw [hp r hstale] at hpr
    cases hpr

theorem grants_revoke {pair : Pair} : (r.revoke now).grants user.id pair = false := by
  unfold UserRole.grants
  rw [UserRole.active_revoke, Bool.false_and]

theorem count_revokeStale_le {t : UserRoles} (pair : Pair) :
    (t.mapRows (revokeStale w rules user now) (id_revokeStale w rules user now)).count (·.grants user.id pair) ≤
      t.count (·.grants user.id pair) := by
  show (t.rows.map (revokeStale w rules user now)).countP _ ≤ _
  rw [List.countP_map]
  refine List.countP_mono_left fun r _ h => ?_
  simp only [Function.comp_apply] at h
  unfold revokeStale at h
  split_ifs at h
  · rw [grants_revoke] at h
    cases h
  · exact h

theorem count_revokeStale {t : UserRoles} {e : Pair × Rule} (he : e ∈ getAssertedGrants w rules user) :
    (t.mapRows (revokeStale w rules user now) (id_revokeStale w rules user now)).count (·.grants user.id e.1) =
      t.count (·.grants user.id e.1) := by
  have hfilter := @filter_revokeStale w rules user now t (·.grants user.id e.1) (fun r hstale => ?_)
    (fun r _ => grants_revoke)
  · unfold Table.count
    rw [List.countP_eq_length_filter, List.countP_eq_length_filter, hfilter]
  · obtain ⟨-, -, -, hnone⟩ := stale_iff.mp hstale
    rw [← Bool.not_eq_true, UserRole.grants_iff]
    exact fun h => hnone ⟨e, he, h.2.2.symm⟩

/-- After an accepted loop the asserted pairs are held once, and no pair twice. -/
theorem count_granted (honce : HeldOnce user rows)
    (haccept : ∀ e ∈ getAssertedGrants w rules user, existing user rows e.1 = false → accepts w.policy e.1 = true) :
    (∀ e ∈ getAssertedGrants w rules user, (granted w rules user false now rows).1.count (·.grants user.id e.1) = 1) ∧
      HeldOnce user (granted w rules user false now rows).1 := by
  have hcount := @count_grants w rules user now rows (getAssertedGrants w rules user) (rows, []) wellAsserted.1
    (fun e _ => untouched_start) haccept
  have hexisting : ∀ pair, existing user rows pair = false ↔ rows.count (·.grants user.id pair) = 0 := by
    intro pair
    rw [← Bool.not_eq_true, existing_iff]
    omega
  refine ⟨fun e he => ?_, fun pair => ?_⟩
  · have hone := honce e.1
    refine (hcount e.1).trans ?_
    by_cases hnone : existing user rows e.1 = false
    · rw [if_pos ⟨List.mem_map_of_mem he, hnone⟩, (hexisting e.1).mp hnone]
    · rw [if_neg fun h => hnone h.2]
      have hpos := mt (hexisting e.1).mpr hnone
      simp only
      omega
  · refine (hcount pair).trans_le ?_
    have hone := honce pair
    split_ifs with h
    · rw [(hexisting pair).mp h.2]
    · exact hone

theorem granted_of_held (h : ∀ e ∈ getAssertedGrants w rules user, existing user rows e.1 = true) (dryRun : Bool) :
    granted w rules user dryRun now rows = (rows, []) := by
  unfold granted
  have hfold : ∀ (l : List (Pair × Rule)) (s : UserRoles × List String), (∀ e ∈ l, existing user rows e.1 = true) →
      l.foldl (grantOne w rules user dryRun now rows) s = s := by
    intro l
    induction l with
    | nil => exact fun _ _ => rfl
    | cons e l ih =>
      intro s hl
      have hstep : grantOne w rules user dryRun now rows s e = s := by
        unfold grantOne
        rw [if_pos (hl e List.mem_cons_self)]
      rw [List.foldl_cons, hstep]
      exact ih s fun e' he' => hl e' (List.mem_cons_of_mem _ he')
  exact hfold _ _ h

/-- A run on rows that hold every asserted pair and nothing stale changes nothing. -/
theorem reconcile_fixed (hheld : ∀ e ∈ getAssertedGrants w rules user, existing user rows e.1 = true)
    (hstale : ∀ r ∈ rows.rows, stale w rules user r = false) : reconcile w rules user false now rows = (rows, {}) := by
  unfold reconcile
  by_cases hrules : rules.isEmpty = true
  · rw [if_pos hrules]
  · rw [if_neg hrules]
    have hloop := @granted_of_held w rules user now rows hheld false
    unfold granted at hloop
    have hnone : rows.rows.filter (stale w rules user) = [] :=
      List.filter_eq_nil_iff.mpr fun r hr => by simp [hstale r hr]
    have hrows : rows.mapRows (revokeStale w rules user now) (id_revokeStale w rules user now) = rows := by
      refine Table.ext ((List.map_congr_left fun r hr => ?_).trans (List.map_id _))
      unfold revokeStale
      rw [hstale r hr]
      rfl
    simp only [hloop, hnone, hrows, List.map_nil, Bool.false_eq_true, if_false]

theorem heldOnce_iff : HeldOnce user rows ↔
    ((rows.rows.filter fun r => r.active && r.user == user.id).map UserRole.pair).Nodup := by
  rw [List.nodup_iff_count_le_one]
  refine forall_congr' fun pair => ?_
  have hcount : ((rows.rows.filter fun r => r.active && r.user == user.id).map UserRole.pair).count pair =
      rows.count (·.grants user.id pair) := by
    unfold List.count Table.count
    rw [List.countP_map, List.countP_filter]
    refine List.countP_congr fun r _ => ?_
    unfold UserRole.grants
    simp only [Function.comp_apply, Bool.and_eq_true]
    tauto
  rw [hcount]

instance : Decidable (HeldOnce user rows) := decidable_of_iff _ heldOnce_iff.symm

end Run

/-- Two rules on one organization, of which the first matches. -/
def twoRules : List Rule :=
  [⟨1, "a", some 1, none, some 7, false, false, false⟩, ⟨2, "b", some 1, none, some 8, false, true, false⟩]

/-- The project role 5 is concealed in organization 1. -/
def organization : Directory where
  matched := fun rule => rule.id == 1
  projectName := fun _ => ""
  adminRole := 5
  roleName := fun role => if role = 7 then "owner" else "support"
  scopeName := fun _ => "organization"
  policy := ⟨fun scope => [scope], [], [(5, ⟨.customer, 1⟩)]⟩

/-- A grant by hand, a revoked grant of the first rule, and an active one of the second. -/
def heldRoles : UserRoles :=
  ⟨[⟨1, 1, 8, ⟨.project, 1⟩, "", none, some true, 0⟩, ⟨2, 1, 7, ⟨.customer, 1⟩, "rule:a", some 5, some false, 1⟩,
    ⟨3, 1, 8, ⟨.customer, 1⟩, "rule:b", none, some true, 2⟩], by decide⟩

end Waldur.Autoprovisioning
