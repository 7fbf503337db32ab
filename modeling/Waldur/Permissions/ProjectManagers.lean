import Mathlib
import Waldur.Lib.Runs
import Waldur.Permissions.Grants

/-!
# Permissions.ProjectManagers — one manager to a project

Under `ONLY_ONE_PROJECT_MANAGER` a grant is refused where a manager is counted.  A row whose time has passed, or whose
user is inactive, is not counted, and nothing checks the count when it comes back: `ReturnsAlone` is the exact
condition.
-/

namespace Waldur.Permissions

open Relational Runs

/-- The grants, who is active, and the time. -/
structure Membership where
  rows : UserRoles
  userActive : ℕ → Bool
  now : ℤ

inductive MembershipOp
  | grant (user : ℕ) (pair : Pair) (expirationTime : Option ℤ)
  | updateUser (user : ℕ) (pair : Pair) (expirationTime : Option ℤ)
  | deleteUser (user : ℕ) (pair : Pair)
  | checkExpiredPermissions
  | wait (d : ℕ)
  | setActive (user : ℕ) (userActive : Bool)

section

variable (site : Site) (exempt : UserRole → Bool)

/-- `validate_role_grant` followed by `add_user`. -/
def grantRole (s : Membership) (user : ℕ) (pair : Pair) (expirationTime : Option ℤ) : Membership :=
  match validateRoleGrant site s.rows s.userActive s.now user pair with
  | .error _ => s
  | .ok () =>
    match addUser site.policy s.rows user pair expirationTime "" s.now with
    | .error _ => s
    | .ok rows => { s with rows := rows }

/-- One operation; one that raises changes nothing. -/
def stepMembership (s : Membership) : MembershipOp → Membership
  | .grant user pair expirationTime => grantRole site s user pair expirationTime
  | .updateUser user pair expirationTime =>
    match updateUser s.rows user pair expirationTime with
    | .ok result => { s with rows := result.1 }
    | .error _ => s
  | .deleteUser user pair =>
    match deleteUser s.rows user pair s.now with
    | .ok result => { s with rows := result.1 }
    | .error _ => s
  | .checkExpiredPermissions => { s with rows := checkExpiredPermissions exempt s.now s.rows }
  | .wait d => { s with now := s.now + d }
  | .setActive user userActive => { s with userActive := Function.update s.userActive user userActive }

/-- The managers that are counted in a project. -/
def Membership.managers (s : Membership) (project : ℕ) : ℕ :=
  countActiveProjectManagers site s.rows s.userActive s.now project

/-- No project has two managers. -/
def OneManager (s : Membership) : Prop := ∀ project, s.managers site project ≤ 1

/-- **When a manager returns alone**: an extension that brings a manager's expired role back into the count finds no
manager counted, and a user who becomes active again holds with those counted no more than one unexpired role of a
manager in a project. -/
def ReturnsAlone (s : Membership) : MembershipOp → Prop
  | .updateUser user pair expirationTime => ∀ r, getActive s.rows user pair = .ok r →
      pair.1.contentType = .project → isManagerRole site pair.2 = true → s.userActive user = true →
      unexpired s.now r.expirationTime = false → unexpired s.now expirationTime = true →
      s.managers site pair.1.objectId = 0
  | .setActive user userActive => userActive = true → s.userActive user = false →
      ∀ r ∈ s.rows.rows, r.user = user → managerRow site s.now r.scope.objectId r = true →
        s.managers site r.scope.objectId +
          s.rows.count (fun r' => managerRow site s.now r.scope.objectId r' && r'.user == user) ≤ 1
  | _ => True

end

variable {site : Site} {exempt : UserRole → Bool} {s : Membership} {user project : ℕ} {pair : Pair}
  {expirationTime : Option ℤ} {r : UserRole}

theorem managerRow_iff {now : ℤ} : managerRow site now project r = true ↔ r.active = true ∧
    r.scope = ⟨.project, project⟩ ∧ isManagerRole site r.role = true ∧ unexpired now r.expirationTime = true := by
  unfold managerRow
  simp only [Bool.and_eq_true, beq_iff_eq, and_assoc]

/-- A grant changes nothing, or passes the checks and adds a row. -/
theorem grantRole_cases : grantRole site s user pair expirationTime = s ∨
    validateRoleGrant site s.rows s.userActive s.now user pair = .ok () ∧
      grantRole site s user pair expirationTime =
        { s with rows := s.rows.add (newRole user pair expirationTime "" s.now) id_newRole } := by
  unfold grantRole addUser
  cases validateRoleGrant site s.rows s.userActive s.now user pair with
  | error e => exact Or.inl rfl
  | ok u =>
    cases checkGrantPolicy site.policy pair with
    | error e => exact Or.inl rfl
    | ok u' => exact Or.inr ⟨rfl, rfl⟩

theorem oneManager_grant (hsetting : site.onlyOneProjectManager = true) (h : OneManager site s) :
    OneManager site (grantRole site s user pair expirationTime) := by
  rcases @grantRole_cases site s user pair expirationTime with hs | ⟨hvalid, hs⟩
  · rw [hs]
    exact h
  · obtain ⟨-, -, hnone⟩ := validateRoleGrant_ok hvalid
    rw [hs]
    intro project
    have hone := h project
    unfold Membership.managers countActiveProjectManagers at hone ⊢
    rw [Table.count_add]
    cases hnew : managerRow site s.now project (newRole user pair expirationTime "" s.now s.rows.freshId) with
    | false => simpa [hnew] using hone
    | true =>
      obtain ⟨-, hscope, hrole, -⟩ := managerRow_iff.mp hnew
      have hzero := hnone hsetting hrole project hscope
      unfold countActiveProjectManagers at hzero
      have hle := Bool.toNat_le (true && s.userActive (newRole user pair expirationTime "" s.now s.rows.freshId).user)
      dsimp only
      omega

/-- A removal changes nothing, or revokes the one active row. -/
theorem deleteUser_cases : stepMembership site exempt s (.deleteUser user pair) = s ∨
    ∃ r, getActive s.rows user pair = .ok r ∧ stepMembership site exempt s (.deleteUser user pair) =
      { s with rows := s.rows.update r.id (UserRole.revoke s.now) (UserRole.id_revoke s.now) } := by
  dsimp only [stepMembership, deleteUser]
  cases getActive s.rows user pair with
  | error e => cases e <;> exact Or.inl rfl
  | ok r => exact Or.inr ⟨r, rfl, rfl⟩

/-- An update changes nothing, or sets the expiration time of the one active row. -/
theorem updateUser_cases :
    (∃ e, getActive s.rows user pair = .error e) ∧
        stepMembership site exempt s (.updateUser user pair expirationTime) = s ∨
      ∃ r, getActive s.rows user pair = .ok r ∧ stepMembership site exempt s (.updateUser user pair expirationTime) =
        { s with
          rows := s.rows.update r.id (UserRole.setExpirationTime expirationTime)
            (UserRole.id_setExpirationTime expirationTime) } := by
  dsimp only [stepMembership, updateUser]
  cases getActive s.rows user pair with
  | error e => cases e <;> exact Or.inl ⟨⟨_, rfl⟩, rfl⟩
  | ok r => exact Or.inr ⟨r, rfl, rfl⟩

theorem oneManager_deleteUser (h : OneManager site s) :
    OneManager site (stepMembership site exempt s (.deleteUser user pair)) := by
  rcases @deleteUser_cases site exempt s user pair with hs | ⟨r, hget, hs⟩
  · rw [hs]
    exact h
  · obtain ⟨hr, -, -⟩ := getActive_ok hget
    rw [hs]
    intro project
    have hone := h project
    have hcount := Table.count_update s.rows hr (UserRole.revoke s.now) (UserRole.id_revoke s.now)
      fun r => managerRow site s.now project r && s.userActive r.user
    have hgone : managerRow site s.now project (r.revoke s.now) = false := by
      unfold managerRow
      rw [UserRole.active_revoke]
      rfl
    rw [hgone, Bool.false_and, Bool.toNat_false] at hcount
    unfold Membership.managers countActiveProjectManagers at hone ⊢
    dsimp only
    omega

theorem oneManager_checkExpired (h : OneManager site s) :
    OneManager site (stepMembership site exempt s .checkExpiredPermissions) := by
  intro project
  refine le_trans ?_ (h project)
  show ((s.rows.rows.map _).countP _) ≤ s.rows.rows.countP _
  rw [List.countP_map]
  refine List.countP_mono_left fun r _ hr => ?_
  simp only [Function.comp_apply] at hr
  unfold UserRole.cleanUp at hr
  split_ifs at hr with hexpired
  · obtain ⟨hmanager, -⟩ := Bool.and_eq_true_iff.mp hr
    have hactive := (managerRow_iff.mp hmanager).1
    rw [UserRole.active_revoke] at hactive
    cases hactive
  · exact hr

theorem oneManager_wait (d : ℕ) (h : OneManager site s) : OneManager site (stepMembership site exempt s (.wait d)) := by
  intro project
  refine le_trans (List.countP_mono_left fun r _ hr => ?_) (h project)
  obtain ⟨hmanager, hactive⟩ := Bool.and_eq_true_iff.mp hr
  obtain ⟨hrow, hscope, hrole, htime⟩ := managerRow_iff.mp hmanager
  have htime' : unexpired s.now r.expirationTime = true := by
    unfold unexpired at htime ⊢
    cases hexp : r.expirationTime with
    | none => rfl
    | some t =>
      rw [hexp] at htime
      have hle : s.now + d ≤ t := of_decide_eq_true htime
      exact decide_eq_true (by omega)
  exact Bool.and_eq_true_iff.mpr ⟨managerRow_iff.mpr ⟨hrow, hscope, hrole, htime'⟩, hactive⟩

/-! ## What may bring a manager back -/

/-- An extension keeps the bound exactly where the role returns alone. -/
theorem update_iff (h : OneManager site s) :
    OneManager site (stepMembership site exempt s (.updateUser user pair expirationTime)) ↔
      ReturnsAlone site s (.updateUser user pair expirationTime) := by
  rcases @updateUser_cases site exempt s user pair expirationTime with ⟨⟨e, hget⟩, hs⟩ | ⟨r, hget, hs⟩
  · rw [hs]
    refine iff_of_true h fun r hr => ?_
    rw [hget] at hr
    cases hr
  · rw [hs]
    obtain ⟨hr, hgrants, -⟩ := getActive_ok hget
    obtain ⟨hactive, huser, hpair⟩ := UserRole.grants_iff.mp hgrants
    have hscope : r.scope = pair.1 := congrArg Prod.fst hpair
    have hrole : r.role = pair.2 := congrArg Prod.snd hpair
    have hcount : ∀ project, _ := fun project =>
      Table.count_update s.rows hr (UserRole.setExpirationTime expirationTime)
        (UserRole.id_setExpirationTime expirationTime)
        fun r => managerRow site s.now project r && s.userActive r.user
    have hbefore : ∀ project, (managerRow site s.now project r && s.userActive r.user) = true ↔
        (pair.1 = ⟨.project, project⟩ ∧ isManagerRole site pair.2 = true ∧ s.userActive user = true) ∧
          unexpired s.now r.expirationTime = true := by
      intro project
      rw [Bool.and_eq_true, managerRow_iff, hactive, hscope, hrole, huser]
      tauto
    have hafter : ∀ project, (managerRow site s.now project (r.setExpirationTime expirationTime) &&
          s.userActive (r.setExpirationTime expirationTime).user) = true ↔
        (pair.1 = ⟨.project, project⟩ ∧ isManagerRole site pair.2 = true ∧ s.userActive user = true) ∧
          unexpired s.now expirationTime = true := by
      intro project
      rw [Bool.and_eq_true, managerRow_iff]
      show (r.active = true ∧ r.scope = _ ∧ isManagerRole site r.role = true ∧ _) ∧ s.userActive r.user = true ↔ _
      rw [hactive, hscope, hrole, huser]
      simp only [UserRole.setExpirationTime]
      tauto
    constructor
    · intro hone r' hr' hproject hmanager huserActive hexpired hextended
      obtain rfl := Except.ok.inj (hget.symm.trans hr')
      have hpairScope : pair.1 = ⟨.project, pair.1.objectId⟩ := by
        rw [← hproject]
      have hcounted := (hafter pair.1.objectId).mpr ⟨⟨hpairScope, hmanager, huserActive⟩, hextended⟩
      have hnot : (managerRow site s.now pair.1.objectId r && s.userActive r.user) = false := by
        rw [← Bool.not_eq_true, hbefore, hexpired]
        intro hand
        cases hand.2
      have hmoved := hcount pair.1.objectId
      rw [hcounted, hnot, Bool.toNat_true, Bool.toNat_false] at hmoved
      have hle := hone pair.1.objectId
      unfold Membership.managers countActiveProjectManagers at hle ⊢
      dsimp only at hle
      omega
    · intro halone project
      have hmoved := hcount project
      have hone := h project
      unfold Membership.managers countActiveProjectManagers at hone ⊢
      dsimp only
      cases hnew : (managerRow site s.now project (r.setExpirationTime expirationTime) &&
          s.userActive (r.setExpirationTime expirationTime).user) with
      | false =>
        rw [hnew, Bool.toNat_false] at hmoved
        omega
      | true =>
        obtain ⟨⟨hproject, hmanager, huserActive⟩, hextended⟩ := (hafter project).mp hnew
        cases hold : (managerRow site s.now project r && s.userActive r.user) with
        | true =>
          rw [hnew, hold] at hmoved
          omega
        | false =>
          have hexpired : unexpired s.now r.expirationTime = false := by
            rw [← Bool.not_eq_true]
            intro hunexpired
            rw [(hbefore project).mpr ⟨⟨hproject, hmanager, huserActive⟩, hunexpired⟩] at hold
            cases hold
          have hzero := halone r hget (by rw [hproject]) hmanager huserActive hexpired hextended
          rw [hproject] at hzero
          unfold Membership.managers countActiveProjectManagers at hzero
          dsimp only at hzero
          rw [hnew, hold, Bool.toNat_true, Bool.toNat_false] at hmoved
          omega

/-- The managers where one user has a status: those of the others, and the user's own if active. -/
theorem count_update_userActive (active : Bool) (project : ℕ) :
    s.rows.count (fun r => managerRow site s.now project r && Function.update s.userActive user active r.user) =
      s.rows.count (fun r => (managerRow site s.now project r && s.userActive r.user) && !(r.user == user)) +
        if active = true then s.rows.count (fun r => managerRow site s.now project r && r.user == user) else 0 := by
  unfold Table.count
  induction s.rows.rows with
  | nil => simp
  | cons r l ih =>
    rw [List.countP_cons, List.countP_cons, List.countP_cons, ih]
    by_cases huser : r.user = user
    · rw [huser, Function.update_self]
      cases active with
      | false => simp
      | true =>
        simp
        omega
    · rw [Function.update_of_ne huser]
      simp [huser]
      omega

/-- A change of a user's status keeps the bound exactly where the user's roles return alone. -/
theorem setActive_iff {active : Bool} (h : OneManager site s) :
    OneManager site (stepMembership site exempt s (.setActive user active)) ↔
      ReturnsAlone site s (.setActive user active) := by
  have hafter : ∀ project, (stepMembership site exempt s (.setActive user active)).managers site project =
      s.rows.count (fun r => (managerRow site s.now project r && s.userActive r.user) && !(r.user == user)) +
        if active = true then s.rows.count (fun r => managerRow site s.now project r && r.user == user) else 0 := by
    intro project
    rw [← count_update_userActive]
    rfl
  have hbefore : ∀ project, s.managers site project =
      s.rows.count (fun r => (managerRow site s.now project r && s.userActive r.user) && !(r.user == user)) +
        if s.userActive user = true then s.rows.count (fun r => managerRow site s.now project r && r.user == user)
        else 0 := by
    intro project
    rw [← count_update_userActive, Function.update_eq_self]
    rfl
  constructor
  · intro hone hactive hinactive r hr huser hmanager
    have hle := hone r.scope.objectId
    rw [hafter, hactive, if_pos rfl] at hle
    rw [hbefore, hinactive, if_neg Bool.false_ne_true, Nat.add_zero]
    exact hle
  · intro halone project
    rw [hafter]
    have hone := h project
    rw [hbefore] at hone
    cases hactive : active with
    | false =>
      rw [if_neg Bool.false_ne_true]
      omega
    | true =>
      rw [if_pos rfl]
      cases hwas : s.userActive user with
      | true =>
        rw [hwas, if_pos rfl] at hone
        exact hone
      | false =>
        by_cases hrow : ∃ r ∈ s.rows.rows, managerRow site s.now project r = true ∧ r.user = user
        · obtain ⟨r, hr, hmanager, huser⟩ := hrow
          have hscope : r.scope = ⟨.project, project⟩ := (managerRow_iff.mp hmanager).2.1
          have hproject : r.scope.objectId = project := congrArg Scope.objectId hscope
          have hle := halone hactive hwas r hr huser (hproject.symm ▸ hmanager)
          rw [hproject, hbefore, hwas, if_neg Bool.false_ne_true, Nat.add_zero] at hle
          exact hle
        · have hzero : s.rows.count (fun r => managerRow site s.now project r && r.user == user) = 0 := by
            unfold Table.count
            rw [List.countP_eq_zero]
            intro r hr hand
            obtain ⟨hmanager, huser⟩ := Bool.and_eq_true_iff.mp hand
            exact hrow ⟨r, hr, hmanager, beq_iff_eq.mp huser⟩
          rw [hzero]
          omega

/-! ## Runs -/

theorem oneManager_iff (hsetting : site.onlyOneProjectManager = true) (op : MembershipOp) (h : OneManager site s) :
    OneManager site (stepMembership site exempt s op) ↔ ReturnsAlone site s op := by
  cases op with
  | grant user pair expirationTime => exact iff_of_true (oneManager_grant hsetting h) trivial
  | updateUser user pair expirationTime => exact update_iff h
  | deleteUser user pair => exact iff_of_true (oneManager_deleteUser h) trivial
  | checkExpiredPermissions => exact iff_of_true (oneManager_checkExpired h) trivial
  | wait d => exact iff_of_true (oneManager_wait d h) trivial
  | setActive user active => exact setActive_iff h

/-- **One manager**: with the setting on, no project has two managers at any time of a run exactly where every manager
that is brought back into the count returns alone. -/
theorem oneManager_along_iff (site : Site) (exempt : UserRole → Bool) (s : Membership) (ops : List MembershipOp)
    (hsetting : site.onlyOneProjectManager = true) (h : OneManager site s) :
    Along (stepMembership site exempt) (fun s op => OneManager site (stepMembership site exempt s op)) s ops ↔
      Along (stepMembership site exempt) (ReturnsAlone site) s ops := by
  have hstep : ∀ s op, OneManager site s →
      (OneManager site (stepMembership site exempt s op) ↔ ReturnsAlone site s op) :=
    fun _ op hs => oneManager_iff hsetting op hs
  exact @along_congr _ _ (stepMembership site exempt) (OneManager site)
    (fun s op => OneManager site (stepMembership site exempt s op)) (ReturnsAlone site) hstep
    (fun _ _ _ hkeeps => hkeeps) ops s h

/-- The managers' role 1 and its clone 2, under the setting. -/
def managersSite : Site where
  roles := ⟨[⟨1, "PROJECT.MANAGER", none, .project, true⟩, ⟨2, "PROJECT.a.MANAGER", some 1, .project, true⟩], by decide⟩
  policy := ⟨fun scope => [scope], [], []⟩
  onlyOneProjectManager := true

/-- No grants yet. -/
def noMembers : Membership := ⟨Table.empty, fun _ => true, 0⟩

theorem oneManager_noMembers : OneManager managersSite noMembers := fun _ => Nat.zero_le 1

/-- A manager for a time, a second one after it, and the first one again after the second has gone. -/
def handover : List MembershipOp :=
  [.grant 1 (⟨.project, 1⟩, 1) (some 10), .wait 20, .grant 2 (⟨.project, 1⟩, 2) none,
    .updateUser 1 (⟨.project, 1⟩, 1) (some 15), .deleteUser 2 (⟨.project, 1⟩, 2),
    .updateUser 1 (⟨.project, 1⟩, 1) none]

theorem handover_oneManager : Along (stepMembership managersSite fun _ => false)
    (fun s op => OneManager managersSite (stepMembership managersSite (fun _ => false) s op)) noMembers handover := by
  refine (oneManager_along_iff managersSite (fun _ => false) noMembers handover rfl oneManager_noMembers).mpr ?_
  refine ⟨trivial, trivial, trivial, ?_, trivial, ?_, trivial⟩
  · intro r _ _ _ _ _ hextended
    exact absurd hextended (by decide)
  · intro r _ _ _ _ _ _
    decide

/-- The first manager's time is extended while the second one is there. -/
theorem extension_second_manager : ¬ ∀ ops : List MembershipOp, Along (stepMembership managersSite fun _ => false)
    (fun s op => OneManager managersSite (stepMembership managersSite (fun _ => false) s op)) noMembers ops := by
  intro h
  have hlast := h (handover.take 3 ++ [.updateUser 1 (⟨.project, 1⟩, 1) (some 30)])
  have htwo := hlast.2.2.2.1 1
  revert htwo
  decide

end Waldur.Permissions
