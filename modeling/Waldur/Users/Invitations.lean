import Mathlib
import Waldur.Lib.Clock
import Waldur.Lib.Runs

/-!
# Users.Invitations — an invitation from its creation to its end

Where only staff may invite, the invitation of somebody else waits for a member of the staff.  The invitation to a
project that starts later waits for the project in its place, and becomes pending with the start; and one that was
cancelled with its project can be sent again once the project is recovered.  So access is given only with the staff's
word exactly if the scope is no project, or does not start later and is not deleted (`gate_iff`).  An invitation gives
access once at most (`accepted_once`).
-/

namespace Waldur.Users

open Runs Clock

/-! ## The code -/

/-- `InvitationState`. -/
inductive InvitationState
  | pendingProject
  | requested
  | rejected
  | pending
  | accepted
  | canceled
  | expired
deriving DecidableEq

/-- The project of an invitation; its start is a day. -/
structure Project where
  startDate : Option ℤ
  isRemoved : Bool := false
deriving DecidableEq

/-- An `Invitation`, whose scope is a project or another one.  `vouched` records that a member of the staff made it,
approved it or sent it again, `grants` counts the roles it gave. -/
structure Invitation where
  state : InvitationState
  created : ℤ
  project : Option Project
  vouched : Bool
  grants : ℕ := 0
deriving DecidableEq

namespace Invitation

variable (invitation : Invitation)

/-- The start of the project is after the day of `now`. -/
def startsLater (project : Option Project) (now : ℤ) : Bool :=
  project.any fun project => project.startDate.any fun date => decide (day now < date)

/-- `scope.is_removed`. -/
def isRemoved : Bool := invitation.project.any Project.isRemoved

/-- `get_expiration_base_datetime`. -/
def expirationBase : ℤ :=
  match invitation.project.bind Project.startDate with
  | none => invitation.created
  | some date => if day invitation.created < date then date * dayLength else invitation.created

/-- `get_expiration_time`. -/
def expirationTime (lifetime : ℤ) : ℤ := invitation.expirationBase + lifetime

end Invitation

/-- `perform_create`, by a member of the staff or by somebody else, for a scope that is no project or one with the given
start. -/
def createInvitation (onlyStaff staff : Bool) (scope : Option (Option ℤ)) (now : ℤ) : Invitation where
  state :=
    if Invitation.startsLater (scope.map fun date => { startDate := date }) now then .pendingProject
    else if onlyStaff && !staff then .requested
    else .pending
  created := now
  project := scope.map fun date => { startDate := date }
  vouched := staff

/-- The actions on an invitation, the periodic tasks, and what happens to its project.  An acceptance is one whose
checks of the user and of the role pass; a start can be set to any day, as the board of the portal does. -/
inductive InvitationOp
  | approve
  | reject
  | send (staff : Bool) (now : ℤ)
  | cancel
  | accept
  | cancelExpired (now : ℤ)
  | processPending (now : ℤ)
  | setStartDate (date : Option ℤ)
  | deleteProject
  | recoverProject
deriving DecidableEq

/-- One action; what is refused changes nothing. -/
def step (lifetime : ℤ) (invitation : Invitation) : InvitationOp → Invitation
  | .approve =>
    if invitation.state = .requested then { invitation with state := .pending, vouched := true } else invitation
  | .reject => if invitation.state = .requested then { invitation with state := .rejected } else invitation
  | .send staff now =>
    if invitation.isRemoved = false ∧ invitation.state ∈ [.pending, .expired, .canceled] then
      if Invitation.startsLater invitation.project now then
        { invitation with state := .pendingProject, created := now, vouched := invitation.vouched || staff }
      else if invitation.state = .pending then { invitation with vouched := invitation.vouched || staff }
      else { invitation with state := .pending, created := now, vouched := invitation.vouched || staff }
    else invitation
  | .cancel =>
    if invitation.isRemoved = false ∧ invitation.state ∈ [.pending, .pendingProject] then
      { invitation with state := .canceled }
    else invitation
  | .accept =>
    if invitation.state = .pending then { invitation with state := .accepted, grants := invitation.grants + 1 }
    else invitation
  | .cancelExpired now =>
    if invitation.state ∈ [.pending, .pendingProject] ∧ invitation.expirationTime lifetime ≤ now then
      { invitation with state := .expired }
    else invitation
  | .processPending now =>
    if invitation.state = .pendingProject ∧
        (invitation.project.any fun project => project.startDate.any fun date => decide (date ≤ day now)) then
      { invitation with state := .pending }
    else invitation
  | .setStartDate date =>
    let project := invitation.project.map fun project => { project with startDate := date }
    if invitation.state = .pendingProject ∧ date = none ∧ project ≠ invitation.project then
      { invitation with project := project, state := .pending }
    else { invitation with project := project }
  | .deleteProject =>
    if invitation.project.isSome ∧ invitation.isRemoved = false then
      { invitation with
        project := invitation.project.map fun project => { project with isRemoved := true }
        state := if invitation.state ∈ [.pending, .pendingProject, .requested] then .canceled else invitation.state }
    else invitation
  | .recoverProject =>
    { invitation with project := invitation.project.map fun project => { project with isRemoved := false } }

/-! ## At most once -/

section Once

variable {lifetime : ℤ} {invitation : Invitation}

/-- What is accepted has given one role, and all else none. -/
def Counted (invitation : Invitation) : Prop :=
  invitation.grants = if invitation.state = .accepted then 1 else 0

/-- Nothing that counts has happened: no role was given, nothing was accepted, and what is rejected stays. -/
def Follows (before after : Invitation) : Prop :=
  after.grants = before.grants ∧ (after.state = .accepted ↔ before.state = .accepted) ∧
    (before.state = .rejected → after.state = .rejected)

theorem Follows.refl (invitation : Invitation) : Follows invitation invitation := ⟨rfl, Iff.rfl, id⟩

theorem Follows.of_open {before after : Invitation} (hgrants : after.grants = before.grants)
    (hbefore : before.state ≠ .accepted ∧ before.state ≠ .rejected) (hafter : after.state ≠ .accepted) :
    Follows before after :=
  ⟨hgrants, iff_of_false hafter hbefore.1, fun h => absurd h hbefore.2⟩

theorem open_of_mem {states : List InvitationState} (h : invitation.state ∈ states)
    (hstates : InvitationState.accepted ∉ states ∧ InvitationState.rejected ∉ states) :
    invitation.state ≠ .accepted ∧ invitation.state ≠ .rejected :=
  ⟨fun heq => hstates.1 (heq ▸ h), fun heq => hstates.2 (heq ▸ h)⟩

/-- An action other than an acceptance. -/
theorem follows_step (lifetime : ℤ) (invitation : Invitation) {op : InvitationOp} (hop : op ≠ .accept) :
    Follows invitation (step lifetime invitation op) := by
  cases op with
  | accept => exact absurd rfl hop
  | approve =>
    dsimp only [step]
    split
    · next h => exact Follows.of_open rfl (by simp [h]) (by simp)
    · exact Follows.refl invitation
  | reject =>
    dsimp only [step]
    split
    · next h => exact Follows.of_open rfl (by simp [h]) (by simp)
    · exact Follows.refl invitation
  | send staff now =>
    dsimp only [step]
    split
    · next h =>
      have hopen := open_of_mem h.2 (by decide)
      split
      · exact Follows.of_open rfl hopen (by simp)
      · split
        · exact Follows.refl invitation
        · exact Follows.of_open rfl hopen (by simp)
    · exact Follows.refl invitation
  | cancel =>
    dsimp only [step]
    split
    · next h => exact Follows.of_open rfl (open_of_mem h.2 (by decide)) (by simp)
    · exact Follows.refl invitation
  | cancelExpired now =>
    dsimp only [step]
    split
    · next h => exact Follows.of_open rfl (open_of_mem h.1 (by decide)) (by simp)
    · exact Follows.refl invitation
  | processPending now =>
    dsimp only [step]
    split
    · next h => exact Follows.of_open rfl (by simp [h.1]) (by simp)
    · exact Follows.refl invitation
  | setStartDate date =>
    dsimp only [step]
    split
    · next h => exact Follows.of_open rfl (by simp [h.1]) (by simp)
    · exact Follows.refl invitation
  | deleteProject =>
    dsimp only [step]
    split
    · split
      · next h => exact Follows.of_open rfl (open_of_mem h (by decide)) (by simp)
      · exact Follows.refl invitation
    · exact Follows.refl invitation
  | recoverProject => exact Follows.refl invitation

theorem Counted.step (h : Counted invitation) (op : InvitationOp) : Counted (step lifetime invitation op) := by
  by_cases hop : op = .accept
  · subst hop
    dsimp only [Users.step]
    split
    · next hpending =>
      unfold Counted at h ⊢
      rw [h, hpending]
      rfl
    · exact h
  · obtain ⟨hgrants, haccepted, -⟩ := follows_step lifetime invitation hop
    unfold Counted at h ⊢
    rw [hgrants, h]
    simp only [haccepted]

/-- What is accepted or rejected stays so. -/
theorem settled_step (lifetime : ℤ) (h : invitation.state = .accepted ∨ invitation.state = .rejected)
    (op : InvitationOp) :
    (step lifetime invitation op).state = invitation.state := by
  by_cases hop : op = .accept
  · subst hop
    exact congrArg Invitation.state (if_neg (by rcases h with h | h <;> simp [h]))
  · obtain ⟨-, haccepted, hrejected⟩ := follows_step lifetime invitation hop
    rcases h with h | h
    · rw [h, haccepted.mpr h]
    · rw [h, hrejected h]

theorem settled_run (h : invitation.state = .accepted ∨ invitation.state = .rejected) (ops : List InvitationOp) :
    (run (step lifetime) invitation ops).state = invitation.state := by
  induction ops generalizing invitation with
  | nil => rfl
  | cons op ops ih =>
    have hstep := settled_step lifetime h op
    rw [run_cons, ih (hstep.symm ▸ h), hstep]

/-- **An invitation gives access once at most**, and one that was accepted or rejected stays so. -/
theorem accepted_once (onlyStaff staff : Bool) (scope : Option (Option ℤ)) (lifetime now : ℤ)
    (ops ops' : List InvitationOp) :
    (run (step lifetime) (createInvitation onlyStaff staff scope now) (ops ++ ops')).grants ≤ 1 ∧
      ∀ state ∈ [InvitationState.accepted, .rejected],
        (run (step lifetime) (createInvitation onlyStaff staff scope now) ops).state = state →
          (run (step lifetime) (createInvitation onlyStaff staff scope now) (ops ++ ops')).state = state := by
  have hstart : Counted (createInvitation onlyStaff staff scope now) := by
    unfold Counted createInvitation
    dsimp only
    split
    · rfl
    · split <;> rfl
  have hcounted : Counted (run (step lifetime) (createInvitation onlyStaff staff scope now) (ops ++ ops')) :=
    run_invariant (fun _ op h => h.step op) _ _ hstart
  constructor
  · unfold Counted at hcounted
    rw [hcounted]
    split <;> simp
  · intro state hstate h
    rw [run_append, settled_run, h]
    rw [h]
    simpa using hstate

end Once

/-! ## The word of the staff -/

section Gate

variable {lifetime : ℤ} {invitation : Invitation}

/-- An acceptance has the word of the staff. -/
def Vouched (invitation : Invitation) (op : InvitationOp) : Prop :=
  op = .accept → invitation.state = .pending → invitation.vouched = true

/-- No member of the staff has given a word, and the invitation waits for one or was rejected. -/
def Waiting (invitation : Invitation) : Prop :=
  invitation.vouched = true ∨ invitation.state = .requested ∨ invitation.state = .rejected

/-- A word that was given stays. -/
theorem vouched_step (h : invitation.vouched = true) (op : InvitationOp) :
    (step lifetime invitation op).vouched = true := by
  cases op with
  | send staff now =>
    dsimp only [step]
    split
    · split
      · rw [h, Bool.true_or]
      · split
        · rw [h, Bool.true_or]
        · rw [h, Bool.true_or]
    · exact h
  | recoverProject => exact h
  | approve | reject | cancel | accept | cancelExpired now | processPending now | setStartDate date | deleteProject =>
    dsimp only [step]
    split
    · first | exact h | rfl
    · exact h

/-- Only the staff, or the end of its project, moves an invitation that waits for the staff. -/
theorem Waiting.step (h : Waiting invitation) {op : InvitationOp}
    (hop : op ≠ .deleteProject ∨ invitation.project = none) : Waiting (step lifetime invitation op) := by
  rcases h with hvouched | hstate
  · exact Or.inl (vouched_step hvouched op)
  have hactive : invitation.state ≠ .pending ∧ invitation.state ≠ .pendingProject ∧ invitation.state ≠ .expired ∧
      invitation.state ≠ .canceled := by
    rcases hstate with h | h <;> simp [h]
  cases op with
  | approve =>
    dsimp only [Users.step]
    split
    · exact Or.inl rfl
    · exact Or.inr hstate
  | reject =>
    dsimp only [Users.step]
    split
    · exact Or.inr (Or.inr rfl)
    · exact Or.inr hstate
  | send staff now =>
    dsimp only [Users.step]
    rw [if_neg (by simp [hactive])]
    exact Or.inr hstate
  | cancel =>
    dsimp only [Users.step]
    rw [if_neg (by simp [hactive])]
    exact Or.inr hstate
  | accept =>
    dsimp only [Users.step]
    rw [if_neg hactive.1]
    exact Or.inr hstate
  | cancelExpired now =>
    dsimp only [Users.step]
    rw [if_neg (by simp [hactive])]
    exact Or.inr hstate
  | processPending now =>
    dsimp only [Users.step]
    rw [if_neg (by simp [hactive])]
    exact Or.inr hstate
  | setStartDate date =>
    dsimp only [Users.step]
    rw [if_neg (by simp [hactive])]
    exact Or.inr hstate
  | deleteProject =>
    have hnone := hop.resolve_left fun h => h rfl
    dsimp only [Users.step]
    rw [if_neg (by simp [hnone])]
    exact Or.inr hstate
  | recoverProject => exact Or.inr hstate

/-- An invitation whose scope is no project stays so. -/
theorem project_step (h : invitation.project = none) (op : InvitationOp) :
    (step lifetime invitation op).project = none := by
  cases op with
  | send staff now =>
    dsimp only [step]
    split
    · split
      · exact h
      · split
        · exact h
        · exact h
    · exact h
  | setStartDate date =>
    dsimp only [step]
    rw [h]
    split
    · rfl
    · rfl
  | deleteProject =>
    dsimp only [step]
    rw [if_neg (by simp [h])]
    exact h
  | recoverProject =>
    dsimp only [step]
    rw [h]
    rfl
  | approve | reject | cancel | accept | cancelExpired now | processPending now =>
    dsimp only [step]
    split
    · exact h
    · exact h

theorem vouched_of_waiting (h : Waiting invitation) (op : InvitationOp) : Vouched invitation op := by
  rintro - hpending
  rcases h with h | h | h
  · exact h
  · rw [h] at hpending
    exact absurd hpending nofun
  · rw [h] at hpending
    exact absurd hpending nofun

/-- An invitation that waits keeps its gate. -/
theorem along_vouched : ∀ (ops : List InvitationOp) {invitation : Invitation}, Waiting invitation →
    (InvitationOp.deleteProject ∉ ops ∨ invitation.project = none) → Along (step lifetime) Vouched invitation ops
  | [], _, _, _ => trivial
  | op :: ops, invitation, h, hops => by
    refine ⟨vouched_of_waiting h op, along_vouched ops (h.step ?_) ?_⟩
    · exact hops.imp_left fun hmem heq => hmem (heq ▸ List.mem_cons_self)
    · exact hops.imp (fun hmem htail => hmem (List.mem_cons_of_mem _ htail)) fun hnone => project_step hnone op

/-- **Where only staff may invite**, access needs the word of the staff in every run exactly if the scope is no project,
and in every run in which the project is not deleted exactly if the project does not start later. -/
theorem gate_iff (scope : Option (Option ℤ)) (lifetime now : ℤ) :
    ((∀ ops, Along (step lifetime) Vouched (createInvitation true false scope now) ops) ↔ scope = none) ∧
      ((∀ ops, InvitationOp.deleteProject ∉ ops →
          Along (step lifetime) Vouched (createInvitation true false scope now) ops) ↔
        Invitation.startsLater (scope.map fun date => { startDate := date }) now = false) := by
  have hwaiting (hlater : Invitation.startsLater (scope.map fun date => { startDate := date }) now = false) :
      Waiting (createInvitation true false scope now) := by
    refine Or.inr (Or.inl ?_)
    unfold createInvitation
    dsimp only
    rw [hlater]
    rfl
  have hbypass (hlater : Invitation.startsLater (scope.map fun date => { startDate := date }) now = true) :
      ¬ Along (step lifetime) Vouched (createInvitation true false scope now) [.setStartDate none, .accept] := by
    cases scope with
    | none => exact absurd hlater nofun
    | some date =>
      have hcreated : createInvitation true false (some date) now =
          ⟨.pendingProject, now, some { startDate := date }, false, 0⟩ := by
        unfold createInvitation
        rw [if_pos hlater]
        rfl
      have hdate : some { startDate := none } ≠ some ({ startDate := date } : Project) := by
        rintro heq
        obtain rfl := congrArg Project.startDate (Option.some.inj heq)
        exact absurd hlater nofun
      have hset : step lifetime ⟨.pendingProject, now, some { startDate := date }, false, 0⟩ (.setStartDate none) =
          ⟨.pending, now, some { startDate := none }, false, 0⟩ := if_pos ⟨rfl, rfl, hdate⟩
      rw [hcreated, along_cons, hset, along_cons]
      exact fun h => absurd (h.2.1 rfl rfl) Bool.false_ne_true
  have hdeleted (date : Option ℤ) (hscope : scope = some date)
      (hlater : Invitation.startsLater (scope.map fun date => { startDate := date }) now = false) :
      ¬ Along (step lifetime) Vouched (createInvitation true false scope now)
        [.deleteProject, .recoverProject, .send false now, .accept] := by
    subst hscope
    rw [Option.map_some] at hlater
    have hcreated : createInvitation true false (some date) now =
        ⟨.requested, now, some { startDate := date }, false, 0⟩ := by
      unfold createInvitation
      rw [Option.map_some, hlater]
      rfl
    have hsend : step lifetime ⟨.canceled, now, some { startDate := date }, false, 0⟩ (.send false now) =
        ⟨.pending, now, some { startDate := date }, false, 0⟩ := by
      dsimp only [step]
      rw [if_pos ⟨rfl, by simp⟩, if_neg (Bool.eq_false_iff.mp hlater)]
      rfl
    rw [hcreated]
    intro h
    have hrest := h.2.2
    change Along (step lifetime) Vouched ⟨.canceled, now, some { startDate := date }, false, 0⟩
      [.send false now, .accept] at hrest
    rw [along_cons, hsend] at hrest
    exact absurd (hrest.2.1 rfl rfl) Bool.false_ne_true
  constructor
  · constructor
    · intro hall
      cases hscope : scope with
      | none => rfl
      | some date =>
        cases hlater : Invitation.startsLater (scope.map fun date => { startDate := date }) now with
        | true => exact absurd (hall _) (hbypass hlater)
        | false => exact absurd (hall _) (hdeleted date hscope hlater)
    · rintro rfl ops
      exact along_vouched ops (hwaiting rfl) (Or.inr rfl)
  · constructor
    · intro hall
      by_contra hlater
      exact hbypass (Bool.not_eq_false _ ▸ hlater) (hall _ (by simp))
    · intro hlater ops hops
      exact along_vouched ops (hwaiting hlater) (Or.inl hops)

end Gate

end Waldur.Users
