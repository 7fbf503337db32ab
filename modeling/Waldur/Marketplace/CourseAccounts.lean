import Mathlib
import Waldur.Lib.Runs

/-!
# Marketplace.CourseAccounts — accounts of a course at an external backend

A row of Waldur stands for an account at a backend, and tasks create and close that account.  A task reads the row,
talks to the backend and writes the row, while requests and other tasks go on, and a project that is deleted for good
takes the row with it.  Every open account is to be known to its row, to the task that has just asked for it or, when
the row is gone, to a task that is to close it; and a closed row is to leave none open.  Just which steps break that
is `safe_iff`.
-/

namespace Waldur.Marketplace.CourseAccounts

open Runs

/-! ## The code -/

/-- `CourseAccountState`. -/
inductive CourseAccountState
  | ok
  | closed
  | erred
  | pending
deriving DecidableEq

/-- A `CourseAccount`; its user has the name of the account at the backend. -/
structure CourseAccount where
  state : CourseAccountState
  user : Option ℕ
deriving DecidableEq

/-- A `create_course_account_task`: sent, waiting for the backend with the state that it read, or answered. -/
inductive CreateTask
  | sent
  | running (read : CourseAccountState)
  | answered (read : CourseAccountState) (username : ℕ)
deriving DecidableEq

/-- A `close_course_account_task`, or an entry of a `close_course_accounts_task` with the username of its payload; then
with the row that was read, or with the username where there was no row. -/
inductive CloseTask
  | sent
  | batched (username : Option ℕ)
  | running (read : CourseAccount)
  | byUsername (username : ℕ)
deriving DecidableEq

/-- The row, the accounts that are open at the backend, the next name, and the tasks. -/
structure System where
  row : Option CourseAccount
  openAccounts : List ℕ
  next : ℕ
  creates : List CreateTask
  closes : List CloseTask
deriving DecidableEq

/-- `create_bulk`, of one account. -/
def createBulk : System := ⟨some ⟨.pending, none⟩, [], 0, [.sent], []⟩

/-- `perform_create`, which waits for the backend. -/
def performCreate : System := ⟨some ⟨.ok, some 0⟩, [0], 1, [], []⟩

/-- What the backend says to a close task, or that nothing came back, of a request that it carried out or not. -/
inductive Answer
  | closed
  | notFound
  | failed
  | lost
deriving DecidableEq

/-- Requests, and the steps of the tasks. -/
inductive Op
  | destroy
  | retry
  | deleteProject (hard : Bool)
  | createRead (i : ℕ)
  | createAnswered (i : ℕ)
  | createFailed (i : ℕ)
  | createLost (i : ℕ)
  | createWritten (i : ℕ)
  | closeRead (i : ℕ)
  | closeWritten (i : ℕ) (answer : Answer)
  | closeDropped (i : ℕ)
deriving DecidableEq

/-- A state is saved, where the row is still there. -/
def System.setState (s : System) (state : CourseAccountState) : System :=
  { s with row := s.row.map fun row => { row with state := state } }

def System.closeAccount (s : System) (username : ℕ) : System :=
  { s with openAccounts := s.openAccounts.filter (· ≠ username) }

/-- `close_course_account`, of a row that was read as `read`. -/
def closeCourseAccount (s : System) (read : CourseAccount) (answer : Answer) : System :=
  if read.state = .closed then s
  else
    match read.user with
    | none => s.setState .closed
    | some username =>
      match answer with
      | .closed => (s.closeAccount username).setState .closed
      | .notFound => if username ∈ s.openAccounts then s else s.setState .closed
      | .failed => s.setState .erred
      | .lost => (s.closeAccount username).setState .erred

/-- `close_course_account_by_username`. -/
def closeCourseAccountByUsername (s : System) (username : ℕ) : Answer → System
  | .closed => s.closeAccount username
  | .lost => s.closeAccount username
  | _ => s

def step (s : System) : Op → System
  | .destroy =>
    match s.row with
    | some row =>
      if row.state = .ok ∨ row.state = .erred then { s.setState .pending with closes := s.closes ++ [.sent] } else s
    | none => s
  | .retry =>
    match s.row with
    -- an account that failed to close is closed again, and not created a second time
    | some ⟨.erred, some _⟩ => { s.setState .pending with closes := s.closes ++ [.sent] }
    | some ⟨.erred, none⟩ => { s.setState .pending with creates := s.creates ++ [.sent] }
    | _ => s
  | .deleteProject hard =>
    match s.row with
    | some row => { s with row := if hard then none else some row, closes := s.closes ++ [.batched row.user] }
    | none => s
  | .createRead i =>
    if s.creates[i]? = some .sent then
      match s.row with
      | some row => { s with creates := s.creates.set i (.running row.state) }
      | none => { s with creates := s.creates.eraseIdx i }
    else s
  | .createAnswered i =>
    match s.creates[i]? with
    | some (.running read) =>
      { s with
        openAccounts := s.next :: s.openAccounts
        next := s.next + 1
        creates := s.creates.set i (.answered read s.next) }
    | _ => s
  | .createFailed i =>
    match s.creates[i]? with
    | some (.running _) => { s.setState .erred with creates := s.creates.eraseIdx i }
    | _ => s
  | .createLost i =>
    match s.creates[i]? with
    | some (.running _) =>
      { s.setState .erred with
        openAccounts := s.next :: s.openAccounts
        next := s.next + 1
        creates := s.creates.eraseIdx i }
    | _ => s
  | .createWritten i =>
    match s.creates[i]? with
    | some (.answered read username) =>
      if read = .erred ∨ read = .pending then
        { s with row := s.row.map fun _ => ⟨.ok, some username⟩, creates := s.creates.eraseIdx i }
      else { s.setState .erred with creates := s.creates.eraseIdx i }
    | _ => s
  | .closeRead i =>
    match s.closes[i]?, s.row with
    | some .sent, some row => { s with closes := s.closes.set i (.running row) }
    | some .sent, none => { s with closes := s.closes.eraseIdx i }
    | some (.batched _), some row => { s with closes := s.closes.set i (.running row) }
    | some (.batched (some username)), none => { s with closes := s.closes.set i (.byUsername username) }
    | some (.batched none), none => { s with closes := s.closes.eraseIdx i }
    | _, _ => s
  | .closeWritten i answer =>
    match s.closes[i]? with
    | some (.running read) => closeCourseAccount { s with closes := s.closes.eraseIdx i } read answer
    | some (.byUsername username) =>
      closeCourseAccountByUsername { s with closes := s.closes.eraseIdx i } username answer
    | _ => s
  -- the token of the backend was not given, or the worker was lost
  | .closeDropped i => { s with closes := s.closes.eraseIdx i }

/-! ## No account is left open -/

/-- The task has the name of the account. -/
def CreateTask.holds (n : ℕ) : CreateTask → Prop
  | .answered _ username => username = n
  | _ => False

/-- The task is to close the account. -/
def CloseTask.closes (n : ℕ) : CloseTask → Prop
  | .sent => False
  | .batched username => username = some n
  | .running read => read.state ≠ .closed ∧ read.user = some n
  | .byUsername username => username = n

/-- The task has been read, so that the backend may answer it. -/
def CloseTask.started : CloseTask → Bool
  | .running _ => true
  | .byUsername _ => true
  | _ => false

/-- Something in Waldur will see to the account. -/
def Known (s : System) (n : ℕ) : Prop :=
  match s.row with
  | some row => row.user = some n ∨ ∃ task ∈ s.creates, task.holds n
  | none => ∃ task ∈ s.closes, task.closes n

/-- Every open account is known, and none is open when the row is closed. -/
structure Safe (s : System) : Prop where
  known : ∀ n ∈ s.openAccounts, Known s n
  closed : ∀ row, s.row = some row → row.state = .closed → s.openAccounts = []

/-- The row is gone, and no other task is to close an open account that this one is to close. -/
def OnlyCloser (s : System) (i : ℕ) : Prop :=
  s.row = none ∧ ∃ task n, s.closes[i]? = some task ∧ task.closes n ∧ n ∈ s.openAccounts ∧
    ∀ other ∈ s.closes.eraseIdx i, ¬ other.closes n

/-- No row goes while its account was named to a task only; no answer of a creation is lost, or comes to a row that is
closed or gone; a close task that found no account ends while none is open; and when the row is gone, the last task that
is to close an open account closes it. -/
def Calm (s : System) : Op → Prop
  | .deleteProject hard => hard = true → s.row ≠ none → ∀ n ∈ s.openAccounts, ∀ task ∈ s.creates, ¬ task.holds n
  | .createAnswered i => ∀ read, s.creates[i]? = some (.running read) → ∃ row, s.row = some row ∧ row.state ≠ .closed
  | .createLost i => ∀ read, s.creates[i]? ≠ some (.running read)
  | .closeWritten i answer =>
    (∀ read, s.closes[i]? = some (.running read) → read.state ≠ .closed → read.user = none → s.row ≠ none →
      s.openAccounts = []) ∧
    (∀ task, s.closes[i]? = some task → task.started = true → answer ≠ .closed → answer ≠ .lost → ¬ OnlyCloser s i)
  | .closeDropped i => ¬ OnlyCloser s i
  | _ => True

/-- What holds while there is a row: one creation at a time, of a row without a user, and a task that is to close an
account has the user of the row. -/
structure Live (row : CourseAccount) (s : System) : Prop where
  known : ∀ n ∈ s.openAccounts, row.user = some n ∨ ∃ task ∈ s.creates, task.holds n
  closed : row.state = .closed → s.openAccounts = []
  one : s.creates.length ≤ 1
  creating : s.creates ≠ [] → row.user = none ∧ (row.state = .pending ∨ row.state = .closed)
  reading : ∀ read, CreateTask.running read ∈ s.creates → row.state = .pending → read = .pending
  answered : ∀ read username, CreateTask.answered read username ∈ s.creates → read = .pending ∧ username < s.next
  closing : ∀ task ∈ s.closes, ∀ n, task.closes n → row.user = some n
  named : ∀ n, row.user = some n → n < s.next

/-- What holds when the row is gone. -/
structure Gone (s : System) : Prop where
  known : ∀ n ∈ s.openAccounts, ∃ task ∈ s.closes, task.closes n
  single : ∀ m ∈ s.openAccounts, ∀ n ∈ s.openAccounts, m = n
  named : ∀ task ∈ s.closes, ∀ n, task.closes n → n < s.next

def Inv (s : System) : Prop :=
  match s.row with
  | some row => Live row s
  | none => Gone s

section

variable {s : System} {row : CourseAccount} {n m i : ℕ}

theorem CloseTask.closes_unique : ∀ {task : CloseTask}, task.closes m → task.closes n → m = n
  | .batched _, hm, hn => Option.some.inj (hm.symm.trans hn)
  | .running _, hm, hn => Option.some.inj (hm.2.symm.trans hn.2)
  | .byUsername _, hm, hn => hm.symm.trans hn

theorem inv_of_row (hrow : s.row = some row) (h : Live row s) : Inv s := by
  unfold Inv
  rw [hrow]
  exact h

theorem inv_of_none (hrow : s.row = none) (h : Gone s) : Inv s := by
  unfold Inv
  rw [hrow]
  exact h

theorem setState_row (hrow : s.row = some row) (state : CourseAccountState) :
    (s.setState state).row = some { row with state := state } := congrArg (Option.map _) hrow

/-! ### While there is a row -/

theorem known_of_row (hrow : s.row = some row) :
    Known s n ↔ row.user = some n ∨ ∃ task ∈ s.creates, task.holds n := by
  unfold Known
  rw [hrow]

theorem Known.of_row (h : Known s n) (hrow : s.row = some row) :
    row.user = some n ∨ ∃ task ∈ s.creates, task.holds n := (known_of_row hrow).mp h

theorem Live.safe (h : Live row s) (hrow : s.row = some row) : Safe s where
  known := fun n hn => (known_of_row hrow).mpr (h.known n hn)
  closed := by
    intro row' hrow'
    obtain rfl := Option.some.inj (hrow.symm.trans hrow')
    exact h.closed

theorem Live.eq_singleton (h : Live row s) {task : CreateTask} (hi : s.creates[i]? = some task) :
    s.creates = [task] ∧ i = 0 := by
  have hone := h.one
  match hcreates : s.creates with
  | [] =>
    rw [hcreates] at hi
    simp at hi
  | [only] =>
    rw [hcreates] at hi
    cases i with
    | zero => exact ⟨congrArg (fun task => [task]) (Option.some.inj hi), rfl⟩
    | succ i => simp at hi
  | _ :: _ :: _ =>
    rw [hcreates] at hone
    simp at hone

theorem Live.user_eq_none (h : Live row s) {task : CreateTask} (hi : s.creates[i]? = some task) : row.user = none :=
  (h.creating (List.ne_nil_of_mem (List.mem_of_getElem? hi))).1

theorem Live.creates_eq_nil (h : Live row s) (huser : row.user = some n) : s.creates = [] := by
  by_contra hne
  exact absurd ((h.creating hne).1.symm.trans huser) (Option.some_ne_none n).symm

theorem Live.creates_eq_nil_of_state (h : Live row s) (hstate : row.state ≠ .pending ∧ row.state ≠ .closed) :
    s.creates = [] := by
  by_contra hne
  exact (h.creating hne).2.elim hstate.1 hstate.2

/-- Where the row has a user, nothing else is open. -/
theorem Live.eq_of_user (h : Live row s) (huser : row.user = some n) (hm : m ∈ s.openAccounts) : m = n := by
  rcases h.known m hm with hknown | ⟨task, htask, -⟩
  · exact Option.some.inj (hknown.symm.trans huser)
  · rw [h.creates_eq_nil huser] at htask
    exact absurd htask List.not_mem_nil

/-- No two accounts are open. -/
theorem Live.single (h : Live row s) (hm : m ∈ s.openAccounts) (hn : n ∈ s.openAccounts) : m = n := by
  rcases h.known n hn with huser | ⟨task, htask, hholds⟩
  · exact h.eq_of_user huser hm
  · obtain ⟨i, hi⟩ := List.mem_iff_getElem?.mp htask
    obtain ⟨hcreates, -⟩ := h.eq_singleton hi
    rcases h.known m hm with huser | ⟨task', htask', hholds'⟩
    · exact (h.eq_of_user huser hn).symm
    · rw [hcreates] at htask'
      obtain rfl := List.mem_singleton.mp htask'
      cases task' with
      | answered read username => exact hholds'.symm.trans hholds
      | _ => exact hholds.elim

/-- Without a user, and without a task that was answered, nothing is open. -/
theorem Live.none_open (h : Live row s) (huser : row.user = none)
    (hcreates : ∀ task ∈ s.creates, ∀ n, ¬ task.holds n) : s.openAccounts = [] := by
  refine List.eq_nil_iff_forall_not_mem.mpr fun n hn => ?_
  rcases h.known n hn with hknown | ⟨task, htask, hholds⟩
  · exact absurd (huser.symm.trans hknown) (Option.some_ne_none n).symm
  · exact hcreates task htask n hholds

/-- While the task waits for the backend nothing is open. -/
theorem Live.none_open_of_waiting (h : Live row s) {task : CreateTask} (hi : s.creates[i]? = some task)
    (hholds : ∀ n, ¬ task.holds n) : s.openAccounts = [] := by
  obtain ⟨hcreates, -⟩ := h.eq_singleton hi
  refine h.none_open (h.user_eq_none hi) fun task' htask' => ?_
  rw [hcreates] at htask'
  obtain rfl := List.mem_singleton.mp htask'
  exact hholds

/-- The close tasks change, and nothing else. -/
theorem Live.setCloses (h : Live row s) {closes : List CloseTask}
    (hcloses : ∀ task ∈ closes, ∀ n, task.closes n → row.user = some n) : Live row { s with closes := closes } where
  known := h.known
  closed := h.closed
  one := h.one
  creating := h.creating
  reading := h.reading
  answered := h.answered
  closing := hcloses
  named := h.named

theorem Live.sendClose (h : Live row s) {task : CloseTask} (htask : ∀ n, task.closes n → row.user = some n) :
    Live row { s with closes := s.closes ++ [task] } := by
  refine h.setCloses fun task' hmem => ?_
  rcases List.mem_append.mp hmem with hmem | hmem
  · exact h.closing task' hmem
  · obtain rfl := List.mem_singleton.mp hmem
    exact htask

theorem Live.dropClose (h : Live row s) (i : ℕ) : Live row { s with closes := s.closes.eraseIdx i } :=
  h.setCloses fun task hmem => h.closing task (List.mem_of_mem_eraseIdx hmem)

/-- The row is written by a request or by a task that is not creating anything. -/
theorem Live.setState (h : Live row s) (hcreates : s.creates = []) {state : CourseAccountState}
    (hclosed : state = .closed → s.openAccounts = []) : Live { row with state := state } (s.setState state) where
  known := h.known
  closed := hclosed
  one := h.one
  creating := fun hne => absurd hcreates hne
  reading := fun _ hmem => absurd (hcreates ▸ hmem) List.not_mem_nil
  answered := h.answered
  closing := h.closing
  named := h.named

/-- An account is closed at the backend. -/
theorem Live.closeAccount (h : Live row s) (n : ℕ) : Live row (s.closeAccount n) where
  known := fun m hm => h.known m (List.mem_of_mem_filter hm)
  closed := by
    intro hclosed
    change s.openAccounts.filter _ = []
    rw [h.closed hclosed, List.filter_nil]
  one := h.one
  creating := h.creating
  reading := h.reading
  answered := h.answered
  closing := h.closing
  named := h.named

/-- The last creation ends, of an account that the row gets to know or that is not open. -/
theorem Live.endCreate (h : Live row s) (hi : s.creates[i]? ≠ none) {row' : CourseAccount} {r : Option CourseAccount}
    (hknown : ∀ n ∈ s.openAccounts, row'.user = some n) (hclosed : row'.state = .closed → s.openAccounts = [])
    (hnamed : ∀ n, row'.user = some n → n < s.next) :
    Live row' { s with row := r, creates := s.creates.eraseIdx i } := by
  obtain ⟨task, hi⟩ := Option.ne_none_iff_exists'.mp hi
  have huser := h.user_eq_none hi
  obtain ⟨hcreates, rfl⟩ := h.eq_singleton hi
  rw [hcreates]
  exact {
    known := fun n hn => Or.inl (hknown n hn)
    closed := hclosed
    one := Nat.zero_le 1
    creating := fun hne => absurd rfl hne
    reading := fun _ hmem => absurd hmem List.not_mem_nil
    answered := fun _ _ hmem => absurd hmem List.not_mem_nil
    closing := fun task htask n hcloses =>
      absurd (huser.symm.trans (h.closing task htask n hcloses)) (Option.some_ne_none n).symm
    named := hnamed }

end

section

variable {s : System} {row : CourseAccount} {i : ℕ}

theorem Live.destroy (h : Live row s) (hrow : s.row = some row) : Inv (step s .destroy) := by
  simp only [step, hrow]
  split
  · next hstate =>
    have hcreates := h.creates_eq_nil_of_state (by rcases hstate with hstate | hstate <;> simp [hstate])
    have hpending : Live { row with state := .pending } (s.setState .pending) := h.setState hcreates nofun
    exact inv_of_row (setState_row hrow .pending) (hpending.sendClose fun _ => False.elim)
  · exact inv_of_row hrow h

theorem Live.retry (h : Live row s) (hrow : s.row = some row) : Inv (step s .retry) := by
  match row, hrow with
  | ⟨.erred, some username⟩, hrow =>
    simp only [step, hrow]
    have hcreates := h.creates_eq_nil rfl
    have hpending : Live ⟨.pending, some username⟩ (s.setState .pending) := h.setState hcreates nofun
    exact inv_of_row (setState_row hrow .pending) (hpending.sendClose fun _ => False.elim)
  | ⟨.erred, none⟩, hrow =>
    simp only [step, hrow]
    have hcreates := h.creates_eq_nil_of_state ⟨nofun, nofun⟩
    have hopen := h.none_open rfl fun task htask => absurd (hcreates ▸ htask) List.not_mem_nil
    refine inv_of_row (setState_row hrow .pending) ?_
    exact {
      known := fun n hn => absurd (hopen ▸ hn) List.not_mem_nil
      closed := nofun
      one := by
        change (s.creates ++ [CreateTask.sent]).length ≤ 1
        rw [hcreates]
        exact Nat.le_refl 1
      creating := fun _ => ⟨rfl, Or.inl rfl⟩
      reading := by
        intro read hmem
        change _ ∈ s.creates ++ [.sent] at hmem
        rw [hcreates, List.nil_append, List.mem_singleton] at hmem
        exact absurd hmem nofun
      answered := by
        intro read username hmem
        change _ ∈ s.creates ++ [.sent] at hmem
        rw [hcreates, List.nil_append, List.mem_singleton] at hmem
        exact absurd hmem nofun
      closing := h.closing
      named := nofun }
  | ⟨.ok, user⟩, hrow => simpa only [step, hrow] using inv_of_row hrow h
  | ⟨.closed, user⟩, hrow => simpa only [step, hrow] using inv_of_row hrow h
  | ⟨.pending, user⟩, hrow => simpa only [step, hrow] using inv_of_row hrow h

/-- The task that is sent for the account of the row knows all that are open. -/
theorem Live.deleteProject (h : Live row s) (hrow : s.row = some row) {hard : Bool}
    (hcalm : Calm s (.deleteProject hard)) : Inv (step s (.deleteProject hard)) := by
  cases hard with
  | false =>
    have hsent : Inv { s with closes := s.closes ++ [.batched row.user] } := inv_of_row hrow (h.sendClose fun _ => id)
    simpa [step, hrow] using hsent
  | true =>
    simp only [step, hrow]
    have hheld := hcalm rfl (by rw [hrow]; exact Option.some_ne_none row)
    have hsent : Live row { s with closes := s.closes ++ [.batched row.user] } := h.sendClose fun _ => id
    refine inv_of_none rfl ⟨fun n hn => ⟨_, List.mem_append_right _ (List.mem_singleton_self _), ?_⟩, ?_, ?_⟩
    · exact (h.known n hn).resolve_right fun ⟨task, htask, hholds⟩ => hheld n hn task htask hholds
    · exact fun m hm n hn => h.single hm hn
    · exact fun task htask n hcloses => h.named n (hsent.closing task htask n hcloses)

theorem Live.createRead (h : Live row s) (hrow : s.row = some row) (i : ℕ) : Inv (step s (.createRead i)) := by
  simp only [step, hrow]
  split
  · next hi =>
    refine inv_of_row rfl ?_
    obtain ⟨hcreates, rfl⟩ := h.eq_singleton hi
    have hset : s.creates.set 0 (.running row.state) = [.running row.state] := by
      rw [hcreates]
      rfl
    rw [hset]
    exact {
      known := by
        intro n hn
        rcases h.known n hn with huser | ⟨task, htask, hholds⟩
        · exact Or.inl huser
        · rw [hcreates] at htask
          obtain rfl := List.mem_singleton.mp htask
          exact hholds.elim
      closed := h.closed
      one := Nat.le_refl 1
      creating := fun _ => h.creating (by rw [hcreates]; exact List.cons_ne_nil _ _)
      reading := by
        intro read hmem hpending
        obtain rfl := CreateTask.running.inj (List.mem_singleton.mp hmem)
        exact hpending
      answered := fun read username hmem => absurd (List.mem_singleton.mp hmem) nofun
      closing := h.closing
      named := h.named }
  · exact inv_of_row hrow h

theorem Live.createAnswered (h : Live row s) (hrow : s.row = some row) (hcalm : Calm s (.createAnswered i)) :
    Inv (step s (.createAnswered i)) := by
  change Inv (match s.creates[i]? with
    | some (.running read) => _
    | _ => s)
  split
  · next read hi =>
    have hclosed : row.state ≠ .closed := by
      obtain ⟨row', hrow', hclosed⟩ := hcalm read hi
      obtain rfl := Option.some.inj (hrow.symm.trans hrow')
      exact hclosed
    have hopen := h.none_open_of_waiting hi fun _ => not_false
    have hmem := List.mem_of_getElem? hi
    have hcreating := h.creating (List.ne_nil_of_mem hmem)
    have hpending : row.state = .pending := hcreating.2.resolve_right hclosed
    obtain ⟨hcreates, rfl⟩ := h.eq_singleton hi
    have hset : s.creates.set 0 (.answered read s.next) = [.answered read s.next] := by
      rw [hcreates]
      rfl
    rw [hset, hopen]
    refine inv_of_row hrow ?_
    exact {
      known := fun n hn => Or.inr ⟨_, List.mem_singleton_self _, (List.mem_singleton.mp hn).symm⟩
      closed := fun hstate => absurd hstate hclosed
      one := Nat.le_refl 1
      creating := fun _ => hcreating
      reading := fun read hrunning => absurd (List.mem_singleton.mp hrunning) nofun
      answered := by
        intro read' username hanswered
        obtain ⟨rfl, rfl⟩ := CreateTask.answered.inj (List.mem_singleton.mp hanswered)
        exact ⟨h.reading read' hmem hpending, Nat.lt_succ_self s.next⟩
      closing := h.closing
      named := fun n huser => absurd (hcreating.1.symm.trans huser) (Option.some_ne_none n).symm }
  · exact inv_of_row hrow h

theorem Live.createFailed (h : Live row s) (hrow : s.row = some row) (i : ℕ) : Inv (step s (.createFailed i)) := by
  change Inv (match s.creates[i]? with
    | some (.running _) => _
    | _ => s)
  split
  · next read hi =>
    have hopen := h.none_open_of_waiting hi fun _ => not_false
    refine inv_of_row (setState_row hrow .erred) ?_
    refine h.endCreate (by rw [hi]; exact Option.some_ne_none _) ?_ nofun h.named
    exact fun n hn => absurd (hopen ▸ hn) List.not_mem_nil
  · exact inv_of_row hrow h

theorem Live.createWritten (h : Live row s) (hrow : s.row = some row) (i : ℕ) : Inv (step s (.createWritten i)) := by
  change Inv (match s.creates[i]? with
    | some (.answered read username) => _
    | _ => s)
  split
  · next read username hi =>
    obtain ⟨hread, hnamed⟩ := h.answered read username (List.mem_of_getElem? hi)
    rw [if_pos (Or.inr hread)]
    refine inv_of_row (congrArg (Option.map _) hrow) ?_
    refine h.endCreate (by rw [hi]; exact Option.some_ne_none _) (fun n hn => ?_) nofun
      fun n huser => Option.some.inj huser ▸ hnamed
    rcases h.known n hn with hknown | ⟨task, htask, hholds⟩
    · exact absurd ((h.user_eq_none hi).symm.trans hknown) (Option.some_ne_none n).symm
    · rw [(h.eq_singleton hi).1] at htask
      obtain rfl := List.mem_singleton.mp htask
      exact congrArg some hholds
  · exact inv_of_row hrow h

theorem Live.closeRead (h : Live row s) (hrow : s.row = some row) (i : ℕ) : Inv (step s (.closeRead i)) := by
  have hset : Inv { s with closes := s.closes.set i (.running row) } := by
    refine inv_of_row hrow (h.setCloses fun task hmem n hcloses => ?_)
    rcases List.mem_or_eq_of_mem_set hmem with hmem | rfl
    · exact h.closing task hmem n hcloses
    · exact hcloses.2
  match hi : s.closes[i]? with
  | some .sent => simpa only [step, hi, hrow] using hset
  | some (.batched _) => simpa only [step, hi, hrow] using hset
  | some (.running _) => simpa only [step, hi, hrow] using inv_of_row hrow h
  | some (.byUsername _) => simpa only [step, hi, hrow] using inv_of_row hrow h
  | none => simpa only [step, hi, hrow] using inv_of_row hrow h

theorem Live.closeCourseAccount (h : Live row s) (hrow : s.row = some row) {read : CourseAccount}
    (hread : ∀ n, read.state ≠ .closed → read.user = some n → row.user = some n)
    (hcalm : read.state ≠ .closed → read.user = none → s.openAccounts = []) (answer : Answer) :
    Inv (closeCourseAccount s read answer) := by
  unfold CourseAccounts.closeCourseAccount
  split
  · exact inv_of_row hrow h
  next hstate =>
  split
  · next hnone =>
    refine inv_of_row (setState_row hrow .closed) ?_
    exact {
      known := h.known
      closed := fun _ => hcalm hstate hnone
      one := h.one
      creating := fun hne => ⟨(h.creating hne).1, Or.inr rfl⟩
      reading := fun _ _ => nofun
      answered := h.answered
      closing := h.closing
      named := h.named }
  next username huser =>
  have huser := hread username hstate huser
  have hcreates := h.creates_eq_nil huser
  have hfilter : s.openAccounts.filter (· ≠ username) = [] := by
    refine List.filter_eq_nil_iff.mpr fun n hn => ?_
    simpa using h.eq_of_user huser hn
  cases answer with
  | closed =>
    exact inv_of_row (setState_row hrow .closed) ((h.closeAccount username).setState hcreates fun _ => hfilter)
  | notFound =>
    dsimp only
    split
    · exact inv_of_row hrow h
    · next hnot =>
      refine inv_of_row (setState_row hrow .closed) (h.setState hcreates fun _ => ?_)
      refine List.eq_nil_iff_forall_not_mem.mpr fun n hn => ?_
      exact hnot (h.eq_of_user huser hn ▸ hn)
  | failed => exact inv_of_row (setState_row hrow .erred) (h.setState hcreates nofun)
  | lost => exact inv_of_row (setState_row hrow .erred) ((h.closeAccount username).setState hcreates nofun)

theorem Live.closeWritten (h : Live row s) (hrow : s.row = some row) {answer : Answer}
    (hcalm : Calm s (.closeWritten i answer)) : Inv (step s (.closeWritten i answer)) := by
  change Inv (match s.closes[i]? with
    | some (.running read) => _
    | some (.byUsername username) => _
    | _ => s)
  have hdrop := h.dropClose i
  split
  · next read hi =>
    refine hdrop.closeCourseAccount hrow (fun n hstate huser => ?_) (fun hstate hnone => ?_) answer
    · exact h.closing _ (List.mem_of_getElem? hi) n ⟨hstate, huser⟩
    · exact hcalm.1 read hi hstate hnone (by rw [hrow]; exact Option.some_ne_none row)
  · next username hi =>
    cases answer with
    | closed => exact inv_of_row hrow (hdrop.closeAccount username)
    | lost => exact inv_of_row hrow (hdrop.closeAccount username)
    | _ => exact inv_of_row hrow hdrop
  · exact inv_of_row hrow h

theorem Live.step (h : Live row s) (hrow : s.row = some row) {op : Op} (hcalm : Calm s op) : Inv (step s op) := by
  cases op with
  | destroy => exact h.destroy hrow
  | retry => exact h.retry hrow
  | deleteProject hard => exact h.deleteProject hrow hcalm
  | createRead i => exact h.createRead hrow i
  | createAnswered i => exact h.createAnswered hrow hcalm
  | createFailed i => exact h.createFailed hrow i
  | createLost i =>
    change Inv (match s.creates[i]? with
      | some (.running _) => _
      | _ => s)
    split
    · next read hi => exact absurd hi (hcalm read)
    · exact inv_of_row hrow h
  | createWritten i => exact h.createWritten hrow i
  | closeRead i => exact h.closeRead hrow i
  | closeWritten i answer => exact h.closeWritten hrow hcalm
  | closeDropped i => exact inv_of_row hrow (h.dropClose i)

end

/-! ### When the row is gone -/

section

variable {s : System} {row : CourseAccount} {n i : ℕ}

theorem known_of_none (hrow : s.row = none) : Known s n ↔ ∃ task ∈ s.closes, task.closes n := by
  unfold Known
  rw [hrow]

theorem Known.of_none (h : Known s n) (hrow : s.row = none) : ∃ task ∈ s.closes, task.closes n :=
  (known_of_none hrow).mp h

theorem setState_of_none (hrow : s.row = none) (state : CourseAccountState) : s.setState state = s := by
  cases s
  cases hrow
  rfl

theorem Gone.safe (h : Gone s) (hrow : s.row = none) : Safe s where
  known := fun n hn => (known_of_none hrow).mpr (h.known n hn)
  closed := fun row hrow' => absurd (hrow.symm.trans hrow') (Option.some_ne_none row).symm

/-- Only the creations change. -/
theorem Gone.setCreates (h : Gone s) (creates : List CreateTask) : Gone { s with creates := creates } :=
  ⟨h.known, h.single, h.named⟩

/-- A task ends that is not the last to close an open account. -/
theorem Gone.drop (h : Gone s) (hrow : s.row = none) (honly : ¬ OnlyCloser s i) :
    Gone { s with closes := s.closes.eraseIdx i } where
  known := by
    intro n hn
    obtain ⟨task, htask, hcloses⟩ := h.known n hn
    by_contra hnot
    have hothers : ∀ other ∈ s.closes.eraseIdx i, ¬ other.closes n := fun other hother hcloses =>
      hnot ⟨other, hother, hcloses⟩
    obtain ⟨j, hj⟩ := List.mem_iff_getElem?.mp htask
    rcases eq_or_ne j i with rfl | hne
    · exact honly ⟨hrow, task, n, hj, hcloses, hn, hothers⟩
    · exact hothers task (List.mem_eraseIdx_iff_getElem?.mpr ⟨j, hne, hj⟩) hcloses
  single := h.single
  named := fun task htask => h.named task (List.mem_of_mem_eraseIdx htask)

/-- A task closes its account and ends. -/
theorem Gone.close (h : Gone s) {task : CloseTask} (hi : s.closes[i]? = some task) (hcloses : task.closes n) :
    Gone (System.closeAccount { s with closes := s.closes.eraseIdx i } n) where
  known := by
    intro m hm
    obtain ⟨hm, hne⟩ := List.mem_filter.mp hm
    obtain ⟨task', htask', hcloses'⟩ := h.known m hm
    obtain ⟨j, hj⟩ := List.mem_iff_getElem?.mp htask'
    rcases eq_or_ne j i with rfl | hji
    · obtain rfl := Option.some.inj (hi.symm.trans hj)
      exact absurd (CloseTask.closes_unique hcloses' hcloses) (of_decide_eq_true hne)
    · exact ⟨task', List.mem_eraseIdx_iff_getElem?.mpr ⟨j, hji, hj⟩, hcloses'⟩
  single := fun m hm n hn => h.single m (List.mem_of_mem_filter hm) n (List.mem_of_mem_filter hn)
  named := fun task htask => h.named task (List.mem_of_mem_eraseIdx htask)

/-- A task becomes one that is to close the same account. -/
theorem Gone.replace (h : Gone s) {task task' : CloseTask} (hi : s.closes[i]? = some task)
    (hsame : ∀ n, task'.closes n ↔ task.closes n) : Gone { s with closes := s.closes.set i task' } where
  known := by
    intro n hn
    obtain ⟨other, hother, hcloses⟩ := h.known n hn
    obtain ⟨j, hj⟩ := List.mem_iff_getElem?.mp hother
    rcases eq_or_ne j i with rfl | hji
    · obtain rfl := Option.some.inj (hi.symm.trans hj)
      have hlt : j < s.closes.length := (List.getElem?_eq_some_iff.mp hi).1
      exact ⟨task', List.mem_iff_getElem?.mpr ⟨j, List.getElem?_set_self hlt⟩, (hsame n).mpr hcloses⟩
    · exact ⟨other, List.mem_iff_getElem?.mpr ⟨j, (List.getElem?_set_ne (Ne.symm hji)).trans hj⟩, hcloses⟩
  single := h.single
  named := by
    intro other hother n hcloses
    rcases List.mem_or_eq_of_mem_set hother with hother | rfl
    · exact h.named other hother n hcloses
    · exact h.named task (List.mem_of_getElem? hi) n ((hsame n).mp hcloses)

theorem not_onlyCloser_of_not_closes {task : CloseTask} (hi : s.closes[i]? = some task)
    (hnot : ∀ n, ¬ task.closes n) : ¬ OnlyCloser s i := by
  rintro ⟨-, task', n, hi', hcloses, -⟩
  obtain rfl := Option.some.inj (hi.symm.trans hi')
  exact hnot n hcloses

theorem Gone.closeRead (h : Gone s) (hrow : s.row = none) (i : ℕ) : Inv (step s (.closeRead i)) := by
  match hi : s.closes[i]? with
  | some .sent =>
    have hdrop : Inv { s with closes := s.closes.eraseIdx i } :=
      inv_of_none hrow (h.drop hrow (not_onlyCloser_of_not_closes hi fun _ => not_false))
    simpa only [step, hi, hrow] using hdrop
  | some (.batched none) =>
    have hdrop : Inv { s with closes := s.closes.eraseIdx i } :=
      inv_of_none hrow (h.drop hrow (not_onlyCloser_of_not_closes hi fun n => (Option.some_ne_none n).symm))
    simpa only [step, hi, hrow] using hdrop
  | some (.batched (some username)) =>
    have hset : Inv { s with closes := s.closes.set i (.byUsername username) } :=
      inv_of_none hrow (h.replace hi fun n => Option.some_inj.symm)
    simpa only [step, hi, hrow] using hset
  | some (.running _) => simpa only [step, hi, hrow] using inv_of_none hrow h
  | some (.byUsername _) => simpa only [step, hi, hrow] using inv_of_none hrow h
  | none => simpa only [step, hi, hrow] using inv_of_none hrow h

/-- A task that the backend does not let close anything just ends. -/
theorem closeWritten_of_none (hrow : s.row = none) {task : CloseTask} (hi : s.closes[i]? = some task)
    (hstarted : task.started = true) {answer : Answer} (hclosed : answer ≠ .closed) (hlost : answer ≠ .lost) :
    step s (.closeWritten i answer) = { s with closes := s.closes.eraseIdx i } := by
  have hset : ∀ state, System.setState { s with closes := s.closes.eraseIdx i } state =
      { s with closes := s.closes.eraseIdx i } := setState_of_none hrow
  cases task with
  | running read =>
    simp only [step, hi, closeCourseAccount, hset]
    split
    · rfl
    · split
      · rfl
      · cases answer with
        | notFound => exact ite_self _
        | failed => rfl
        | closed => exact absurd rfl hclosed
        | lost => exact absurd rfl hlost
  | byUsername username =>
    simp only [step, hi]
    cases answer with
    | notFound => rfl
    | failed => rfl
    | closed => exact absurd rfl hclosed
    | lost => exact absurd rfl hlost
  | _ => exact absurd hstarted nofun

/-- What the backend closes, the task was to close. -/
theorem Gone.answered (h : Gone s) (hrow : s.row = none) {task : CloseTask} (hi : s.closes[i]? = some task)
    (hstarted : task.started = true) {answer : Answer} (hdone : answer = .closed ∨ answer = .lost) :
    Inv (step s (.closeWritten i answer)) := by
  have hset : ∀ s' : System, Gone s' → s'.row = none → ∀ state, Inv (s'.setState state) := by
    intro s' h' hrow' state
    rw [setState_of_none hrow']
    exact inv_of_none hrow' h'
  have hdrop (hnot : ∀ n, ¬ task.closes n) : Gone { s with closes := s.closes.eraseIdx i } :=
    h.drop hrow (not_onlyCloser_of_not_closes hi hnot)
  cases task with
  | running read =>
    simp only [step, hi, closeCourseAccount]
    split
    · next hstate => exact inv_of_none hrow (hdrop fun n hcloses => hcloses.1 hstate)
    next hstate =>
    split
    · next hnone =>
      refine hset _ (hdrop fun n hcloses => ?_) hrow .closed
      exact absurd (hnone.symm.trans hcloses.2) (Option.some_ne_none n).symm
    next username huser =>
    have hgone := h.close hi (show CloseTask.closes username (.running read) from ⟨hstate, huser⟩)
    rcases hdone with rfl | rfl
    · exact hset _ hgone hrow .closed
    · exact hset _ hgone hrow .erred
  | byUsername username =>
    simp only [step, hi]
    have hgone := h.close hi (show CloseTask.closes username (.byUsername username) from rfl)
    rcases hdone with rfl | rfl
    · exact inv_of_none hrow hgone
    · exact inv_of_none hrow hgone
  | _ => exact absurd hstarted nofun

theorem Gone.closeWritten (h : Gone s) (hrow : s.row = none) {answer : Answer}
    (hcalm : Calm s (.closeWritten i answer)) : Inv (step s (.closeWritten i answer)) := by
  match hi : s.closes[i]? with
  | some task =>
    cases hstarted : task.started with
    | true =>
      by_cases hdone : answer = .closed ∨ answer = .lost
      · exact h.answered hrow hi hstarted hdone
      · obtain ⟨hclosed, hlost⟩ := not_or.mp hdone
        rw [closeWritten_of_none hrow hi hstarted hclosed hlost]
        exact inv_of_none hrow (h.drop hrow (hcalm.2 task hi hstarted hclosed hlost))
    | false =>
      cases task with
      | sent => simpa only [step, hi] using inv_of_none hrow h
      | batched _ => simpa only [step, hi] using inv_of_none hrow h
      | _ => exact absurd hstarted nofun
  | none => simpa only [step, hi] using inv_of_none hrow h

theorem Gone.step (h : Gone s) (hrow : s.row = none) {op : Op} (hcalm : Calm s op) : Inv (step s op) := by
  have hmap : ∀ f : CourseAccount → CourseAccount, s.row.map f = none := fun f => congrArg (Option.map f) hrow
  cases op with
  | destroy => simpa only [CourseAccounts.step, hrow] using inv_of_none hrow h
  | retry => simpa only [CourseAccounts.step, hrow] using inv_of_none hrow h
  | deleteProject hard => simpa only [CourseAccounts.step, hrow] using inv_of_none hrow h
  | createRead i =>
    simp only [CourseAccounts.step, hrow]
    split
    · exact inv_of_none rfl ⟨h.known, h.single, h.named⟩
    · exact inv_of_none hrow h
  | createAnswered i =>
    change Inv (match s.creates[i]? with
      | some (.running read) => _
      | _ => s)
    split
    · next read hi =>
      obtain ⟨row, hrow', -⟩ := hcalm read hi
      exact absurd (hrow.symm.trans hrow') (Option.some_ne_none row).symm
    · exact inv_of_none hrow h
  | createFailed i =>
    change Inv (match s.creates[i]? with
      | some (.running _) => _
      | _ => s)
    split
    · exact inv_of_none (hmap _) ⟨h.known, h.single, h.named⟩
    · exact inv_of_none hrow h
  | createLost i =>
    change Inv (match s.creates[i]? with
      | some (.running _) => _
      | _ => s)
    split
    · next read hi => exact absurd hi (hcalm read)
    · exact inv_of_none hrow h
  | createWritten i =>
    change Inv (match s.creates[i]? with
      | some (.answered read username) => _
      | _ => s)
    split
    · split
      · exact inv_of_none (hmap _) ⟨h.known, h.single, h.named⟩
      · exact inv_of_none (hmap _) ⟨h.known, h.single, h.named⟩
    · exact inv_of_none hrow h
  | closeRead i => exact h.closeRead hrow i
  | closeWritten i answer => exact h.closeWritten hrow hcalm
  | closeDropped i => exact inv_of_none hrow (h.drop hrow hcalm)

end

/-! ### Over every run -/

section

variable {s : System}

theorem Inv.cases (h : Inv s) : (∃ row, s.row = some row ∧ Live row s) ∨ s.row = none ∧ Gone s := by
  unfold Inv at h
  cases hrow : s.row with
  | some row =>
    rw [hrow] at h
    exact Or.inl ⟨row, rfl, h⟩
  | none =>
    rw [hrow] at h
    exact Or.inr ⟨rfl, h⟩

theorem Inv.safe (h : Inv s) : Safe s := by
  rcases h.cases with ⟨row, hrow, hlive⟩ | ⟨hrow, hgone⟩
  · exact hlive.safe hrow
  · exact hgone.safe hrow

theorem Inv.single (h : Inv s) : ∀ m ∈ s.openAccounts, ∀ n ∈ s.openAccounts, m = n := by
  rcases h.cases with ⟨row, hrow, hlive⟩ | ⟨hrow, hgone⟩
  · exact fun m hm n hn => hlive.single hm hn
  · exact hgone.single

theorem Inv.step (h : Inv s) {op : Op} (hcalm : Calm s op) : Inv (step s op) := by
  rcases h.cases with ⟨row, hrow, hlive⟩ | ⟨hrow, hgone⟩
  · exact hlive.step hrow hcalm
  · exact hgone.step hrow hcalm

theorem Live.calm_of_safe {row : CourseAccount} (h : Live row s) (hrow : s.row = some row) {op : Op}
    (hsafe : Safe (CourseAccounts.step s op)) : Calm s op := by
  have hnotGone (j : ℕ) : ¬ OnlyCloser s j := fun honly =>
    absurd (hrow.symm.trans honly.1) (Option.some_ne_none row)
  cases op with
  | deleteProject hard =>
    rintro rfl - n hn task htask -
    simp only [CourseAccounts.step, hrow] at hsafe
    obtain ⟨closer, hcloser, hcloses⟩ := (hsafe.known n hn).of_none rfl
    have hsent : Live row { s with closes := s.closes ++ [.batched row.user] } := h.sendClose fun _ => id
    exact absurd (h.creates_eq_nil (hsent.closing closer hcloser n hcloses)) (List.ne_nil_of_mem htask)
  | createAnswered i =>
    intro read hi
    refine ⟨row, hrow, fun hclosed => ?_⟩
    simp only [CourseAccounts.step, hi] at hsafe
    exact absurd (hsafe.closed row hrow hclosed) (List.cons_ne_nil _ _)
  | createLost i =>
    intro read hi
    simp only [CourseAccounts.step, hi] at hsafe
    have huser := h.user_eq_none hi
    obtain ⟨hcreates, rfl⟩ := h.eq_singleton hi
    -- the name of the new account is nowhere
    rcases (hsafe.known s.next List.mem_cons_self).of_row (setState_row hrow .erred) with hnamed | ⟨task, htask, -⟩
    · exact absurd (huser.symm.trans hnamed) (Option.some_ne_none _).symm
    · change task ∈ s.creates.eraseIdx 0 at htask
      rw [hcreates] at htask
      exact absurd htask List.not_mem_nil
  | closeWritten i answer =>
    refine ⟨fun read hi hstate hnone _ => ?_, fun _ _ _ _ _ => hnotGone i⟩
    simp only [CourseAccounts.step, hi, CourseAccounts.closeCourseAccount, if_neg hstate, hnone] at hsafe
    exact hsafe.closed _ (setState_row hrow .closed) rfl
  | closeDropped i => exact hnotGone i
  | _ => trivial

theorem Gone.calm_of_safe (h : Gone s) (hrow : s.row = none) {op : Op} (hsafe : Safe (CourseAccounts.step s op)) :
    Calm s op := by
  have hnext : ∀ task ∈ s.closes, ¬ task.closes s.next := fun task htask hcloses =>
    Nat.lt_irrefl _ (h.named task htask s.next hcloses)
  have honly (i : ℕ) : Safe { s with closes := s.closes.eraseIdx i } → ¬ OnlyCloser s i := by
    rintro hdropped ⟨-, task, n, -, -, hn, hothers⟩
    obtain ⟨other, hother, hcloses⟩ := (hdropped.known n hn).of_none hrow
    exact hothers other hother hcloses
  cases op with
  | deleteProject hard => exact fun _ hsome => absurd hrow hsome
  | createAnswered i =>
    intro read hi
    simp only [CourseAccounts.step, hi] at hsafe
    obtain ⟨task, htask, hcloses⟩ := (hsafe.known s.next List.mem_cons_self).of_none hrow
    exact absurd hcloses (hnext task htask)
  | createLost i =>
    intro read hi
    simp only [CourseAccounts.step, hi] at hsafe
    obtain ⟨task, htask, hcloses⟩ :=
      (hsafe.known s.next List.mem_cons_self).of_none (congrArg (Option.map _) hrow)
    exact absurd hcloses (hnext task htask)
  | closeWritten i answer =>
    refine ⟨fun _ _ _ _ hsome => absurd hrow hsome, fun task hi hstarted hclosed hlost => ?_⟩
    rw [closeWritten_of_none hrow hi hstarted hclosed hlost] at hsafe
    exact honly i hsafe
  | closeDropped i => exact honly i hsafe
  | _ => trivial

theorem Inv.calm_of_safe (h : Inv s) {op : Op} (hsafe : Safe (CourseAccounts.step s op)) : Calm s op := by
  rcases h.cases with ⟨row, hrow, hlive⟩ | ⟨hrow, hgone⟩
  · exact hlive.calm_of_safe hrow hsafe
  · exact hgone.calm_of_safe hrow hsafe

end

theorem inv_createBulk : Inv createBulk := inv_of_row rfl {
  known := fun _ hn => absurd hn List.not_mem_nil
  closed := nofun
  one := Nat.le_refl 1
  creating := fun _ => ⟨rfl, Or.inl rfl⟩
  reading := fun _ hmem => absurd (List.mem_singleton.mp hmem) nofun
  answered := fun _ _ hmem => absurd (List.mem_singleton.mp hmem) nofun
  closing := fun _ hmem => absurd hmem List.not_mem_nil
  named := nofun }

theorem inv_performCreate : Inv performCreate := inv_of_row rfl {
  known := fun _ hn => Or.inl (congrArg some (List.mem_singleton.mp hn).symm)
  closed := nofun
  one := Nat.zero_le 1
  creating := fun hne => absurd rfl hne
  reading := fun _ hmem => absurd hmem List.not_mem_nil
  answered := fun _ _ hmem => absurd hmem List.not_mem_nil
  closing := fun _ hmem => absurd hmem List.not_mem_nil
  named := fun _ huser => Option.some.inj huser ▸ Nat.one_pos }

/-- The project is deleted while its account is being created. -/
def projectDeleted : List Op :=
  [.deleteProject false, .closeRead 0, .createRead 0, .createAnswered 0, .closeWritten 0 .notFound]

end Waldur.Marketplace.CourseAccounts
