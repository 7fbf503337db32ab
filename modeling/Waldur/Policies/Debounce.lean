import Mathlib
import Waldur.Lib.Runs

/-!
# Policies.Debounce — one evaluation for the changes of a window

`_debounced_call` claims a key for the length of a window and publishes a task that runs after it; a change that finds
the key claimed is dropped, since the task will see it.  The calls of one scope, the expiry of the key, the publishes
and the tasks are steps in any order.  A dropped change is lost where the publish that it relied on fails:
`OthersWait` is the exact condition.
-/

namespace Waldur.Policies

open Runs

/-- A positive `debounce_seconds`. -/
structure Window where
  seconds : ℚ
  pos : 0 < seconds

/-- How far the `_publish` of a committed change is. -/
inductive Call
  /-- Before `cache.add`. -/
  | committed (window : Window)
  /-- The key is added, and the task not yet published. -/
  | claimed (since : ℚ) (window : Window)
  /-- The publish raised, and the key is not yet deleted. -/
  | failing
  | dropped
  | scheduled
  | failed

def Call.inProgress : Call → Bool
  | .committed _ => true
  | .claimed _ _ => true
  | .failing => true
  | _ => false

/-- The key with its expiry time, the tasks with the times of their countdowns, the calls in the order of the commits,
and whether an evaluation has started since the last of these. -/
structure Debouncer where
  now : ℚ
  key : Option ℚ := none
  queue : List ℚ := []
  calls : List Call := []
  evaluated : Bool := false

inductive DebounceOp
  | commit (window : Window)
  | add (call : ℕ)
  | publish (call : ℕ) (fails : Bool)
  | delete (call : ℕ)
  | runTask (task : ℕ)
  | wait (time : ℚ)

namespace Debouncer

variable (s : Debouncer)

/-- The key is in the cache: it has not expired. -/
def claimed : Bool := s.key.any fun expiry => decide (s.now < expiry)

def setCall (i : ℕ) (call : Call) : Debouncer := { s with calls := s.calls.set i call }

/-- `cache.add`. -/
def add (i : ℕ) : Debouncer :=
  match s.calls[i]? with
  | some (.committed window) =>
    if s.claimed then s.setCall i .dropped
    else { s.setCall i (.claimed s.now window) with key := some (s.now + window.seconds) }
  | _ => s

/-- `task.apply_async`. -/
def publish (i : ℕ) (fails : Bool) : Debouncer :=
  match s.calls[i]? with
  | some (.claimed _ window) =>
    if fails then s.setCall i .failing
    else { s.setCall i .scheduled with queue := s.queue ++ [s.now + window.seconds] }
  | _ => s

/-- `cache.delete`, after a publish that raised. -/
def delete (i : ℕ) : Debouncer :=
  match s.calls[i]? with
  | some .failing => { s.setCall i .failed with key := none }
  | _ => s

/-- A task whose countdown is over starts to evaluate. -/
def runTask (i : ℕ) : Debouncer :=
  match s.queue[i]? with
  | some eta => if eta ≤ s.now then { s with queue := s.queue.eraseIdx i, evaluated := true } else s
  | none => s

def step : DebounceOp → Debouncer
  | .commit window => { s with calls := s.calls ++ [.committed window], evaluated := false }
  | .add i => s.add i
  | .publish i fails => s.publish i fails
  | .delete i => s.delete i
  | .runTask i => s.runTask i
  | .wait time => { s with now := max s.now time }

/-- No change yet. -/
def start (now : ℚ) : Debouncer := { now := now }

def lastCall : Option Call := s.calls[s.calls.length - 1]?

/-- The queue is empty and no call is in progress. -/
def Quiet : Prop := s.queue = [] ∧ ∀ (i : ℕ) (call : Call), s.calls[i]? = some call → call.inProgress = false

/-- In a quiet state an evaluation has started after the last change, or its own publish failed. -/
def Heard : Prop := s.Quiet → ∀ call, s.lastCall = some call → s.evaluated = true ∨ call = .failed

/-- **Where a failed publish loses no change**: when its key is deleted and the last change was dropped, with no
evaluation since, a task is queued or another call is in progress. -/
def OthersWait : DebounceOp → Prop
  | .delete i => s.calls[i]? = some .failing → s.lastCall = some .dropped → s.evaluated = false →
      s.queue ≠ [] ∨ ∃ (j : ℕ) (call : Call), j ≠ i ∧ s.calls[j]? = some call ∧ call.inProgress = true
  | _ => True

/-! ## The invariant -/

/-- Somebody answers for a key that expires at `expiry`: a call that has yet to publish or to delete it, or a task that
does not run before. -/
def Answered (expiry : ℚ) : Prop :=
  (∃ (i : ℕ) (since : ℚ) (window : Window), s.calls[i]? = some (.claimed since window) ∧
      expiry ≤ since + window.seconds) ∨
    (∃ i : ℕ, s.calls[i]? = some .failing) ∨ ∃ eta ∈ s.queue, expiry ≤ eta

structure Guarded (s : Debouncer) : Prop where
  key : ∀ expiry, s.key = some expiry → s.now < expiry → s.Answered expiry
  clock : ∀ (i : ℕ) (since : ℚ) (window : Window), s.calls[i]? = some (.claimed since window) → since ≤ s.now
  last : s.evaluated = false → s.lastCall = some .scheduled → s.queue ≠ []

variable {s} {i j : ℕ} {call call' : Call} {window : Window} {op : DebounceOp}

theorem lt_of_getElem? (h : s.calls[i]? = some call) : i < s.calls.length := by
  obtain ⟨hlt, -⟩ := List.getElem?_eq_some_iff.mp h
  exact hlt

/-- A call after one of them has moved. -/
theorem getElem?_setCall (hi : i < s.calls.length) :
    (s.setCall i call).calls[j]? = if i = j then some call else s.calls[j]? := by
  simp only [setCall, List.getElem?_set]
  by_cases hij : i = j
  · rw [if_pos hij, if_pos hij, if_pos hi]
  · rw [if_neg hij, if_neg hij]

theorem getElem?_setCall_self (hi : i < s.calls.length) : (s.setCall i call).calls[i]? = some call := by
  rw [getElem?_setCall hi, if_pos rfl]

theorem getElem?_setCall_ne (hi : i < s.calls.length) (hij : i ≠ j) :
    (s.setCall i call).calls[j]? = s.calls[j]? := by
  rw [getElem?_setCall hi, if_neg hij]

theorem lastCall_setCall (hi : i < s.calls.length) :
    (s.setCall i call).lastCall = if i = s.calls.length - 1 then some call else s.lastCall := by
  unfold lastCall
  rw [show (s.setCall i call).calls.length = s.calls.length from List.length_set, getElem?_setCall hi]

theorem Guarded.start (now : ℚ) : (start now).Guarded := by
  constructor
  · intro expiry hkey
    cases hkey
  · intro i since window h
    simp [Debouncer.start] at h
  · intro _ h
    simp [Debouncer.start, lastCall] at h

/-- Two calls of different kinds are two calls. -/
theorem ne_of_call_ne (hi : s.calls[i]? = some call) (hj : s.calls[j]? = some call') (hne : call ≠ call') : i ≠ j := by
  rintro rfl
  exact hne (Option.some.inj (hi.symm.trans hj))

/-! ## What a step does -/

theorem claimed_iff : s.claimed = true ↔ ∃ expiry, s.key = some expiry ∧ s.now < expiry := by
  unfold claimed
  rw [Option.any_eq_true]
  simp only [decide_eq_true_eq]

/-- An add claims a free key, or is dropped. -/
theorem add_cases : s.add i = s ∨ ∃ window, s.calls[i]? = some (.committed window) ∧
    (s.claimed = true ∧ s.add i = s.setCall i .dropped ∨
      s.add i = { s.setCall i (.claimed s.now window) with key := some (s.now + window.seconds) }) := by
  unfold add
  split
  · next window h =>
    refine Or.inr ⟨window, h, ?_⟩
    by_cases hclaimed : s.claimed = true
    · rw [if_pos hclaimed]
      exact Or.inl ⟨hclaimed, rfl⟩
    · rw [if_neg hclaimed]
      exact Or.inr rfl
  · exact Or.inl rfl

theorem publish_cases {fails : Bool} : s.publish i fails = s ∨
    ∃ since window, s.calls[i]? = some (.claimed since window) ∧ (s.publish i fails = s.setCall i .failing ∨
      s.publish i fails = { s.setCall i .scheduled with queue := s.queue ++ [s.now + window.seconds] }) := by
  unfold publish
  split
  · next since window h =>
    refine Or.inr ⟨since, window, h, ?_⟩
    cases fails with
    | true => exact Or.inl rfl
    | false => exact Or.inr rfl
  · exact Or.inl rfl

theorem delete_cases : (s.calls[i]? ≠ some .failing ∧ s.delete i = s) ∨
    s.calls[i]? = some .failing ∧ s.delete i = { s.setCall i .failed with key := none } := by
  unfold delete
  split
  · next h => exact Or.inr ⟨h, rfl⟩
  · next h => exact Or.inl ⟨h, rfl⟩

theorem runTask_cases : s.runTask i = s ∨ ∃ eta, s.queue[i]? = some eta ∧ eta ≤ s.now ∧
    s.runTask i = { s with queue := s.queue.eraseIdx i, evaluated := true } := by
  unfold runTask
  split
  · next eta h =>
    by_cases hdue : eta ≤ s.now
    · rw [if_pos hdue]
      exact Or.inr ⟨eta, h, hdue, rfl⟩
    · rw [if_neg hdue]
      exact Or.inl rfl
  · exact Or.inl rfl

/-- A commit adds a last call and moves no other. -/
theorem getElem?_commit (h : s.calls[i]? = some call) :
    (s.calls ++ [Call.committed window])[i]? = some call := by
  rw [List.getElem?_append_left (lt_of_getElem? h), h]

theorem lastCall_commit : (s.step (.commit window)).lastCall = some (.committed window) := by
  simp [step, lastCall]

/-! ## The invariant holds -/

/-- A claim that another call does not end is still answered for. -/
theorem Answered.setCall {expiry : ℚ} (h : s.Answered expiry) (hi : s.calls[i]? = some (.committed window)) :
    (s.setCall i call).Answered expiry := by
  have hlt := lt_of_getElem? hi
  rcases h with ⟨j, since, w, hj, hle⟩ | ⟨j, hj⟩ | hqueue
  · refine Or.inl ⟨j, since, w, ?_, hle⟩
    rw [getElem?_setCall_ne hlt (ne_of_call_ne hi hj Call.noConfusion), hj]
  · refine Or.inr (Or.inl ⟨j, ?_⟩)
    rw [getElem?_setCall_ne hlt (ne_of_call_ne hi hj Call.noConfusion), hj]
  · exact Or.inr (Or.inr hqueue)

/-- The claims after a call has moved are claims before, and the moved one. -/
theorem clock_setCall (hs : s.Guarded) (hi : i < s.calls.length)
    (hcall : ∀ since window, call = .claimed since window → since ≤ s.now) :
    ∀ (j : ℕ) (since : ℚ) (window : Window), (s.setCall i call).calls[j]? = some (.claimed since window) →
      since ≤ s.now := by
  intro j since window h
  rw [getElem?_setCall hi] at h
  split at h
  · exact hcall since window (Option.some.inj h)
  · exact hs.clock j since window h

theorem last_setCall (hs : s.Guarded) (hi : i < s.calls.length) (hcall : call ≠ .scheduled)
    (hevaluated : s.evaluated = false) (hlast : (s.setCall i call).lastCall = some .scheduled) : s.queue ≠ [] := by
  rw [lastCall_setCall hi] at hlast
  split at hlast
  · exact absurd (Option.some.inj hlast) hcall
  · exact hs.last hevaluated hlast

theorem Guarded.add (hs : s.Guarded) : (s.add i).Guarded := by
  rcases @add_cases s i with heq | ⟨window, hi, ⟨-, heq⟩ | heq⟩
  · rwa [heq]
  · rw [heq]
    have hlt := lt_of_getElem? hi
    constructor
    · exact fun expiry hkey hlater => (hs.key expiry hkey hlater).setCall hi
    · exact clock_setCall hs hlt fun _ _ hclaimed => Call.noConfusion hclaimed
    · exact last_setCall hs hlt Call.noConfusion
  · rw [heq]
    have hlt := lt_of_getElem? hi
    constructor
    · intro expiry hkey _
      obtain rfl := Option.some.inj hkey
      exact Or.inl ⟨i, s.now, window, getElem?_setCall_self hlt, le_rfl⟩
    · refine clock_setCall hs hlt fun since w hclaimed => ?_
      injection hclaimed with hnow
      exact hnow.ge
    · exact last_setCall hs hlt Call.noConfusion

theorem Guarded.publish {fails : Bool} (hs : s.Guarded) : (s.publish i fails).Guarded := by
  rcases @publish_cases s i fails with heq | ⟨since, window, hi, heq | heq⟩
  · rwa [heq]
  · rw [heq]
    have hlt := lt_of_getElem? hi
    constructor
    · exact fun _ _ _ => Or.inr (Or.inl ⟨i, getElem?_setCall_self hlt⟩)
    · exact clock_setCall hs hlt fun _ _ hclaimed => Call.noConfusion hclaimed
    · exact last_setCall hs hlt Call.noConfusion
  · rw [heq]
    have hlt := lt_of_getElem? hi
    constructor
    · intro expiry hkey hlater
      rcases hs.key expiry hkey hlater with ⟨j, since', w, hj, hle⟩ | ⟨j, hj⟩ | ⟨eta, heta, hle⟩
      · by_cases hij : i = j
        · subst hij
          injection Option.some.inj (hi.symm.trans hj) with hsince hwindow
          subst hsince hwindow
          -- The countdown starts no earlier than the timeout of the key.
          have hclock := hs.clock i since window hi
          exact Or.inr (Or.inr ⟨_, List.mem_append_right _ List.mem_cons_self, by linarith⟩)
        · exact Or.inl ⟨j, since', w, (getElem?_setCall_ne hlt hij).trans hj, hle⟩
      · have hij := ne_of_call_ne hi hj Call.noConfusion
        exact Or.inr (Or.inl ⟨j, (getElem?_setCall_ne hlt hij).trans hj⟩)
      · exact Or.inr (Or.inr ⟨eta, List.mem_append_left _ heta, hle⟩)
    · exact clock_setCall hs hlt fun _ _ hclaimed => Call.noConfusion hclaimed
    · exact fun _ _ => List.append_ne_nil_of_right_ne_nil _ (List.cons_ne_nil _ _)

theorem Guarded.delete (hs : s.Guarded) : (s.delete i).Guarded := by
  rcases @delete_cases s i with ⟨-, heq⟩ | ⟨hi, heq⟩
  · rwa [heq]
  · rw [heq]
    have hlt := lt_of_getElem? hi
    constructor
    · intro expiry hkey
      cases hkey
    · exact clock_setCall hs hlt fun _ _ hclaimed => Call.noConfusion hclaimed
    · exact last_setCall hs hlt Call.noConfusion

theorem Guarded.runTask (hs : s.Guarded) : (s.runTask i).Guarded := by
  rcases @runTask_cases s i with heq | ⟨eta, heta, hdue, heq⟩
  · rwa [heq]
  · rw [heq]
    constructor
    · intro expiry hkey hlater
      rcases hs.key expiry hkey hlater with hclaim | hfailing | ⟨eta', heta', hle⟩
      · exact Or.inl hclaim
      · exact Or.inr (Or.inl hfailing)
      · obtain ⟨j, hj⟩ := List.mem_iff_getElem?.mp heta'
        refine Or.inr (Or.inr ⟨eta', List.mem_eraseIdx_iff_getElem?.mpr ⟨j, ?_, hj⟩, hle⟩)
        -- The task that runs is due, so it is not the one that answers for a live key.
        rintro rfl
        obtain rfl := Option.some.inj (heta.symm.trans hj)
        have hlater' : s.now < expiry := hlater
        linarith
    · exact hs.clock
    · intro hevaluated
      cases hevaluated

theorem Guarded.step (hs : s.Guarded) : (s.step op).Guarded := by
  cases op with
  | commit window =>
    constructor
    · intro expiry hkey hlater
      rcases hs.key expiry hkey hlater with ⟨j, since, w, hj, hle⟩ | ⟨j, hj⟩ | hqueue
      · exact Or.inl ⟨j, since, w, getElem?_commit hj, hle⟩
      · exact Or.inr (Or.inl ⟨j, getElem?_commit hj⟩)
      · exact Or.inr (Or.inr hqueue)
    · intro j since w hj
      have hj' : (s.calls ++ [Call.committed window])[j]? = some (.claimed since w) := hj
      rcases lt_or_ge j s.calls.length with hlt | hge
      · rw [List.getElem?_append_left hlt] at hj'
        exact hs.clock j since w hj'
      · rw [List.getElem?_append_right hge] at hj'
        have hmem := List.mem_of_getElem? hj'
        cases List.mem_singleton.mp hmem
    · intro _ hlast
      rw [lastCall_commit] at hlast
      cases hlast
  | add i => exact hs.add
  | publish i fails => exact hs.publish
  | delete i => exact hs.delete
  | runTask i => exact hs.runTask
  | wait time =>
    constructor
    · intro expiry hkey hlater
      exact hs.key expiry hkey (lt_of_le_of_lt (le_max_left _ _) hlater)
    · exact fun j since w hj => (hs.clock j since w hj).trans (le_max_left _ _)
    · exact hs.last

/-! ## What is heard -/

/-- A state with a call in progress is not quiet. -/
theorem heard_of_inProgress (hi : s.calls[i]? = some call) (hcall : call.inProgress = true) : s.Heard := by
  intro hquiet
  have hdone := hquiet.2 i call hi
  rw [hcall] at hdone
  cases hdone

theorem heard_of_queue (h : s.queue ≠ []) : s.Heard := fun hquiet => absurd hquiet.1 h

/-- A key that is answered for keeps the state from being quiet. -/
theorem Answered.heard {expiry : ℚ} (h : s.Answered expiry) : s.Heard := by
  rcases h with ⟨j, since, w, hj, -⟩ | ⟨j, hj⟩ | ⟨eta, heta, -⟩
  · exact heard_of_inProgress hj rfl
  · exact heard_of_inProgress hj rfl
  · exact heard_of_queue (List.ne_nil_of_mem heta)

theorem heard_add (hs : s.Guarded) (h : s.Heard) : (s.add i).Heard := by
  rcases @add_cases s i with heq | ⟨w, hi, ⟨hclaimed, heq⟩ | heq⟩
  · rwa [heq]
  · rw [heq]
    obtain ⟨expiry, hkey, hlater⟩ := claimed_iff.mp hclaimed
    exact ((hs.key expiry hkey hlater).setCall hi).heard
  · rw [heq]
    exact heard_of_inProgress (getElem?_setCall_self (lt_of_getElem? hi)) rfl

theorem heard_publish {fails : Bool} (h : s.Heard) : (s.publish i fails).Heard := by
  rcases @publish_cases s i fails with heq | ⟨since, w, hi, heq | heq⟩
  · rwa [heq]
  · rw [heq]
    exact heard_of_inProgress (getElem?_setCall_self (lt_of_getElem? hi)) rfl
  · rw [heq]
    exact heard_of_queue (List.append_ne_nil_of_right_ne_nil _ (List.cons_ne_nil _ _))

theorem heard_runTask (h : s.Heard) : (s.runTask i).Heard := by
  rcases @runTask_cases s i with heq | ⟨eta, -, -, heq⟩
  · rwa [heq]
  · rw [heq]
    exact fun _ _ _ => Or.inl rfl

/-- A quiet end of a failed publish is one where nothing is queued and no other call is in progress. -/
theorem quiet_failed (hi : i < s.calls.length) : (s.setCall i .failed).Quiet ↔
    s.queue = [] ∧ ∀ (j : ℕ) (call : Call), j ≠ i → s.calls[j]? = some call → call.inProgress = false := by
  refine and_congr_right fun _ => ⟨fun hdone j c hji hj => ?_, fun hdone j c hj => ?_⟩
  · exact hdone j c ((getElem?_setCall_ne hi hji.symm).trans hj)
  · rw [getElem?_setCall hi] at hj
    split at hj
    · obtain rfl := Option.some.inj hj
      rfl
    · next hij => exact hdone j c (Ne.symm hij) hj

/-- The end of a failed publish leaves a lost change exactly where nothing else waits. -/
theorem heard_delete (hs : s.Guarded) (h : s.Heard) : (s.delete i).Heard ↔ s.OthersWait (.delete i) := by
  rcases @delete_cases s i with ⟨hne, heq⟩ | ⟨hi, heq⟩
  · rw [heq]
    exact iff_of_true h fun hfailing => absurd hfailing hne
  · rw [heq]
    have hlt := lt_of_getElem? hi
    have hkey : Heard { s.setCall i .failed with key := none } ↔ (s.setCall i .failed).Heard := Iff.rfl
    have hlastCall := @lastCall_setCall s i .failed hlt
    rw [hkey]
    constructor
    · intro hheard _ hlast hevaluated
      have hnotLast : i ≠ s.calls.length - 1 := by
        intro hlastIndex
        unfold lastCall at hlast
        rw [← hlastIndex, hi] at hlast
        cases hlast
      rw [if_neg hnotLast, hlast] at hlastCall
      by_contra hnone
      obtain ⟨hqueue, hothers⟩ := not_or.mp hnone
      have hquiet : (s.setCall i .failed).Quiet := by
        refine (quiet_failed hlt).mpr ⟨not_not.mp hqueue, fun j c hji hj => ?_⟩
        rw [← Bool.not_eq_true]
        exact fun hc => hothers ⟨j, c, hji, hj, hc⟩
      rcases hheard hquiet _ hlastCall with h' | h'
      · have h'' : s.evaluated = true := h'
        rw [hevaluated] at h''
        cases h''
      · cases h'
    · intro hwait hquiet call hcall
      obtain ⟨hempty, hdone⟩ := (quiet_failed hlt).mp hquiet
      rw [hlastCall] at hcall
      split at hcall
      · exact Or.inr (Option.some.inj hcall).symm
      · next hnotLast =>
        refine or_iff_not_imp_left.mpr fun hevaluated => ?_
        have hevaluated' : s.evaluated = false := Bool.not_eq_true _ ▸ hevaluated
        have hended := hdone (s.calls.length - 1) call (Ne.symm hnotLast) hcall
        cases call with
        | dropped =>
          rcases hwait hi hcall hevaluated' with hqueue | ⟨j, c, hji, hj, hc⟩
          · exact absurd hempty hqueue
          · rw [hdone j c hji hj] at hc
            cases hc
        | scheduled => exact absurd hempty (hs.last hevaluated' hcall)
        | failed => rfl
        | committed w => cases hended
        | claimed since w => cases hended
        | failing => cases hended

theorem heard_step (hs : s.Guarded) (h : s.Heard) : (s.step op).Heard ↔ s.OthersWait op := by
  cases op with
  | commit window => exact iff_of_true (heard_of_inProgress (lastCall_commit (s := s)) rfl) trivial
  | add i => exact iff_of_true (heard_add hs h) trivial
  | publish i fails => exact iff_of_true (heard_publish h) trivial
  | delete i => exact heard_delete hs h
  | runTask i => exact iff_of_true (heard_runTask h) trivial
  | wait time => exact iff_of_true h trivial

/-- **When no change is lost**: in every run, every state is heard exactly if no failed publish deletes its key while
nothing else waits for the last change. -/
theorem heard_along_iff (now : ℚ) (ops : List DebounceOp) :
    Along step (fun s op => (s.step op).Heard) (start now) ops ↔ Along step OthersWait (start now) ops := by
  have hstart : (start now).Heard := by
    intro _ call hcall
    cases hcall
  refine @along_congr _ _ step (fun s => s.Guarded ∧ s.Heard) _ _ ?_ ?_ ops (start now) ⟨.start now, hstart⟩
  · exact fun s op hs => heard_step hs.1 hs.2
  · exact fun s op hs hnext => ⟨hs.1.step, hnext⟩

theorem thirty_pos : (0 : ℚ) < 30 := by norm_num

/-- Half a minute. -/
def halfMinute : Window := ⟨30, thirty_pos⟩

/-- Two changes: the second is dropped on the key of the first, whose publish fails after that.  No evaluation starts,
and the publish of the second change never failed. -/
theorem dropped_lost : ¬ ∀ (now : ℚ) (ops : List DebounceOp), (run step (start now) ops).Heard := by
  intro hall
  have hrun : run step (start 0)
      [.commit halfMinute, .add 0, .commit halfMinute, .add 1, .publish 0 true, .delete 0] =
        { now := 0, calls := [.failed, .dropped] } := by
    simp [step, add, publish, delete, Debouncer.start, setCall, claimed, halfMinute]
  have hheard := hall 0 [.commit halfMinute, .add 0, .commit halfMinute, .add 1, .publish 0 true, .delete 0]
  rw [hrun] at hheard
  have hquiet : Quiet { now := 0, calls := [.failed, .dropped] } := by
    refine ⟨rfl, fun i call hi => ?_⟩
    rcases List.mem_pair.mp (List.mem_of_getElem? hi) with rfl | rfl <;> rfl
  rcases hheard hquiet .dropped rfl with h | h <;> cases h

end Debouncer

end Waldur.Policies
