import Mathlib
import Waldur.Lib.CalendarMonths
import Waldur.Lib.Clock
import Waldur.Lib.Runs
import Waldur.Lib.TableCounts

/-!
# Proposals.CallRounds — the rounds of a call

A round is open from its start to its cutoff, and the checks of the actions keep the rounds of a call from overlapping.
A round is closed at a second reading of the clock, which may be the start of the round or come after the cutoff: the
rounds stay apart in a run exactly if this moves no round into another one and leaves none empty (`apart_run_iff`).
Rounds created in bulk are created exactly if each ends before the next one starts, and none overlaps an older one
(`bulkCreateRounds_iff`).
-/

namespace Waldur.Proposals.CallRounds

open Relational Runs Clock Calendar

/-! ## The code -/

/-- A `Round`, with its times in microseconds. -/
structure Round where
  id : ℕ
  startTime : ℤ
  cutoffTime : ℤ
deriving DecidableEq

/-- The rounds of a call. -/
abbrev Rounds := Table ℕ Round Round.id

/-- The filter `start_time__lt=cutoff_time, cutoff_time__gt=start_time`. -/
def Overlaps (startTime cutoffTime : ℤ) (round : Round) : Prop :=
  round.startTime < cutoffTime ∧ startTime < round.cutoffTime

instance (startTime cutoffTime : ℤ) (round : Round) : Decidable (Overlaps startTime cutoffTime round) :=
  inferInstanceAs (Decidable (_ ∧ _))

/-- `objects.create`. -/
def create (rounds : Rounds) (startTime cutoffTime : ℤ) : Rounds :=
  rounds.add (fun id => ⟨id, startTime, cutoffTime⟩) fun _ => rfl

/-- `ProtectedRoundSerializer.validate`, of a new round or of the one with the given id. -/
def isValid (rounds : Rounds) (own : Option ℕ) (startTime cutoffTime : ℤ) : Bool :=
  decide (startTime < cutoffTime) &&
    !rounds.rows.any fun round => decide (Overlaps startTime cutoffTime round) && decide (some round.id ≠ own)

/-- The action `rounds` with a count: each round starts at the end of the last, and one that is refused leaves those
before it. -/
def repeatRounds : ℕ → Rounds → ℤ → ℤ → Rounds
  | 0, rounds, _, _ => rounds
  | n + 1, rounds, startTime, cutoffTime =>
    if isValid rounds none startTime cutoffTime then
      repeatRounds n (create rounds startTime cutoffTime) cutoffTime (cutoffTime + (cutoffTime - startTime))
    else rounds

/-- What `bulk_create_rounds` raises. -/
inductive BulkError
  | overlaps (number : ℕ)
  | outOfRange

/-- The request of `bulk_create_rounds`: the start as a date and a time of the day. -/
structure BulkRequest where
  startDate : Date
  time : ℤ
  intervalMonths : ℕ
  submissionWindowDays : ℕ
  numberOfRounds : ℕ
  year_pos : 1 ≤ startDate.year
  interval_pos : 0 < intervalMonths
  window_pos : 0 < submissionWindowDays

namespace BulkRequest

variable (request : BulkRequest)

/-- The day of `start_time + relativedelta(months=interval_months * i)`. -/
def startDay (i : ℕ) : ℕ := (request.startDate.addMonths (request.intervalMonths * i)).toOrdinal

def startTime (i : ℕ) : ℤ := request.startDay i * dayLength + request.time

def cutoffTime (i : ℕ) : ℤ := request.startTime i + request.submissionWindowDays * dayLength

/-- The last day of a date. -/
def maxDay : ℕ := 3652059

/-- The loop from the `i`-th round on, with the number of rounds that are left. -/
def createFrom : ℕ → ℕ → Rounds → Except BulkError Rounds
  | _, 0, rounds => .ok rounds
  | i, n + 1, rounds =>
    if maxDay < request.startDay i + request.submissionWindowDays then .error .outOfRange
    else if rounds.rows.any fun round => decide (Overlaps (request.startTime i) (request.cutoffTime i) round) then
      .error (.overlaps (i + 1))
    else createFrom (i + 1) n (create rounds (request.startTime i) (request.cutoffTime i))

end BulkRequest

/-- `bulk_create_rounds`. -/
def bulkCreateRounds (rounds : Rounds) (request : BulkRequest) : Except BulkError Rounds :=
  request.createFrom 0 request.numberOfRounds rounds

/-- `_import_rounds`, of a document with the times of the rounds; `none` is a `ValidationError`. -/
def importRounds : List (ℤ × ℤ) → Rounds → Option Rounds
  | [], rounds => some rounds
  | (startTime, cutoffTime) :: document, rounds =>
    if isValid rounds none startTime cutoffTime then importRounds document (create rounds startTime cutoffTime)
    else none

/-- The actions on the rounds of a call; `close` with the two readings of the clock.  Those that the state of the call
or the proposals of a round refuse are not among them. -/
inductive Op
  | create (startTime cutoffTime : ℤ)
  | repeated (count : ℕ) (startTime cutoffTime : ℤ)
  | bulk (request : BulkRequest)
  | update (id : ℕ) (startTime cutoffTime : Option ℤ)
  | delete (id : ℕ)
  | close (id : ℕ) (now later : ℤ)

/-- The rounds with new times of one of them. -/
def setTimes (rounds : Rounds) (id : ℕ) (startTime cutoffTime : ℤ) : Rounds :=
  rounds.update id (fun round => { round with startTime := startTime, cutoffTime := cutoffTime }) fun _ => rfl

/-- One action; what is refused or raises changes nothing, as an update without one of the times does. -/
def step (rounds : Rounds) : Op → Rounds
  | .create startTime cutoffTime =>
    if isValid rounds none startTime cutoffTime then create rounds startTime cutoffTime else rounds
  | .repeated count startTime cutoffTime => repeatRounds count rounds startTime cutoffTime
  | .bulk request =>
    match bulkCreateRounds rounds request with
    | .ok rounds => rounds
    | .error _ => rounds
  | .update id startTime cutoffTime =>
    match startTime, cutoffTime with
    | some startTime, some cutoffTime =>
      if isValid rounds (some id) startTime cutoffTime then setTimes rounds id startTime cutoffTime else rounds
    | _, _ => rounds
  | .delete id => rounds.filter fun round => decide (round.id ≠ id)
  | .close id now later =>
    match rounds.get? id with
    | none => rounds
    | some round =>
      if round.startTime ≤ now ∧ now ≤ round.cutoffTime then setTimes rounds id round.startTime later else rounds

/-! ## Apart -/

/-- No round is empty, and none overlaps another one. -/
structure Apart (rounds : Rounds) : Prop where
  proper : ∀ round ∈ rounds.rows, round.startTime < round.cutoffTime
  apart : ∀ round ∈ rounds.rows, ∀ round' ∈ rounds.rows, round.id ≠ round'.id →
    ¬ Overlaps round.startTime round.cutoffTime round'

variable {rounds : Rounds} {startTime cutoffTime : ℤ} {id : ℕ}

theorem isValid_iff {own : Option ℕ} : isValid rounds own startTime cutoffTime = true ↔
    startTime < cutoffTime ∧
      ∀ round ∈ rounds.rows, some round.id ≠ own → ¬ Overlaps startTime cutoffTime round := by
  unfold isValid
  rw [Bool.and_eq_true, decide_eq_true_iff, Bool.not_eq_true', List.any_eq_false]
  refine and_congr_right' (forall₂_congr fun round _ => ?_)
  rw [Bool.and_eq_true, decide_eq_true_iff, decide_eq_true_iff]
  exact ⟨fun h hne hover => h ⟨hover, hne⟩, fun h hboth => h hboth.2 hboth.1⟩

/-- A new round keeps the rounds apart if it is not empty and overlaps none. -/
theorem Apart.create (h : Apart rounds) (hproper : startTime < cutoffTime)
    (hnew : ∀ round ∈ rounds.rows, ¬ Overlaps startTime cutoffTime round) :
    Apart (create rounds startTime cutoffTime) := by
  have hrows : (CallRounds.create rounds startTime cutoffTime).rows =
      rounds.rows ++ [⟨rounds.freshId, startTime, cutoffTime⟩] := Table.rows_add
  constructor
  · intro round hround
    rw [hrows] at hround
    rcases List.mem_append.mp hround with hold | hself
    · exact h.proper round hold
    · rw [List.mem_singleton.mp hself]
      exact hproper
  · intro round hround round' hround' hne
    rw [hrows] at hround hround'
    rcases List.mem_append.mp hround with hold | hself
    · rcases List.mem_append.mp hround' with hold' | hself'
      · exact h.apart round hold round' hold' hne
      · rw [List.mem_singleton.mp hself']
        exact fun hover => hnew round hold ⟨hover.2, hover.1⟩
    · rcases List.mem_append.mp hround' with hold' | hself'
      · rw [List.mem_singleton.mp hself]
        exact hnew round' hold'
      · rw [List.mem_singleton.mp hself, List.mem_singleton.mp hself'] at hne
        exact absurd rfl hne

/-- New times keep the rounds apart exactly if they are no empty round and overlap no other round. -/
theorem Apart.setTimes_iff (h : Apart rounds) {round : Round} (hget : rounds.get? id = some round) :
    Apart (setTimes rounds id startTime cutoffTime) ↔ startTime < cutoffTime ∧
      ∀ round' ∈ rounds.rows, round'.id ≠ id → ¬ Overlaps startTime cutoffTime round' := by
  obtain ⟨hround, rfl⟩ := Table.get?_eq_some.mp hget
  have hself : ({ round with startTime := startTime, cutoffTime := cutoffTime } : Round) ∈
      (setTimes rounds round.id startTime cutoffTime).rows := Table.mem_update.mpr ⟨round, hround, by rw [if_pos rfl]⟩
  have hother : ∀ round' ∈ rounds.rows, round'.id ≠ round.id →
      round' ∈ (setTimes rounds round.id startTime cutoffTime).rows := fun round' hround' hne =>
    Table.mem_update.mpr ⟨round', hround', by rw [if_neg hne]⟩
  have hrows : ∀ round' ∈ (setTimes rounds round.id startTime cutoffTime).rows,
      round' = { round with startTime := startTime, cutoffTime := cutoffTime } ∨
        round' ∈ rounds.rows ∧ round'.id ≠ round.id := by
    intro round' hround'
    obtain ⟨old, hold, heq⟩ := Table.mem_update.mp hround'
    split at heq
    · next hid =>
      obtain rfl := rounds.eq_of_key_eq hold hround hid
      exact Or.inl heq
    · next hid =>
      subst heq
      exact Or.inr ⟨hold, hid⟩
  constructor
  · intro hafter
    refine ⟨hafter.proper _ hself, fun round' hround' hne => ?_⟩
    exact hafter.apart _ hself round' (hother round' hround' hne) (Ne.symm hne)
  · rintro ⟨hproper, hnew⟩
    constructor
    · intro round' hround'
      rcases hrows round' hround' with rfl | ⟨hold, -⟩
      · exact hproper
      · exact h.proper round' hold
    · intro round' hround' round'' hround'' hne
      rcases hrows round' hround' with rfl | ⟨hold, hid⟩
      · rcases hrows round'' hround'' with rfl | ⟨hold', hid'⟩
        · exact absurd rfl hne
        · exact hnew round'' hold' hid'
      · rcases hrows round'' hround'' with rfl | ⟨hold', hid'⟩
        · exact fun hover => hnew round' hold hid ⟨hover.2, hover.1⟩
        · exact h.apart round' hold round'' hold' hne

theorem Apart.repeatRounds : ∀ (n : ℕ) {rounds : Rounds} {startTime cutoffTime : ℤ}, Apart rounds →
    Apart (repeatRounds n rounds startTime cutoffTime)
  | 0, _, _, _, h => h
  | n + 1, rounds, startTime, cutoffTime, h => by
    unfold CallRounds.repeatRounds
    split
    · next hvalid =>
      obtain ⟨hproper, hnew⟩ := isValid_iff.mp hvalid
      exact Apart.repeatRounds n (h.create hproper fun round hround => hnew round hround (Option.some_ne_none _))
    · exact h

theorem Apart.importRounds : ∀ {document : List (ℤ × ℤ)} {rounds rounds' : Rounds},
    importRounds document rounds = some rounds' → Apart rounds → Apart rounds'
  | [], _, _, h, hapart => Option.some.inj h ▸ hapart
  | (startTime, cutoffTime) :: document, rounds, rounds', h, hapart => by
    unfold CallRounds.importRounds at h
    split at h
    · next hvalid =>
      obtain ⟨hproper, hnew⟩ := isValid_iff.mp hvalid
      exact Apart.importRounds h (hapart.create hproper fun round hround => hnew round hround (Option.some_ne_none _))
    · exact nomatch h

/-! ## Rounds in bulk -/

section Bulk

variable {request : BulkRequest}

namespace BulkRequest

theorem startTime_strictMono : StrictMono request.startTime := by
  intro i j hij
  have hmonths : request.intervalMonths * i < request.intervalMonths * j :=
    Nat.mul_lt_mul_of_pos_left hij request.interval_pos
  have hday : request.startDay i < request.startDay j :=
    Date.toOrdinal_lt_of_lt (Date.one_le_year_addMonths request.year_pos _) (Date.addMonths_lt _ hmonths)
  unfold startTime dayLength
  omega

theorem startTime_lt_cutoffTime (request : BulkRequest) (i : ℕ) : request.startTime i < request.cutoffTime i := by
  have hwindow := request.window_pos
  unfold cutoffTime dayLength
  omega

/-- The times of a list of rounds. -/
def times (rounds : Rounds) : List (ℤ × ℤ) := rounds.rows.map fun round => (round.startTime, round.cutoffTime)

/-- **The rounds are created** exactly if their times are ones of the calendar, none overlaps an older round, and each
ends before the next one starts. -/
theorem createFrom_iff (request : BulkRequest) : ∀ (n i : ℕ) (rounds : Rounds),
    (∃ rounds', request.createFrom i n rounds = .ok rounds') ↔
    (∀ k < n, request.startDay (i + k) + request.submissionWindowDays ≤ maxDay) ∧
      (∀ k < n, ∀ round ∈ rounds.rows, ¬ Overlaps (request.startTime (i + k)) (request.cutoffTime (i + k)) round) ∧
        ∀ k, k + 1 < n → request.cutoffTime (i + k) ≤ request.startTime (i + (k + 1))
  | 0, i, rounds => ⟨fun _ => ⟨nofun, nofun, nofun⟩, fun _ => ⟨rounds, rfl⟩⟩
  | n + 1, i, rounds => by
    have hshift (k : ℕ) : i + 1 + k = i + (k + 1) := by omega
    have hfirst (k : ℕ) : Overlaps (request.startTime (i + (k + 1))) (request.cutoffTime (i + (k + 1)))
        ⟨rounds.freshId, request.startTime i, request.cutoffTime i⟩ ↔
          ¬ request.cutoffTime i ≤ request.startTime (i + (k + 1)) := by
      have hmono : request.startTime i < request.startTime (i + (k + 1)) := startTime_strictMono (by omega)
      have hproper := request.startTime_lt_cutoffTime (i + (k + 1))
      rw [not_le]
      exact ⟨fun h => h.2, fun h => ⟨hmono.trans hproper, h⟩⟩
    unfold createFrom
    split
    · next hrange =>
      refine iff_of_false (fun ⟨_, h⟩ => nomatch h) fun hall => ?_
      exact absurd (hall.1 0 (Nat.succ_pos n)) (not_le.mpr hrange)
    next hrange =>
      split
      · next hover =>
        obtain ⟨round, hround, h⟩ := List.any_eq_true.mp hover
        refine iff_of_false (fun ⟨_, h⟩ => nomatch h) fun hall => ?_
        exact absurd (of_decide_eq_true h) (hall.2.1 0 (Nat.succ_pos n) round hround)
      next hover =>
        rw [createFrom_iff request n (i + 1)]
        have hfree : ∀ round ∈ rounds.rows, ¬ Overlaps (request.startTime i) (request.cutoffTime i) round :=
          fun round hround h => hover (List.any_eq_true.mpr ⟨round, hround, decide_eq_true h⟩)
        have hrows : (create rounds (request.startTime i) (request.cutoffTime i)).rows =
            rounds.rows ++ [⟨rounds.freshId, request.startTime i, request.cutoffTime i⟩] := Table.rows_add
        rw [hrows]
        simp only [hshift]
        constructor
        · rintro ⟨hdays, hold, hnext⟩
          refine ⟨fun k hk => ?_, fun k hk round hround => ?_, fun k hk => ?_⟩
          · cases k with
            | zero => exact not_lt.mp hrange
            | succ k => exact hdays k (Nat.lt_of_succ_lt_succ hk)
          · cases k with
            | zero => exact hfree round hround
            | succ k => exact hold k (Nat.lt_of_succ_lt_succ hk) round (List.mem_append_left _ hround)
          · cases k with
            | zero =>
              have hself := hold 0 (Nat.lt_of_succ_lt_succ hk) _ (List.mem_append_right _ List.mem_cons_self)
              exact not_not.mp (mt (hfirst 0).mpr hself)
            | succ k => exact hnext k (Nat.lt_of_succ_lt_succ hk)
        · rintro ⟨hdays, hold, hnext⟩
          refine ⟨fun k hk => hdays (k + 1) (Nat.succ_lt_succ hk), fun k hk round hround => ?_,
            fun k hk => hnext (k + 1) (Nat.succ_lt_succ hk)⟩
          rcases List.mem_append.mp hround with hmem | hself
          · exact hold (k + 1) (Nat.succ_lt_succ hk) round hmem
          · rw [List.mem_singleton.mp hself, hfirst, not_not]
            -- the next round starts after the cutoff, and the later ones after it
            refine (hnext 0 (by omega)).trans (startTime_strictMono.monotone (by omega))

theorem times_createFrom (request : BulkRequest) : ∀ (n i : ℕ) {rounds rounds' : Rounds},
    request.createFrom i n rounds = .ok rounds' → times rounds' =
      times rounds ++ (List.range n).map fun k => (request.startTime (i + k), request.cutoffTime (i + k))
  | 0, i, rounds, rounds', h => by
    obtain rfl := Except.ok.inj h
    exact (List.append_nil _).symm
  | n + 1, i, rounds, rounds', h => by
    unfold createFrom at h
    split at h
    · exact nomatch h
    split at h
    · exact nomatch h
    rw [times_createFrom request n (i + 1) h, List.range_succ_eq_map, List.map_cons, List.map_map]
    have hcreate : times (create rounds (request.startTime i) (request.cutoffTime i)) =
        times rounds ++ [(request.startTime i, request.cutoffTime i)] := List.map_append
    have hshift : ((fun k => (request.startTime (i + k), request.cutoffTime (i + k))) ∘ Nat.succ) =
        fun k => (request.startTime (i + 1 + k), request.cutoffTime (i + 1 + k)) := by
      funext k
      simp only [Function.comp_apply, Nat.succ_eq_add_one, Nat.add_right_comm i 1 k, Nat.add_assoc]
    rw [hcreate, List.append_assoc, List.singleton_append, hshift]
    rfl

theorem apart_createFrom : ∀ (n i : ℕ) {rounds rounds' : Rounds}, request.createFrom i n rounds = .ok rounds' →
    Apart rounds → Apart rounds'
  | 0, _, _, _, h, hapart => Except.ok.inj h ▸ hapart
  | n + 1, i, rounds, rounds', h, hapart => by
    unfold createFrom at h
    split at h
    · exact nomatch h
    split at h
    · exact nomatch h
    next hover =>
      exact apart_createFrom n (i + 1) h (hapart.create (request.startTime_lt_cutoffTime i) fun round hround hmeets =>
        hover (List.any_eq_true.mpr ⟨round, hround, decide_eq_true hmeets⟩))

end BulkRequest

/-- **Rounds in bulk**: all of them or none; they are created exactly if their times are ones of the calendar, none
overlaps an older round, and each ends before the next one starts. -/
theorem bulkCreateRounds_iff (rounds : Rounds) (request : BulkRequest) :
    ((∃ rounds', bulkCreateRounds rounds request = .ok rounds') ↔
      (∀ k < request.numberOfRounds, request.startDay k + request.submissionWindowDays ≤ BulkRequest.maxDay) ∧
        (∀ k < request.numberOfRounds, ∀ round ∈ rounds.rows,
          ¬ Overlaps (request.startTime k) (request.cutoffTime k) round) ∧
        ∀ k, k + 1 < request.numberOfRounds → request.cutoffTime k ≤ request.startTime (k + 1)) ∧
    ∀ rounds', bulkCreateRounds rounds request = .ok rounds' → BulkRequest.times rounds' =
      BulkRequest.times rounds ++
        (List.range request.numberOfRounds).map fun k => (request.startTime k, request.cutoffTime k) := by
  have hiff := request.createFrom_iff request.numberOfRounds 0 rounds
  simp only [Nat.zero_add] at hiff
  refine ⟨hiff, fun rounds' h => ?_⟩
  have htimes := request.times_createFrom request.numberOfRounds 0 h
  simp only [Nat.zero_add] at htimes
  exact htimes

end Bulk

/-! ## Runs -/

/-- A round that is closed keeps a length and overlaps no other one. -/
def CloseKeeps (rounds : Rounds) : Op → Prop
  | .close id now later => ∀ round, rounds.get? id = some round → round.startTime ≤ now ∧ now ≤ round.cutoffTime →
      round.startTime < later ∧
        ∀ round' ∈ rounds.rows, round'.id ≠ id → ¬ Overlaps round.startTime later round'
  | _ => True

/-- It does if it is closed after its start and before its cutoff. -/
theorem closeKeeps_of_open (h : Apart rounds) {id : ℕ} {now later : ℤ}
    (hopen : ∀ round, rounds.get? id = some round → round.startTime < later ∧ later ≤ round.cutoffTime) :
    CloseKeeps rounds (.close id now later) := by
  intro round hget _
  obtain ⟨hstart, hlater⟩ := hopen round hget
  obtain ⟨hround, rfl⟩ := Table.get?_eq_some.mp hget
  refine ⟨hstart, fun round' hround' hne hover => ?_⟩
  exact h.apart round hround round' hround' (Ne.symm hne) ⟨hover.1.trans_le hlater, hover.2⟩

/-- **One action.** -/
theorem apart_step_iff (h : Apart rounds) (op : Op) : Apart (step rounds op) ↔ CloseKeeps rounds op := by
  cases op with
  | create startTime cutoffTime =>
    refine iff_of_true ?_ trivial
    dsimp only [step]
    split
    · next hvalid =>
      obtain ⟨hproper, hnew⟩ := isValid_iff.mp hvalid
      exact h.create hproper fun round hround => hnew round hround (Option.some_ne_none _)
    · exact h
  | repeated count startTime cutoffTime => exact iff_of_true (h.repeatRounds count) trivial
  | bulk request =>
    refine iff_of_true ?_ trivial
    dsimp only [step]
    split
    · next rounds' hok => exact BulkRequest.apart_createFrom request.numberOfRounds 0 hok h
    · exact h
  | update id startTime cutoffTime =>
    refine iff_of_true ?_ trivial
    dsimp only [step]
    split
    · next startTime cutoffTime =>
      split
      · next hvalid =>
        obtain ⟨hproper, hnew⟩ := isValid_iff.mp hvalid
        cases hget : rounds.get? id with
        | none =>
          unfold setTimes
          rw [Table.update_of_none hget]
          exact h
        | some round =>
          exact (h.setTimes_iff hget).mpr ⟨hproper, fun round' hround' hne =>
            hnew round' hround' fun heq => hne (Option.some.inj heq)⟩
      · exact h
    · exact h
  | delete id =>
    refine iff_of_true ⟨fun round hround => h.proper round (List.mem_of_mem_filter hround), ?_⟩ trivial
    exact fun round hround round' hround' =>
      h.apart round (List.mem_of_mem_filter hround) round' (List.mem_of_mem_filter hround')
  | close id now later =>
    dsimp only [step, CloseKeeps]
    cases hget : rounds.get? id with
    | none => exact iff_of_true h nofun
    | some round =>
      dsimp only
      split
      · next hopen =>
        rw [h.setTimes_iff hget]
        constructor
        · rintro hkeeps round' hround' -
          obtain rfl := Option.some.inj hround'
          exact hkeeps
        · intro hkeeps
          exact hkeeps round rfl hopen
      · next hopen =>
        refine iff_of_true h fun round' hround' hopen' => ?_
        obtain rfl := Option.some.inj hround'
        exact absurd hopen' hopen

theorem apart_runs_iff : ∀ (ops : List Op) {rounds : Rounds}, Apart rounds →
    ((∀ n, Apart (run step rounds (ops.take n))) ↔ Along step CloseKeeps rounds ops)
  | [], rounds, h => ⟨fun _ => trivial, fun _ n => by rw [List.take_nil]; exact h⟩
  | op :: ops, rounds, h => by
    rw [along_cons]
    constructor
    · intro hall
      have hstep : Apart (step rounds op) := hall 1
      exact ⟨(apart_step_iff h op).mp hstep, (apart_runs_iff ops hstep).mp fun n => hall (n + 1)⟩
    · rintro ⟨hkeeps, hrest⟩ n
      have hstep := (apart_step_iff h op).mpr hkeeps
      cases n with
      | zero => exact h
      | succ n => exact (apart_runs_iff ops hstep).mpr hrest n

/-- **The rounds of a call stay apart**, new or imported, through a run exactly if each round that is closed keeps a
length and is not moved into another one. -/
theorem apart_run_iff (document : List (ℤ × ℤ)) (rounds : Rounds)
    (himport : importRounds document Table.empty = some rounds) (ops : List Op) :
    (∀ n, Apart (run step rounds (ops.take n))) ↔ Along step CloseKeeps rounds ops :=
  apart_runs_iff ops (Apart.importRounds himport
    ⟨fun _ h => absurd h List.not_mem_nil, fun _ h => absurd h List.not_mem_nil⟩)

/-- A round is closed one moment after its cutoff, when the next one has started. -/
theorem apart_run_late : ¬ ∀ n, Apart (run step ⟨[⟨1, 0, 10⟩, ⟨2, 10, 20⟩], by decide⟩ ([.close 1 10 11].take n)) :=
  (apart_run_iff [(0, 10), (10, 20)] ⟨[⟨1, 0, 10⟩, ⟨2, 10, 20⟩], by decide⟩ rfl [.close 1 10 11]).not.mpr fun h =>
    (h.1 ⟨1, 0, 10⟩ rfl (by decide)).2 ⟨2, 10, 20⟩ (by decide) (by decide) (by decide)

end Waldur.Proposals.CallRounds
