import Mathlib
import Waldur.Lib.Runs
import Waldur.Invoices.CreditLedger

/-!
# Invoices.Allocation — the guard of `ProjectCredit.save`

`ProjectCredit.save` is meant to keep the project credits of an organization within the organization
credit.  The compared total is the sum of the other allocations where that is not zero, and the saved
value only where it is: `agg["sum"] or 0 + self.value`.

* `totalValue_eq`: the compared total.
* `saved_iff`: exactly when a save goes through.
* `AllocationGuardExact`: the inputs on which that is the intended comparison.
* `run_allocated_le`: over saves that meet it, the allocations stay within the organization credit.
-/

namespace Waldur.Invoices

open Relational Runs

/-- Sum of the project credits of the organization other than `project`'s. -/
def Db.othersSum (db : Db) (project : Project) : ℚ := ((db.otherProjectCredits project).map (·.value)).sum

/-- Sum of the project credits of an organization. -/
def Db.allocated (db : Db) (customer : ℕ) : ℚ := ((db.customerProjectCredits customer).map (·.value)).sum

/-- `ProjectCredit.save()`: a stored credit is updated, another one inserted. -/
def Db.projectCreditSave (db : Db) (st : LedgerState) (pc : Loaded ProjectCredit) (fields : UpdateFields) :
    Except ValidationError Db :=
  match h : db.projectCredits.get? pc.obj.project with
  | none => db.createProjectCredit st pc.obj h
  | some _ => db.saveProjectCredit st pc fields

/-- The columns a save of this instance writes: all of them for an insert. -/
def Db.fieldsWritten (db : Db) (pc : ProjectCredit) (fields : UpdateFields) : UpdateFields :=
  if (db.projectCredits.get? pc.project).isSome then fields else .all

/-! ## The compared total -/

theorem sumOr_aggregateSum (values : List ℚ) (value : ℚ) :
    sumOr (aggregateSum values) value = if values.sum = 0 then value else values.sum := by
  unfold aggregateSum
  by_cases h : values = []
  · subst h
    simp [sumOr]
  · rw [if_neg h]
    simp [sumOr]

/-- **The compared total** is not the new sum of the allocations. -/
theorem Db.totalValue_eq (db : Db) (pc : ProjectCredit) :
    db.totalValue pc = if db.othersSum pc.project = 0 then pc.value else db.othersSum pc.project :=
  sumOr_aggregateSum _ _

/-! ## When a save goes through -/

/-- The check of `BaseCredit.save` passes. -/
def EndDateAccepted (fields : UpdateFields) (c : BaseCredit) : Prop := c.checkEndDate fields = .ok ()

instance (fields : UpdateFields) (c : BaseCredit) : Decidable (EndDateAccepted fields c) :=
  inferInstanceAs (Decidable (_ = _))

theorem checkAllocation_eq_ok {db : Db} {pc : ProjectCredit} :
    db.checkAllocation pc = .ok () ↔
      ∃ cc, db.customerCredit? pc.project.customer = some cc ∧ db.totalValue pc ≤ cc.value := by
  unfold Db.checkAllocation
  cases h : db.customerCredit? pc.project.customer with
  | none => simp
  | some cc =>
    by_cases hlt : cc.value < db.totalValue pc
    · simp [hlt]
    · simp [hlt, not_lt.mp hlt]

theorem saveProjectCredit_eq_ok {db db' : Db} {st : LedgerState} {pc : Loaded ProjectCredit}
    {fields : UpdateFields} :
    db.saveProjectCredit st pc fields = .ok db' ↔
      db.checkAllocation pc.obj = .ok () ∧ EndDateAccepted fields pc.obj.toBaseCredit ∧
        db' = db.writeProjectCredit st pc fields := by
  unfold Db.saveProjectCredit EndDateAccepted
  cases db.checkAllocation pc.obj with
  | error e => simp [bind, Except.bind]
  | ok u =>
    cases pc.obj.toBaseCredit.checkEndDate fields with
    | error e => simp [bind, Except.bind]
    | ok u' => simp [bind, Except.bind, pure, Except.pure, eq_comm]

theorem createProjectCredit_eq_ok {db db' : Db} {st : LedgerState} {pc : ProjectCredit}
    {h : db.projectCredits.get? pc.project = none} (hok : db.createProjectCredit st pc h = .ok db') :
    db'.projectCredits = db.projectCredits.insert pc h ∧ db'.customerCredits = db.customerCredits := by
  unfold Db.createProjectCredit at hok
  cases hc : db.checkAllocation pc with
  | error e => simp [hc, bind, Except.bind] at hok
  | ok u =>
    cases hd : pc.toBaseCredit.checkEndDate .all with
    | error e => simp [hc, hd, bind, Except.bind] at hok
    | ok u' =>
      simp only [hc, hd, bind, Except.bind, pure, Except.pure, Except.ok.injEq] at hok
      subst hok
      exact ⟨rfl, rfl⟩

theorem createProjectCredit_succeeds_iff {db : Db} {st : LedgerState} {pc : ProjectCredit}
    {h : db.projectCredits.get? pc.project = none} :
    (∃ db', db.createProjectCredit st pc h = .ok db') ↔
      db.checkAllocation pc = .ok () ∧ EndDateAccepted .all pc.toBaseCredit := by
  unfold Db.createProjectCredit EndDateAccepted
  cases db.checkAllocation pc with
  | error e => simp [bind, Except.bind]
  | ok u =>
    cases pc.toBaseCredit.checkEndDate .all with
    | error e => simp [bind, Except.bind]
    | ok u' => simp [bind, Except.bind, pure, Except.pure]

/-- The save goes through. -/
def Db.Saved (db : Db) (st : LedgerState) (pc : Loaded ProjectCredit) (fields : UpdateFields) : Prop :=
  ∃ db', db.projectCreditSave st pc fields = .ok db'

theorem saved_iff {db : Db} {st : LedgerState} {pc : Loaded ProjectCredit} {fields : UpdateFields}
    {cc : CustomerCredit} (hcc : db.customerCredit? pc.obj.project.customer = some cc) :
    db.Saved st pc fields ↔
      db.totalValue pc.obj ≤ cc.value ∧
        EndDateAccepted (db.fieldsWritten pc.obj fields) pc.obj.toBaseCredit := by
  have hcheck : db.checkAllocation pc.obj = .ok () ↔ db.totalValue pc.obj ≤ cc.value := by
    rw [checkAllocation_eq_ok, hcc]
    simp
  unfold Db.Saved Db.projectCreditSave Db.fieldsWritten
  split
  · next h =>
    rw [createProjectCredit_succeeds_iff, hcheck, h]
    simp
  · next r h =>
    rw [h]
    simp [saveProjectCredit_eq_ok, hcheck]

/-- **Where the guard is the intended one**: the other allocations sum to zero, or the saved value does
not move their sum across the organization credit.  Where the end date is refused, nothing may be
saved, which is what the guard should say. -/
def AllocationGuardExact (db : Db) (cc : CustomerCredit) (pc : ProjectCredit) (fields : UpdateFields) : Prop :=
  if EndDateAccepted (db.fieldsWritten pc fields) pc.toBaseCredit then
    db.othersSum pc.project = 0 ∨
      (db.othersSum pc.project ≤ cc.value ↔ db.othersSum pc.project + pc.value ≤ cc.value)
  else cc.value < db.othersSum pc.project + pc.value

theorem saved_iff_fits_iff {db : Db} {st : LedgerState} {pc : Loaded ProjectCredit} {fields : UpdateFields}
    {cc : CustomerCredit} (hcc : db.customerCredit? pc.obj.project.customer = some cc) :
    (db.Saved st pc fields ↔ db.othersSum pc.obj.project + pc.obj.value ≤ cc.value) ↔
      AllocationGuardExact db cc pc.obj fields := by
  rw [saved_iff hcc, db.totalValue_eq]
  unfold AllocationGuardExact
  by_cases hd : EndDateAccepted (db.fieldsWritten pc.obj fields) pc.obj.toBaseCredit
  · by_cases h0 : db.othersSum pc.obj.project = 0
    · simp [hd, h0]
    · simp [hd, h0]
  · simp [hd]

/-! ## The allocations after a save -/

theorem allocated_of_stored {db : Db} {p : Project} {stored : ProjectCredit}
    (h : db.projectCredit? p = some stored) :
    db.allocated p.customer = db.othersSum p + stored.value := by
  obtain ⟨-, hk⟩ := Table.get?_eq_some.mp h
  have hsplit := db.projectCredits.sumWhere_eq_add h (fun pc => pc.project.customer == p.customer)
    (by simp [hk]) (·.value)
  refine hsplit.trans ?_
  unfold Db.othersSum Db.otherProjectCredits Table.sumWhere
  simp [bne, beq_eq_decide]

theorem allocated_of_not_stored {db : Db} {p : Project} (h : db.projectCredit? p = none) :
    db.allocated p.customer = db.othersSum p := by
  refine (db.projectCredits.sumWhere_eq_of_none h (fun pc => pc.project.customer == p.customer)
    (·.value)).trans ?_
  unfold Db.othersSum Db.otherProjectCredits Table.sumWhere
  simp [bne, beq_eq_decide]

theorem allocated_writeProjectCredit {db : Db} {st : LedgerState} {pc : Loaded ProjectCredit}
    {fields : UpdateFields} {stored : ProjectCredit} (h : db.projectCredit? pc.obj.project = some stored)
    (c : ℕ) :
    (db.writeProjectCredit st pc fields).allocated c = db.allocated c +
      if pc.obj.project.customer = c ∧ fields.writesValue then pc.obj.value - stored.value else 0 := by
  obtain ⟨-, hk⟩ := Table.get?_eq_some.mp h
  refine (db.projectCredits.sumWhere_update h (ProjectCredit.overwrite fields pc.obj) (fun _ => rfl)
    (fun r => r.project.customer == c) rfl (·.value)).trans ?_
  have hv : (ProjectCredit.overwrite fields pc.obj stored).value =
      if fields.writesValue then pc.obj.value else stored.value := merge_value _ _ _
  rw [hv, hk]
  by_cases hc : pc.obj.project.customer = c <;> by_cases hf : fields.writesValue = true <;>
    simp [hc, hf, Db.allocated, Db.customerProjectCredits, Table.sumWhere]

theorem allocated_create {db db' : Db} {st : LedgerState} {pc : ProjectCredit}
    {h : db.projectCredits.get? pc.project = none} (hok : db.createProjectCredit st pc h = .ok db') (c : ℕ) :
    db'.allocated c = db.allocated c + if pc.project.customer = c then pc.value else 0 := by
  unfold Db.allocated Db.customerProjectCredits
  rw [(createProjectCredit_eq_ok hok).1]
  refine (db.projectCredits.sumWhere_insert pc h (fun r => r.project.customer == c) (·.value)).trans ?_
  simp [Table.sumWhere]

/-- What a save that goes through does to the allocations of every organization. -/
theorem allocated_projectCreditSave {db db' : Db} {st : LedgerState} {pc : Loaded ProjectCredit}
    {fields : UpdateFields} (hok : db.projectCreditSave st pc fields = .ok db') :
    db'.customerCredits = db.customerCredits ∧
      (∀ c, c ≠ pc.obj.project.customer → db'.allocated c = db.allocated c) ∧
      (db'.allocated pc.obj.project.customer = db.othersSum pc.obj.project + pc.obj.value ∨
        db'.allocated pc.obj.project.customer = db.allocated pc.obj.project.customer) := by
  unfold Db.projectCreditSave at hok
  split at hok
  · next h =>
    refine ⟨(createProjectCredit_eq_ok hok).2, fun c hc => ?_, Or.inl ?_⟩
    · rw [allocated_create hok, if_neg (fun h' => hc h'.symm), add_zero]
    · rw [allocated_create hok, if_pos rfl, allocated_of_not_stored h]
  · next stored h =>
    obtain ⟨-, -, rfl⟩ := saveProjectCredit_eq_ok.mp hok
    refine ⟨rfl, fun c hc => ?_, ?_⟩
    · rw [allocated_writeProjectCredit h, if_neg (fun h' => hc h'.1.symm), add_zero]
    · rw [allocated_writeProjectCredit h]
      by_cases hf : fields.writesValue = true
      · left
        rw [if_pos ⟨rfl, hf⟩, allocated_of_stored h]
        ring
      · right
        rw [if_neg (fun h' => hf h'.2), add_zero]

/-! ## Runs of saves -/

/-- One `ProjectCredit.save()` call. -/
structure SaveCall where
  ledger : LedgerState
  credit : Loaded ProjectCredit
  fields : UpdateFields

/-- A refused save leaves the database as it was. -/
def Db.applySave (db : Db) (call : SaveCall) : Db :=
  match db.projectCreditSave call.ledger call.credit call.fields with
  | .ok db' => db'
  | .error _ => db

/-- No organization has allocated more than its credit. -/
def Db.AllocationsWithin (db : Db) : Prop :=
  ∀ c cc, db.customerCredit? c = some cc → db.allocated c ≤ cc.value

/-- The save meets `AllocationGuardExact` at this database. -/
def SaveCall.GuardExact (db : Db) (call : SaveCall) : Prop :=
  ∀ cc, db.customerCredit? call.credit.obj.project.customer = some cc →
    AllocationGuardExact db cc call.credit.obj call.fields

theorem allocationsWithin_applySave {db : Db} {call : SaveCall} (hw : db.AllocationsWithin)
    (hg : call.GuardExact db) : (db.applySave call).AllocationsWithin := by
  unfold Db.applySave
  cases hok : db.projectCreditSave call.ledger call.credit call.fields with
  | error e => exact hw
  | ok db' =>
    obtain ⟨hcc, hother, hself⟩ := allocated_projectCreditSave hok
    intro c cc hc
    have hc' : db.customerCredit? c = some cc := by
      unfold Db.customerCredit? at hc ⊢
      rwa [hcc] at hc
    by_cases hcust : c = call.credit.obj.project.customer
    · subst hcust
      rcases hself with h | h
      · rw [h]
        exact ((saved_iff_fits_iff hc').mpr (hg cc hc')).mp ⟨db', hok⟩
      · rw [h]
        exact hw _ cc hc'
    · rw [hother c hcust]
      exact hw c cc hc'

theorem run_customerCredits (db : Db) (calls : List SaveCall) :
    (run Db.applySave db calls).customerCredits = db.customerCredits := by
  have hstep : ∀ (s : Db) (call : SaveCall), s.customerCredits = db.customerCredits →
      (s.applySave call).customerCredits = db.customerCredits := by
    intro s call hs
    unfold Db.applySave
    split
    · next db' hok => exact (allocated_projectCreditSave hok).1.trans hs
    · exact hs
  exact run_invariant hstep calls db rfl

/-- The allocations stay within the organization credit over every run of saves whose guard is exact. -/
theorem run_allocated_le {db : Db} {calls : List SaveCall} (hw : db.AllocationsWithin)
    (hg : Along Db.applySave (fun db call => call.GuardExact db) db calls) :
    ∀ c cc, db.customerCredit? c = some cc → (run Db.applySave db calls).allocated c ≤ cc.value := by
  intro c cc hc
  have hrun := run_invariant_along (fun _ _ h h' => allocationsWithin_applySave h h') calls db hw hg
  refine hrun c cc ?_
  unfold Db.customerCredit? at hc ⊢
  rwa [run_customerCredits]

/-- What `ProjectCredit.save` is meant to do: go through if and only if the allocation fits in the
organization credit next to the others, and store nothing otherwise. -/
def SaveAsIntended (db : Db) (cc : CustomerCredit) (call : SaveCall) : Prop :=
  (db.Saved call.ledger call.credit call.fields ↔
    db.othersSum call.credit.obj.project + call.credit.obj.value ≤ cc.value) ∧
  (¬ db.othersSum call.credit.obj.project + call.credit.obj.value ≤ cc.value → db.applySave call = db)

/-- **The guard of `ProjectCredit.save`**: a save does what it is meant to do exactly where the guard is
the intended comparison, and over runs of such saves the allocations of an organization never exceed
its credit. -/
theorem projectCreditSave_asIntended_iff (db : Db) :
    (∀ (cc : CustomerCredit) (call : SaveCall),
      db.customerCredit? call.credit.obj.project.customer = some cc →
      (SaveAsIntended db cc call ↔ AllocationGuardExact db cc call.credit.obj call.fields)) ∧
    (∀ calls : List SaveCall, db.AllocationsWithin →
      Along Db.applySave (fun db call => call.GuardExact db) db calls →
      ∀ c cc, db.customerCredit? c = some cc → (run Db.applySave db calls).allocated c ≤ cc.value) := by
  refine ⟨fun cc call hcc => ?_, fun calls hw hg => run_allocated_le hw hg⟩
  have hiff : (db.Saved call.ledger call.credit call.fields ↔ _) ↔ _ := saved_iff_fits_iff hcc
  rw [← hiff]
  refine ⟨fun h => h.1, fun h => ⟨h, fun hfit => ?_⟩⟩
  have hnot : ¬ db.Saved call.ledger call.credit call.fields := fun hs => hfit (h.mp hs)
  unfold Db.applySave
  split
  · next db' hok => exact absurd ⟨db', hok⟩ hnot
  · rfl

/-- An organization with a credit of 100, of which 60 are allocated. -/
def partlyAllocated : Db :=
  { Db.empty with
    customerCredits := ⟨[{ customer := 1, value := 100 }], by simp⟩
    projectCredits := ⟨[{ project := ⟨10, 1⟩, value := 60 }], by simp⟩ }

/-- Allocating to a second project. -/
def allocateSecond (value : ℚ) : SaveCall := ⟨{}, ⟨{ project := ⟨11, 1⟩, value := value }, 0⟩, .all⟩

theorem partlyAllocated_othersSum (value : ℚ) :
    partlyAllocated.othersSum (allocateSecond value).credit.obj.project = 60 := by
  simp [Db.othersSum, Db.otherProjectCredits, partlyAllocated, allocateSecond]

theorem partlyAllocated_customerCredit {c : ℕ} {cc : CustomerCredit} :
    partlyAllocated.customerCredit? c = some cc ↔ c = 1 ∧ cc = { customer := 1, value := 100 } := by
  unfold Db.customerCredit?
  rw [Table.get?_eq_some]
  simp only [partlyAllocated, List.mem_singleton]
  constructor
  · rintro ⟨rfl, hc⟩
    exact ⟨hc.symm, rfl⟩
  · rintro ⟨rfl, rfl⟩
    exact ⟨rfl, rfl⟩

/-- A second allocation of 60 is accepted although 120 exceed the credit of 100. -/
theorem second_allocation_exceeds :
    ¬ SaveAsIntended partlyAllocated { customer := 1, value := 100 } (allocateSecond 60) := by
  intro h
  have hs : partlyAllocated.Saved {} (allocateSecond 60).credit .all := by
    rw [saved_iff (partlyAllocated_customerCredit.mpr ⟨rfl, rfl⟩), Db.totalValue_eq, partlyAllocated_othersSum]
    refine ⟨by norm_num, ?_⟩
    simp [EndDateAccepted, BaseCredit.checkEndDate, allocateSecond]
  have hfit := h.1.mp hs
  rw [partlyAllocated_othersSum] at hfit
  norm_num [allocateSecond] at hfit

/-- A second allocation of 40 fits, is accepted and keeps the sum within the credit. -/
theorem second_allocation_fits :
    SaveAsIntended partlyAllocated { customer := 1, value := 100 } (allocateSecond 40) ∧
      (run Db.applySave partlyAllocated [allocateSecond 40]).allocated 1 ≤ 100 := by
  have hcc := partlyAllocated_customerCredit.mpr ⟨rfl, rfl⟩
  have hg : AllocationGuardExact partlyAllocated { customer := 1, value := 100 }
      (allocateSecond 40).credit.obj (allocateSecond 40).fields := by
    unfold AllocationGuardExact
    rw [partlyAllocated_othersSum, if_pos (by simp [EndDateAccepted, BaseCredit.checkEndDate, allocateSecond])]
    right
    norm_num [allocateSecond]
  have hw : partlyAllocated.AllocationsWithin := by
    intro c cc hc
    obtain ⟨rfl, rfl⟩ := partlyAllocated_customerCredit.mp hc
    norm_num [Db.allocated, Db.customerProjectCredits, partlyAllocated]
  refine ⟨((projectCreditSave_asIntended_iff _).1 _ _ hcc).mpr hg,
    (projectCreditSave_asIntended_iff _).2 [allocateSecond 40] hw ⟨fun cc hc => ?_, trivial⟩ 1 _ hcc⟩
  obtain ⟨-, rfl⟩ := partlyAllocated_customerCredit.mp hc
  exact hg

end Waldur.Invoices
