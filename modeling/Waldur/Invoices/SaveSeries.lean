import Mathlib
import Waldur.Invoices.Allocation

/-!
# Invoices.SaveSeries — project credits saved one after another

The compensation run, its roll-back and the linear update save several project credits in a row, each
save checked against what the ones before it wrote.  `saveProjectCredits_eq_ok` separates the two: the
series goes through if every check passes, and then it is the series of writes.
-/

namespace Waldur.Invoices

open Relational

/-- The writes of a series of saves. -/
def Db.writeProjectCredits (db : Db) (st : LedgerState) (L : List (Loaded ProjectCredit))
    (fields : UpdateFields) : Db :=
  L.foldl (fun db pc => db.writeProjectCredit st pc fields) db

/-- A series of saves. -/
def Db.saveProjectCredits (db : Db) (st : LedgerState) (L : List (Loaded ProjectCredit))
    (fields : UpdateFields) : Except ValidationError Db :=
  L.foldlM (fun db pc => db.saveProjectCredit st pc fields) db

section Series

variable {st : LedgerState} {fields : UpdateFields}

theorem writeProjectCredits_cons (db : Db) (pc : Loaded ProjectCredit) (L : List (Loaded ProjectCredit)) :
    db.writeProjectCredits st (pc :: L) fields =
      (db.writeProjectCredit st pc fields).writeProjectCredits st L fields := rfl

theorem writeProjectCredits_customerCredits : ∀ (L : List (Loaded ProjectCredit)) (db : Db),
    (db.writeProjectCredits st L fields).customerCredits = db.customerCredits
  | [], _ => rfl
  | _ :: L, _ => writeProjectCredits_customerCredits L _

theorem writeProjectCredits_invoices : ∀ (L : List (Loaded ProjectCredit)) (db : Db),
    (db.writeProjectCredits st L fields).invoices = db.invoices
  | [], _ => rfl
  | _ :: L, _ => writeProjectCredits_invoices L _

theorem endDateAccepted_of_not_written (hf : fields.writesEndDate = false) (c : BaseCredit) :
    EndDateAccepted fields c := by
  unfold EndDateAccepted BaseCredit.checkEndDate
  simp [hf]

/-- **A series of saves** goes through if every check passes at the writes before it. -/
theorem saveProjectCredits_eq_ok (hf : fields.writesEndDate = false) :
    ∀ (L : List (Loaded ProjectCredit)) (db db' : Db), db.saveProjectCredits st L fields = .ok db' ↔
      (∀ l₁ pc l₂, L = l₁ ++ pc :: l₂ →
        (db.writeProjectCredits st l₁ fields).checkAllocation pc.obj = .ok ()) ∧
      db' = db.writeProjectCredits st L fields
  | [], db, db' => by
    unfold Db.saveProjectCredits Db.writeProjectCredits
    simp [pure, Except.pure, eq_comm]
  | pc :: L, db, db' => by
    have hstep : db.saveProjectCredits st (pc :: L) fields =
        (db.saveProjectCredit st pc fields).bind (fun db => db.saveProjectCredits st L fields) := rfl
    rw [hstep, Runs.forall_split_cons, writeProjectCredits_cons]
    cases hs : db.saveProjectCredit st pc fields with
    | error e =>
      refine ⟨nofun, fun h => ?_⟩
      have hok : db.saveProjectCredit st pc fields = .ok (db.writeProjectCredit st pc fields) :=
        saveProjectCredit_eq_ok.mpr ⟨h.1.1, endDateAccepted_of_not_written hf _, rfl⟩
      rw [hs] at hok
      cases hok
    | ok db₁ =>
      obtain ⟨hc, -, rfl⟩ := saveProjectCredit_eq_ok.mp hs
      have hc' : (db.writeProjectCredits st [] fields).checkAllocation pc.obj = .ok () := hc
      simp only [hc', true_and]
      exact saveProjectCredits_eq_ok hf L _ db'

/-! ## What a series of writes leaves -/

/-- A stored row after a series of writes. -/
def ProjectCredit.overwrittenBy (fields : UpdateFields) (L : List (Loaded ProjectCredit)) (pc : ProjectCredit) :
    ProjectCredit :=
  match L.find? (fun l => decide (l.obj.project = pc.project)) with
  | some l => ProjectCredit.overwrite fields l.obj pc
  | none => pc

@[simp] theorem overwrittenBy_project (L : List (Loaded ProjectCredit)) (pc : ProjectCredit) :
    (pc.overwrittenBy fields L).project = pc.project := by
  unfold ProjectCredit.overwrittenBy
  split <;> rfl

theorem overwrittenBy_of_not_mem {L : List (Loaded ProjectCredit)} {pc : ProjectCredit}
    (h : pc.project ∉ L.map (·.obj.project)) : pc.overwrittenBy fields L = pc := by
  have hnone : L.find? (fun l => decide (l.obj.project = pc.project)) = none := by
    refine List.find?_eq_none.mpr fun l hl hp => h ?_
    exact List.mem_map.mpr ⟨l, hl, by simpa using hp⟩
  unfold ProjectCredit.overwrittenBy
  rw [hnone]

theorem overwrittenBy_cons (l : Loaded ProjectCredit) (L : List (Loaded ProjectCredit)) (pc : ProjectCredit) :
    pc.overwrittenBy fields (l :: L) =
      if pc.project = l.obj.project then ProjectCredit.overwrite fields l.obj pc else pc.overwrittenBy fields L := by
  unfold ProjectCredit.overwrittenBy
  by_cases h : pc.project = l.obj.project
  · rw [if_pos h, List.find?_cons_of_pos (by simpa using h.symm)]
  · rw [if_neg h, List.find?_cons_of_neg (by simpa using fun h' => h h'.symm)]

/-- **A series of writes**, row by row. -/
theorem writeProjectCredits_rows : ∀ (L : List (Loaded ProjectCredit)) (db : Db),
    (L.map (·.obj.project)).Nodup → (db.writeProjectCredits st L fields).projectCredits.rows =
      db.projectCredits.rows.map (ProjectCredit.overwrittenBy fields L)
  | [], db, _ => (List.map_id' _).symm
  | l :: L, db, hnd => by
    rw [List.map_cons, List.nodup_cons] at hnd
    rw [writeProjectCredits_cons, writeProjectCredits_rows L _ hnd.2]
    show (db.projectCredits.rows.map _).map _ = _
    rw [List.map_map]
    refine List.map_congr_left fun pc _ => ?_
    rw [Function.comp_apply, overwrittenBy_cons]
    by_cases h : pc.project = l.obj.project
    · rw [if_pos h, if_pos h]
      refine overwrittenBy_of_not_mem fun hmem => hnd.1 ?_
      rw [← h]
      exact hmem
    · rw [if_neg h, if_neg h]

/-- The other project credits of the organization once the instances `L` are written. -/
def Db.othersAfter (db : Db) (L : List (Loaded ProjectCredit)) (p : Project) : ℚ :=
  ((db.otherProjectCredits p).map (fun pc => (pc.overwrittenBy .value L).value)).sum

theorem othersSum_writeProjectCredits {L : List (Loaded ProjectCredit)} {db : Db}
    (hnd : (L.map (·.obj.project)).Nodup) (p : Project) :
    (db.writeProjectCredits st L .value).othersSum p = db.othersAfter L p := by
  unfold Db.othersSum Db.othersAfter Db.otherProjectCredits
  rw [writeProjectCredits_rows L db hnd, List.filter_map, List.map_map]
  congr 2
  refine List.filter_congr fun pc _ => ?_
  simp only [Function.comp_apply, overwrittenBy_project]

theorem overwrittenBy_value_of_not_writesValue (hf : fields.writesValue = false)
    (L : List (Loaded ProjectCredit)) (pc : ProjectCredit) : (pc.overwrittenBy fields L).value = pc.value := by
  unfold ProjectCredit.overwrittenBy
  split
  · exact (merge_value fields _ _).trans (by rw [hf]; rfl)
  · rfl

/-- A series without the value column is checked against the stored values throughout. -/
theorem othersSum_writeProjectCredits_of_not_writesValue {L : List (Loaded ProjectCredit)} {db : Db}
    (hf : fields.writesValue = false) (hnd : (L.map (·.obj.project)).Nodup) (p : Project) :
    (db.writeProjectCredits st L fields).othersSum p = db.othersSum p := by
  unfold Db.othersSum Db.otherProjectCredits
  rw [writeProjectCredits_rows L db hnd, List.filter_map, List.map_map]
  have hfilter : (fun pc : ProjectCredit => pc.project.customer == p.customer && pc.project != p) ∘
      ProjectCredit.overwrittenBy fields L =
      fun pc => pc.project.customer == p.customer && pc.project != p := by
    funext pc
    simp only [Function.comp_apply, overwrittenBy_project]
  rw [hfilter]
  congr 1
  refine List.map_congr_left fun pc _ => ?_
  exact overwrittenBy_value_of_not_writesValue hf L pc

theorem nodup_left {L l₁ l₂ : List (Loaded ProjectCredit)} {pc : Loaded ProjectCredit}
    (hnd : (L.map (·.obj.project)).Nodup) (hL : L = l₁ ++ pc :: l₂) : (l₁.map (·.obj.project)).Nodup := by
  rw [hL, List.map_append] at hnd
  exact hnd.of_append_left

/-- When a series of value saves goes through. -/
theorem saveProjectCredits_value_iff {L : List (Loaded ProjectCredit)} {db : Db}
    (hnd : (L.map (·.obj.project)).Nodup) :
    (∃ db', db.saveProjectCredits st L .value = .ok db') ↔ ∀ l₁ pc l₂, L = l₁ ++ pc :: l₂ →
      ∃ cc, db.customerCredit? pc.obj.project.customer = some cc ∧
        (if db.othersAfter l₁ pc.obj.project = 0 then pc.obj.value
          else db.othersAfter l₁ pc.obj.project) ≤ cc.value := by
  have hcheck : ∀ l₁ pc l₂, L = l₁ ++ pc :: l₂ →
      ((db.writeProjectCredits st l₁ .value).checkAllocation pc.obj = .ok () ↔
        ∃ cc, db.customerCredit? pc.obj.project.customer = some cc ∧
          (if db.othersAfter l₁ pc.obj.project = 0 then pc.obj.value
            else db.othersAfter l₁ pc.obj.project) ≤ cc.value) := by
    intro l₁ pc l₂ hL
    rw [checkAllocation_eq_ok, Db.totalValue_eq, othersSum_writeProjectCredits (nodup_left hnd hL)]
    unfold Db.customerCredit?
    rw [writeProjectCredits_customerCredits]
  constructor
  · rintro ⟨db', h⟩ l₁ pc l₂ hL
    exact (hcheck l₁ pc l₂ hL).mp (((saveProjectCredits_eq_ok rfl L db db').mp h).1 l₁ pc l₂ hL)
  · intro h
    exact ⟨_, (saveProjectCredits_eq_ok rfl L db _).mpr
      ⟨fun l₁ pc l₂ hL => (hcheck l₁ pc l₂ hL).mpr (h l₁ pc l₂ hL), rfl⟩⟩

/-- When a series without the value column goes through. -/
theorem saveProjectCredits_expected_iff {L : List (Loaded ProjectCredit)} {db : Db}
    (hnd : (L.map (·.obj.project)).Nodup) :
    (∃ db', db.saveProjectCredits st L .expectedConsumption = .ok db') ↔
      ∀ pc ∈ L, db.checkAllocation pc.obj = .ok () := by
  have hcheck : ∀ l₁ pc l₂, L = l₁ ++ pc :: l₂ →
      ((db.writeProjectCredits st l₁ .expectedConsumption).checkAllocation pc.obj = .ok () ↔
        db.checkAllocation pc.obj = .ok ()) := by
    intro l₁ pc l₂ hL
    rw [checkAllocation_eq_ok, checkAllocation_eq_ok, Db.totalValue_eq, Db.totalValue_eq,
      othersSum_writeProjectCredits_of_not_writesValue rfl (nodup_left hnd hL)]
    unfold Db.customerCredit?
    rw [writeProjectCredits_customerCredits]
  constructor
  · rintro ⟨db', h⟩ pc hpc
    obtain ⟨l₁, l₂, hL⟩ := List.append_of_mem hpc
    exact (hcheck l₁ pc l₂ hL).mp (((saveProjectCredits_eq_ok rfl L db db').mp h).1 l₁ pc l₂ hL)
  · intro h
    exact ⟨_, (saveProjectCredits_eq_ok rfl L db _).mpr
      ⟨fun l₁ pc l₂ hL => (hcheck l₁ pc l₂ hL).mpr (h pc (by rw [hL]; simp)), rfl⟩⟩

/-- The instances of a series were read from the stored rows. -/
def Db.LoadedFrom (db : Db) (L : List (Loaded ProjectCredit)) : Prop :=
  ∀ pc ∈ L, ∃ stored, db.projectCredit? pc.obj.project = some stored ∧ pc.saved = stored.value

theorem Db.LoadedFrom.tail {db : Db} {pc : Loaded ProjectCredit} {L : List (Loaded ProjectCredit)}
    (h : db.LoadedFrom (pc :: L)) (hpc : pc.obj.project ∉ L.map (·.obj.project)) :
    (db.writeProjectCredit st pc fields).LoadedFrom L := by
  intro pc' hpc'
  obtain ⟨stored, hst, hs⟩ := h pc' (List.mem_cons_of_mem _ hpc')
  have hne : pc'.obj.project ≠ pc.obj.project := fun h => hpc (h ▸ List.mem_map_of_mem hpc')
  exact ⟨stored, (projectCredit_writeProjectCredit_ne db st fields pc hne).trans hst, hs⟩

/-- A series of writes of loaded instances keeps the ledger equal to the balances. -/
theorem Db.Balanced.writeProjectCredits : ∀ (L : List (Loaded ProjectCredit)) {db : Db}, db.Balanced →
    db.LoadedFrom L → (L.map (·.obj.project)).Nodup → (db.writeProjectCredits st L fields).Balanced
  | [], _, hb, _, _ => hb
  | pc :: L, db, hb, hl, hnd => by
    rw [List.map_cons, List.nodup_cons] at hnd
    obtain ⟨stored, hst, hs⟩ := hl pc List.mem_cons_self
    exact Db.Balanced.writeProjectCredits L (hb.writeProjectCredit st fields hst hs) (hl.tail hnd.1) hnd.2

end Series

end Waldur.Invoices
