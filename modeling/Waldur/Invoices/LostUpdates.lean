import Mathlib
import Waldur.Invoices.Concurrency

/-!
# Invoices.LostUpdates — no credit update is lost, or exactly where one can be

Every script is honest: what it writes to a row it has locked, it has computed from that row under the
lock.  `accrue_affiliate_fee` and `set_to_zero_overdue_credits` lock every row they write before they read
it; `process_invoice_credits` locks one project credit and writes others, the refund locks nothing.
-/

namespace Waldur.Invoices.Concurrent

open Calendar Relational RowLocks Runs

/-! ## The saves are honest -/

section Saves

variable {strict : Prop} {db : Db} {locked : Set CreditKey} {view : CreditKey → ℚ} {next : Script}

theorem honest_guarded {pc : ProjectCredit} {ok fail : Script} (hok : Honest strict ok locked view)
    (hfail : Honest strict fail locked view) : Honest strict (guarded db pc ok fail) locked view := by
  intro view₁ h₁ view₂ h₂
  have hagree := h₁.trans h₂
  beta_reduce
  split
  · exact hok.agree hagree
  · exact hfail.agree hagree

/-- Project credits whose locked rows have the values they were loaded with; what follows is honest whatever
they have become. -/
theorem honest_saveProjectCredits {savepoint : Bool} : ∀ {rows : List (Loaded ProjectCredit)} {locked : Set CreditKey}
    {view : CreditKey → ℚ}, (rows.map (·.obj.project)).Nodup →
    (∀ pc ∈ rows, ProjectCredit.key pc.obj ∈ locked → view (ProjectCredit.key pc.obj) = pc.saved) →
    (strict → ∀ pc ∈ rows, ProjectCredit.key pc.obj ∈ locked) →
    (∀ locked' view', locked ⊆ locked' →
      (∀ key ∈ locked, key ∉ rows.map (fun pc => ProjectCredit.key pc.obj) → view' key = view key) →
      Honest strict next locked' view') →
    Honest strict (saveProjectCredits db savepoint next rows) locked view
  | [], locked, view, _, _, _, hnext => hnext locked view Set.Subset.rfl fun _ _ _ => rfl
  | pc :: rest, locked, view, hnodup, hsaved, hstrict, hnext => by
    obtain ⟨hpc, hrest⟩ := List.nodup_cons.mp hnodup
    have hne : ∀ pc' ∈ rest, ProjectCredit.key pc'.obj ≠ ProjectCredit.key pc.obj := fun pc' hpc' heq =>
      hpc (List.mem_map.mpr ⟨pc', hpc', CreditKey.project.inj heq⟩)
    unfold saveProjectCredits
    have hstrict' : strict → ∀ pc' ∈ rest, ProjectCredit.key pc'.obj ∈ locked := fun hs pc' hpc' =>
      hstrict hs pc' (List.mem_cons_of_mem pc hpc')
    refine honest_guarded
      ⟨hsaved pc List.mem_cons_self, fun hs => hstrict hs pc List.mem_cons_self, fun view₁ h₁ => ?_⟩ ?_
    · refine honest_saveProjectCredits hrest (fun pc' hpc' hlocked => ?_)
        (fun hs pc' hpc' => Set.mem_insert_of_mem _ (hstrict' hs pc' hpc')) fun locked' view' hsub hkeep => ?_
      · rw [Function.update_of_ne (hne pc' hpc')]
        have hlocked' : ProjectCredit.key pc'.obj ∈ locked := hlocked.resolve_left (hne pc' hpc')
        rw [h₁ _ hlocked', hsaved pc' (List.mem_cons_of_mem pc hpc') hlocked']
      · refine hnext locked' view' ((Set.subset_insert _ _).trans hsub) fun key hkey hout => ?_
        rw [List.map_cons, List.mem_cons, not_or] at hout
        rw [hkeep key (Set.mem_insert_of_mem _ hkey) hout.2, Function.update_of_ne hout.1, h₁ key hkey]
    · split
      · refine honest_saveProjectCredits hrest (fun pc' hpc' => hsaved pc' (List.mem_cons_of_mem pc hpc')) hstrict'
          fun locked' view' hsub hkeep => ?_
        refine hnext locked' view' hsub fun key hkey hout => hkeep key hkey ?_
        rw [List.map_cons, List.mem_cons, not_or] at hout
        exact hout.2
      · trivial

end Saves

/-! ## The four writers -/

section Writers

variable {strict : Prop} {db : Db} {locked : Set CreditKey} {view : CreditKey → ℚ} {today : Date}

theorem restrict_self {ks : List CreditKey} {key : CreditKey} (h : key ∈ ks) : restrict ks view key = view key := by
  unfold restrict
  rw [if_pos h]

/-- What the query has selected is locked and as it was read; the rows selected are among those asked for,
each once. -/
theorem honest_lockSelected {ρ : Type} {key : ρ → CreditKey} {next : List (ρ × ℚ) → Script}
    (hnext : ∀ selected locked view, (selected.map fun row => key row.1).Nodup →
      (∀ row ∈ selected, key row.1 ∈ locked ∧ view (key row.1) = row.2) → Honest strict (next selected) locked view) :
    ∀ {rows : List ρ} {selected : List (ρ × ℚ)} {locked : Set CreditKey} {view : CreditKey → ℚ},
      (selected.map (fun row => key row.1) ++ rows.map key).Nodup →
      (∀ row ∈ selected, key row.1 ∈ locked ∧ view (key row.1) = row.2) →
      Honest strict (lockSelected key next rows selected) locked view
  | [], selected, locked, view, hnodup, hselected => by
    rw [List.map_nil, List.append_nil] at hnodup
    exact hnext selected locked view hnodup hselected
  | row :: rows, selected, locked, view, hnodup, hselected => by
    intro view₁ h₁ view₂ h₂
    have hkeep : ∀ r ∈ selected, key r.1 ∈ insert (key row) locked ∧ view₂ (key r.1) = r.2 := fun r hr =>
      ⟨Set.mem_insert_of_mem _ (hselected r hr).1, by
        rw [h₂ _ (Set.mem_insert_of_mem _ (hselected r hr).1), h₁ _ (hselected r hr).1, (hselected r hr).2]⟩
    have hself : restrict [key row] view₂ (key row) = view₂ (key row) := restrict_self (List.mem_singleton_self _)
    rw [List.map_cons] at hnodup
    beta_reduce
    rw [hself]
    split
    · refine honest_lockSelected hnext (hnodup.sublist ?_) hkeep
      exact (List.Sublist.refl _).append (List.sublist_cons_self _ _)
    · refine honest_lockSelected hnext ?_ fun r hr => ?_
      · rw [List.map_append, List.append_assoc]
        exact hnodup
      · rcases List.mem_append.mp hr with hr | hr
        · exact hkeep r hr
        · obtain rfl := List.mem_singleton.mp hr
          exact ⟨Set.mem_insert _ _, rfl⟩

theorem honest_selectForUpdate {ρ : Type} {key : ρ → CreditKey} {rows : List ρ} {next : List (ρ × ℚ) → Script}
    (hnodup : (rows.map key).Nodup)
    (hnext : ∀ selected locked view, (selected.map fun row => key row.1).Nodup →
      (∀ row ∈ selected, key row.1 ∈ locked ∧ view (key row.1) = row.2) → Honest strict (next selected) locked view) :
    Honest strict (selectForUpdate key rows next) locked view := by
  intro view₁ h₁
  refine honest_lockSelected hnext ?_ nofun
  rw [List.map_nil, List.nil_append]
  exact hnodup.sublist (List.filter_sublist.map _)

theorem honest_zeroCustomerCredits {next : Script} (hnext : ∀ locked view, Honest strict next locked view) :
    ∀ {rows : List (CustomerCredit × ℚ)} {locked : Set CreditKey} {view : CreditKey → ℚ},
      (rows.map fun row => CustomerCredit.key row.1).Nodup →
      (∀ row ∈ rows, CustomerCredit.key row.1 ∈ locked ∧ view (CustomerCredit.key row.1) = row.2) →
      Honest strict (zeroCustomerCredits next rows) locked view
  | [], locked, view, _, _ => hnext locked view
  | (cc, value) :: rest, locked, view, hnodup, hrows => by
    obtain ⟨hcc, hrest⟩ := List.nodup_cons.mp hnodup
    refine ⟨fun _ => (hrows _ List.mem_cons_self).2, fun _ => (hrows _ List.mem_cons_self).1, fun view₁ h₁ => ?_⟩
    refine honest_zeroCustomerCredits hnext hrest fun row hrow => ?_
    obtain ⟨hlocked, hvalue⟩ := hrows row (List.mem_cons_of_mem _ hrow)
    have hne : CustomerCredit.key row.1 ≠ CustomerCredit.key cc := fun heq =>
      hcc (List.mem_map.mpr ⟨row, hrow, heq⟩)
    exact ⟨Set.mem_insert_of_mem _ hlocked, by rw [Function.update_of_ne hne, h₁ _ hlocked, hvalue]⟩

theorem honest_setToZero (db : Db) (today effectiveDate : Date) (locked : Set CreditKey) (view : CreditKey → ℚ) :
    Honest strict (setToZeroOverdueCredits db today effectiveDate) locked view := by
  unfold setToZeroOverdueCredits
  split
  · trivial
  have hcustomers : ((db.customerCredits.rows.filter (·.isOverdue effectiveDate)).map CustomerCredit.key).Nodup := by
    have hkeys := (db.customerCredits.filter (·.isOverdue effectiveDate)).nodup.map
      (f := CreditKey.customer) fun _ _ h => CreditKey.customer.inj h
    rwa [List.map_map] at hkeys
  have hprojects : ((db.projectCredits.rows.filter (·.isOverdue effectiveDate)).map ProjectCredit.key).Nodup := by
    have hkeys := (db.projectCredits.filter (·.isOverdue effectiveDate)).nodup.map
      (f := CreditKey.project) fun _ _ h => CreditKey.project.inj h
    rwa [List.map_map] at hkeys
  refine honest_selectForUpdate hcustomers fun customerCredits locked₁ view₁ hnodup₁ hrows₁ => ?_
  refine honest_zeroCustomerCredits (fun locked₂ view₂ => ?_) hnodup₁ hrows₁
  refine honest_selectForUpdate hprojects fun projectCredits locked₃ view₃ hnodup₃ hrows₃ => ?_
  refine honest_saveProjectCredits ?_ (fun pc hpc _ => ?_) (fun _ pc hpc => ?_) fun _ _ _ _ => trivial
  · rw [List.map_map]
    exact List.Nodup.of_map CreditKey.project (by rw [List.map_map]; exact hnodup₃)
  · obtain ⟨row, hrow, rfl⟩ := List.mem_map.mp hpc
    exact (hrows₃ row hrow).2
  · obtain ⟨row, hrow, rfl⟩ := List.mem_map.mp hpc
    exact (hrows₃ row hrow).1

theorem honest_accrue (link : CustomerAffiliate) (price : ℚ) (accrued : Bool) (locked : Set CreditKey)
    (view : CreditKey → ℚ) : Honest strict (accrueAffiliateFee link price accrued) locked view := by
  unfold accrueAffiliateFee
  simp only
  split
  · trivial
  split
  · trivial
  · intro view₁ h₁ view₂ h₂
    exact ⟨fun _ => (restrict_self (List.mem_singleton_self _)).symm, fun _ => Set.mem_insert _ _, fun _ _ => trivial⟩

/-- The refund has locked nothing when it writes the organization credit, and not the project credit when it
writes that. -/
theorem honest_refund (db : Db) (project : Project) (view : CreditKey → ℚ) :
    Honest False (refundProjectCredit db project) ∅ view := by
  unfold refundProjectCredit
  split
  swap
  · trivial
  next projectCredit customerCredit hp hc =>
  obtain ⟨-, hproject⟩ := Table.get?_eq_some.mp hp
  intro view₁ h₁ view₂ h₂
  have hzero : ∀ (locked : Set CreditKey) (view₃ : CreditKey → ℚ), CreditKey.project project ∉ locked →
      Honest False (saveProjectCredits db false .done
        [⟨{ projectCredit with value := 0 }, restrict [.project project] view₁ (.project project)⟩]) locked view₃ := by
    intro locked view₃ hout
    refine honest_saveProjectCredits (List.nodup_singleton _) (fun pc hpc hlocked => ?_) False.elim fun _ _ _ _ => trivial
    obtain rfl := List.mem_singleton.mp hpc
    have hkey : CreditKey.project projectCredit.project ∈ locked := hlocked
    have heq : projectCredit.project = project := hproject
    rw [heq] at hkey
    exact absurd hkey hout
  simp only
  split
  · trivial
  split
  · exact ⟨fun h => absurd h (Set.notMem_empty _), False.elim, fun view₃ h₃ => hzero _ _ (by simp)⟩
  · exact hzero _ _ (Set.notMem_empty _)

/-! ### `process_invoice_credits` -/

/-- The object has read the organization credit under its lock, and calculated nothing yet. -/
structure ReadLocked (mc : MonthlyCompensation) (locked : Set CreditKey) (view : CreditKey → ℚ) : Prop where
  calculated : mc.calculated = false
  rows : mc.projectsCredits.rows = []
  credit : ∀ credit, mc.credit = some credit →
    CreditKey.customer credit.obj.customer ∈ locked ∧ view (.customer credit.obj.customer) = credit.saved

theorem ReadLocked.keep {mc : MonthlyCompensation} {locked' : Set CreditKey} {view' : CreditKey → ℚ}
    (h : ReadLocked mc locked view) (hsub : locked ⊆ locked')
    (hkeep : ∀ c, CreditKey.customer c ∈ locked → view' (.customer c) = view (.customer c)) :
    ReadLocked mc locked' view' :=
  ⟨h.calculated, h.rows, fun credit hc =>
    ⟨hsub (h.credit credit hc).1, (hkeep _ (h.credit credit hc).1).trans (h.credit credit hc).2⟩⟩

theorem honest_touch : ∀ (rows : List ProjectCredit) (locked : Set CreditKey) (view : CreditKey → ℚ),
    Honest False (touchProjectCredits db rows) locked view
  | [], _, _ => trivial
  | _ :: rest, _, _ => honest_guarded (fun view' _ => honest_touch rest _ view') trivial

theorem honest_updateLinear (db : Db) (today : Date) (mc : MonthlyCompensation) (locked : Set CreditKey)
    (view : CreditKey → ℚ) : Honest False (updateLinearExpectedConsumption db today mc) locked view := by
  have hprojects : ∀ locked view, Honest False (.select ((mc.linearProjectCredits today db).map ProjectCredit.key)
      fun values => touchProjectCredits db (mc.linearProjectCredits today (withValues db values))) locked view :=
    fun locked _ view' _ => honest_touch _ locked view'
  unfold updateLinearExpectedConsumption
  simp only
  split
  · split
    · exact fun view' _ => hprojects _ view'
    · exact hprojects _ _
  · exact hprojects _ _

/-- Of the credit of the object a calculation only changes the value in memory. -/
theorem credit_calculate {mc : MonthlyCompensation} {credit credit' : Loaded CustomerCredit}
    (h : mc.credit = some credit) (h' : (mc.calculateCurrentCompensations db today).credit = some credit') :
    credit'.saved = credit.saved ∧ credit'.obj.customer = credit.obj.customer := by
  have hself : mc.credit = some credit' → credit'.saved = credit.saved ∧ credit'.obj.customer = credit.obj.customer := by
    intro hc
    rw [h] at hc
    obtain rfl := Option.some.inj hc
    exact ⟨rfl, rfl⟩
  unfold MonthlyCompensation.calculateCurrentCompensations at h'
  split at h'
  · exact hself h'
  split at h'
  · next credit₀ inv hcredit hinv =>
    split at h'
    · exact hself h'
    · rw [h] at hcredit
      obtain rfl := Option.some.inj hcredit
      obtain rfl := Option.some.inj h'
      exact ⟨rfl, rfl⟩
  · exact hself h'

/-- The project credits of a calculation are those the query returned, with the values it returned. -/
theorem saved_calculate {mc : MonthlyCompensation} {values : CreditKey → ℚ} (hcalculated : mc.calculated = false)
    (hrows : mc.projectsCredits.rows = []) {pc : Loaded ProjectCredit}
    (h : pc ∈ (mc.calculateCurrentCompensations (withValues db values) today).projectsCredits.rows) :
    ProjectCredit.key pc.obj ∈ (invoiceProjectCredits db mc).map ProjectCredit.key ∧
      pc.saved = values (ProjectCredit.key pc.obj) := by
  have hnone : pc ∉ mc.projectsCredits.rows := by
    rw [hrows]
    exact List.not_mem_nil
  unfold MonthlyCompensation.calculateCurrentCompensations at h
  rw [if_neg (by rw [hcalculated]; exact Bool.false_ne_true)] at h
  split at h
  swap
  · exact absurd h hnone
  next credit inv hcredit hinv =>
  split at h
  · exact absurd h hnone
  obtain ⟨stored, hstored, v, rfl⟩ := MonthlyCompensation.mem_projectsCredits_calculateOn h
  obtain ⟨hmem, hproject⟩ := List.mem_filter.mp hstored
  obtain ⟨pc, hpc, rfl⟩ := List.mem_map.mp hmem
  refine ⟨List.mem_map.mpr ⟨pc, ?_, rfl⟩, rfl⟩
  unfold invoiceProjectCredits
  have hinv' : mc.getInvoice db = some inv := hinv
  rw [hinv']
  exact List.mem_filter.mpr ⟨hpc, hproject⟩

theorem honest_save {mc : MonthlyCompensation} {next : MonthlyCompensation → Script} (h : ReadLocked mc locked view)
    (hnext : ∀ mc locked view, Honest False (next mc) locked view) : Honest False (save db today mc next) locked view := by
  unfold save
  split
  · exact hnext _ _ _
  next credit hcredit =>
  intro view₁ h₁
  simp only
  split
  · exact hnext _ _ _
  next credit' hcredit' =>
  obtain ⟨hsaved, hcustomer⟩ := credit_calculate hcredit hcredit'
  obtain ⟨hlocked, hvalue⟩ := h.credit credit hcredit
  refine honest_saveProjectCredits (Table.nodup _) (fun pc hpc _ => ?_) False.elim fun locked' view' _ hkeep => ?_
  · obtain ⟨hkey, heq⟩ := saved_calculate h.calculated h.rows hpc
    rw [heq, restrict_self hkey]
  · refine ⟨fun _ => ?_, False.elim, fun _ _ => hnext _ _ _⟩
    rw [hcustomer, hsaved, hkeep _ hlocked (by simp [ProjectCredit.key]), h₁ _ hlocked, hvalue]

theorem honest_clear {mc : MonthlyCompensation} {next : Db → MonthlyCompensation → Script}
    (h : ReadLocked mc locked view)
    (hnext : ∀ db mc locked view, ReadLocked mc locked view → Honest False (next db mc) locked view) :
    Honest False (clearCompensations db today mc next) locked view := by
  unfold clearCompensations
  split
  swap
  · exact hnext _ _ _ _ h
  next credit inv hcredit hinv =>
  simp only
  split
  · exact hnext _ _ _ _ h
  obtain ⟨hlocked, hvalue⟩ := h.credit credit hcredit
  refine ⟨fun _ => hvalue, False.elim, fun view₁ h₁ view₂ h₂ => ?_⟩
  beta_reduce
  refine honest_saveProjectCredits ?_ (fun pc hpc _ => ?_) False.elim fun locked' view' hsub hkeep => ?_
  · exact MonthlyCompensation.nodup_filterMap (MonthlyCompensation.rolledBack_project _) _
      (MonthlyCompensation.nodup_customerProjectCredits _ _)
  · obtain ⟨stored, hstored, hroll⟩ := List.mem_filterMap.mp hpc
    obtain ⟨v, rfl⟩ := MonthlyCompensation.rolledBack_eq_some hroll
    obtain ⟨hmem, hcustomer⟩ := List.mem_filter.mp hstored
    obtain ⟨pc, hpc', rfl⟩ := List.mem_map.mp hmem
    have hread : pc ∈ db.customerProjectCredits mc.customer := List.mem_filter.mpr ⟨hpc', hcustomer⟩
    have hkey : ProjectCredit.key pc ∈ (db.customerProjectCredits mc.customer).map ProjectCredit.key :=
      List.mem_map.mpr ⟨pc, hread, rfl⟩
    show view₂ (ProjectCredit.key pc) = restrict _ view₂ (ProjectCredit.key pc)
    rw [restrict_self hkey]
  · refine hnext _ _ _ _ ⟨h.calculated, h.rows, fun credit' hc => ?_⟩
    obtain rfl := Option.some.inj hc
    have hmem : CreditKey.customer credit.obj.customer ∈ insert (CreditKey.customer credit.obj.customer) locked :=
      Set.mem_insert _ _
    refine ⟨hsub hmem, ?_⟩
    show view' (.customer credit.obj.customer) = _
    rw [hkeep _ hmem (by simp [ProjectCredit.key]), h₂ _ hmem, Function.update_self]

theorem honest_lockFirst {first : Option CreditKey} {next : Script}
    (hnext : ∀ locked', (∀ key, first = some key → key ∈ locked') → locked ⊆ locked' → ∀ view', Honest False next locked' view') :
    Honest False (lockFirst first next) locked view := by
  unfold lockFirst
  split
  · next key =>
    intro view' _
    refine hnext _ (fun key' hkey' => ?_) (Set.subset_insert _ _) view'
    obtain rfl := Option.some.inj hkey'
    exact Set.mem_insert _ _
  · exact hnext locked nofun Set.Subset.rfl view

theorem honest_process (db : Db) (today : Date) (inv : Invoice) (first : Option Project) (locked : Set CreditKey)
    (view : CreditKey → ℚ) : Honest False (processInvoiceCredits db today inv first) locked view := by
  refine honest_lockFirst fun locked₁ hcredit _ view₁ => ?_
  refine honest_lockFirst fun locked₂ _ hsub view₂ => ?_
  intro view₃ _
  refine honest_clear ⟨rfl, rfl, fun credit hc => ?_⟩ fun db mc locked view hmc =>
    honest_save hmc fun mc locked view => honest_updateLinear db today mc locked view
  obtain ⟨cc', hcc', rfl⟩ := Option.map_eq_some_iff.mp hc
  have hget : (withValues db (restrict [.customer inv.customer] view₃)).customerCredit? inv.customer =
      (db.customerCredit? inv.customer).map fun cc =>
        { cc with value := restrict [.customer inv.customer] view₃ (CustomerCredit.key cc) } :=
    Table.get?_mapRows _ _ (fun _ => rfl) _
  rw [hget] at hcc'
  obtain ⟨cc, hcc, rfl⟩ := Option.map_eq_some_iff.mp hcc'
  obtain ⟨-, hcustomer⟩ := Table.get?_eq_some.mp hcc
  have hkey : CustomerCredit.key cc = .customer inv.customer := congrArg CreditKey.customer hcustomer
  have hfirst : (db.customerCredit? inv.customer).map CustomerCredit.key = some (CustomerCredit.key cc) := by
    rw [hcc]
    rfl
  refine ⟨hsub (hcredit _ hfirst), ?_⟩
  show view₃ (CustomerCredit.key cc) = restrict [.customer inv.customer] view₃ (CustomerCredit.key cc)
  rw [hkey, restrict_self (List.mem_singleton_self _)]

theorem Request.honest (request : Request) (view : CreditKey → ℚ) : Honest False request.script ∅ view := by
  cases request with
  | processInvoiceCredits db today inv locked => exact honest_process db today inv locked ∅ view
  | setToZeroOverdueCredits db today effectiveDate => exact honest_setToZero db today effectiveDate ∅ view
  | accrueAffiliateFee link price accrued => exact honest_accrue link price accrued ∅ view
  | refundProjectCredit db project => exact honest_refund db project view

end Writers

/-! ## Runs -/

section Runs

/-- The writers that lock every credit before they read it. -/
def Request.locksFirst : Request → Prop
  | .setToZeroOverdueCredits .. => True
  | .accrueAffiliateFee .. => True
  | .processInvoiceCredits .. => False
  | .refundProjectCredit .. => False

/-- Fees and expiries among themselves lose nothing, whatever the interleaving. -/
theorem fees_and_expiries_match_ledger (init : CreditKey → ℚ) (ops : List (Op {r : Request // r.locksFirst}))
    (key : CreditKey) :
    (run (step fun r => r.1.script) { values := init } ops).values key =
      init key + amount (run (step fun r => r.1.script) { values := init } ops).ledger key := by
  refine no_lost_update_of_strict (fun request view => ?_) init ops key
  obtain ⟨request, hlocks⟩ := request
  cases request with
  | setToZeroOverdueCredits db today effectiveDate => exact honest_setToZero db today effectiveDate ∅ view
  | accrueAffiliateFee link price accrued => exact honest_accrue link price accrued ∅ view
  | processInvoiceCredits db today inv locked => exact hlocks.elim
  | refundProjectCredit db project => exact hlocks.elim

/-- **No credit update is lost** along a run in which every write to a credit that is not locked finds the
value it was computed from: each credit has its initial value plus what is recorded for it. -/
theorem values_match_ledger (init : CreditKey → ℚ) (ops : List (Op Request))
    (hfinds : Along (step Request.script) FindsRead { values := init } ops) (key : CreditKey) :
    (run (step Request.script) { values := init } ops).values key =
      init key + amount (run (step Request.script) { values := init } ops).ledger key :=
  no_lost_update Request.honest init ops hfinds key

theorem organization_credits : (([{ customer := 1, value := 100 }] : List CustomerCredit).map (·.customer)).Nodup :=
  List.nodup_singleton _

/-- Organization 1 with 100 and allocations of 30 and 20, the first of them spent with its project. -/
def organization : Db :=
  { Db.empty with
    customerCredits := ⟨[{ customer := 1, value := 100 }], organization_credits⟩
    projectCredits := ⟨[{ project := ⟨10, 1⟩, value := 30, markUnusedCreditAsSpentOnProjectTermination := true },
      { project := ⟨11, 1⟩, value := 20 }], by decide⟩
    invoices := ⟨[sampleInvoice 5 0 Invoice.untaxed [(10, 8), (11, 7)]], by simp⟩ }

def link : CustomerAffiliate := ⟨1, 1, 10⟩

/-- The compensation run holds the organization credit while a fee waits for it; the refund comes after. -/
def orderly : List (Op Request) :=
  [.begin 0 (.processInvoiceCredits organization midJune (sampleInvoice 5 0 Invoice.untaxed [(10, 8), (11, 7)])
      (some ⟨10, 1⟩)),
    .begin 1 (.accrueAffiliateFee link 100 false),
    .advance 0, .advance 1] ++ List.replicate 14 (.advance 0) ++ List.replicate 4 (.advance 1) ++
  [.begin 2 (.refundProjectCredit organization ⟨10, 1⟩)] ++ List.replicate 8 (.advance 2)

theorem orderly_matches_ledger :
    (run (step Request.script) { values := organization.balance } orderly).values (.customer 1) = 73 ∧
      (run (step Request.script) { values := organization.balance } orderly).values (.customer 1) =
        organization.balance (.customer 1) +
          amount (run (step Request.script) { values := organization.balance } orderly).ledger (.customer 1) :=
  ⟨by decide +kernel, values_match_ledger organization.balance orderly (by decide +kernel) (.customer 1)⟩

/-- A fee is accrued between the query of the refund and its write. -/
def interleaved : List (Op Request) :=
  [.begin 0 (.refundProjectCredit organization ⟨10, 1⟩), .begin 1 (.accrueAffiliateFee link 100 false),
    .advance 0, .advance 0] ++ List.replicate 4 (.advance 1) ++ List.replicate 5 (.advance 0)

/-- 100 + 10 - 30 is recorded, 70 is left. -/
theorem fee_lost_to_refund :
    ¬ ∀ (init : CreditKey → ℚ) (ops : List (Op Request)),
      (∀ id, (run (step Request.script) { values := init } ops).threads id = none) →
        ∀ key, (run (step Request.script) { values := init } ops).values key =
          init key + amount (run (step Request.script) { values := init } ops).ledger key := by
  intro h
  have hquiet : ∀ id, (run (step Request.script) { values := organization.balance } interleaved).threads id = none := by
    intro id
    rcases id with _ | _ | id
    · decide +kernel
    · decide +kernel
    · exact threads_of_not_begun Request.script interleaved _ rfl fun request hmem => by
        simp [interleaved] at hmem
  exact absurd (h organization.balance interleaved hquiet (.customer 1)) (by decide +kernel)

end Runs

end Waldur.Invoices.Concurrent
