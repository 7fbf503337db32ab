import Mathlib
import Waldur.Invoices.CreditSave

/-!
# Invoices.Compensations — `MonthlyCompensation`

The compensation run of `compensations.py`: credit is drawn against the items of an invoice, cheapest
first, from the allocation of the item's project where there is one and from the organization pool
otherwise; the pool pays for both.  What usage does not draw of the minimal consumption is drawn as a
tail.  `save` writes the compensations and the new balances, `clearCompensations` takes them back.

`Run` holds the variables of the item loop, `MonthlyCompensation` the attributes of the object.  Event
logging and the price estimates are left out: neither is read back by the run.
-/

namespace Waldur.Invoices

open Calendar Relational

/-! ## `creditable_items` -/

/-- `items_queryset` of `creditable_items`. -/
def creditableQuery (inv : Invoice) (credit : CustomerCredit) (project : Option Project) : List InvoiceItem :=
  inv.items.filter (fun it =>
    match it.resource with
    | none => false
    | some r => (credit.offerings.isEmpty || credit.offerings.contains r.offering) &&
        project.all (fun p => r.project == p))

def chargeableItems (inv : Invoice) (credit : CustomerCredit) (project : Option Project) : List InvoiceItem :=
  (creditableQuery inv credit project).filter (fun it => !it.details.isCompensation && !it.details.isDiscount)

/-- `discount_by_item`, 0 where the item has no discount. -/
def discountByItem (inv : Invoice) (credit : CustomerCredit) (project : Option Project) (target : ℕ) : ℚ :=
  (((creditableQuery inv credit project).filter (fun it => !it.details.isCompensation &&
    it.details.isDiscount && it.details.discountOfItem == some target)).map InvoiceItem.price).sum

def creditableItems (inv : Invoice) (credit : CustomerCredit) (project : Option Project) :
    List InvoiceItem × (ℕ → ℚ) :=
  (chargeableItems inv credit project, discountByItem inv credit project)

/-! ## The item loop -/

/-- The dict `{project: project_credit}`. -/
abbrev ProjectsCredits := Table Project (Loaded ProjectCredit) (fun pc => pc.obj.project)

/-- `project_credit.value = value` on the loaded instance. -/
def Loaded.setValue (value : ℚ) (pc : Loaded ProjectCredit) : Loaded ProjectCredit :=
  { pc with obj := { pc.obj with value := value } }

structure Run where
  creditValue : ℚ
  projectsCredits : ProjectsCredits
  compensations : List InvoiceItem := []
  customerUsageDraw : ℚ := 0
  projectUsageDraws : Project → ℚ := fun _ => 0

/-- `_record_usage_draw`. -/
def Run.recordUsageDraw (run : Run) (project : Option Project) (amount : ℚ) : Run :=
  match project with
  | none => { run with customerUsageDraw := run.customerUsageDraw + amount }
  | some p =>
    { run with
      projectUsageDraws := Function.update run.projectUsageDraws p (run.projectUsageDraws p + amount)
      customerUsageDraw := run.customerUsageDraw + amount }

/-- The compensation of an item: its details, marked and linked back to it. -/
def compensationItem (uuid customer : ℕ) (item : InvoiceItem) (amount : ℚ) : InvoiceItem where
  uuid := uuid
  unitPrice := amount * -1
  quantity := 1
  unit := .quantity
  resource := item.resource
  project := item.resource.map (·.project)
  credit := some customer
  details := { item.details with isCompensation := true, compensationOfItem := some item.uuid }

/-- What the loop reads besides its variables. -/
structure RunContext where
  taxPercent : ℚ
  discountByItem : ℕ → ℚ
  customer : ℕ
  nextUuid : ℕ

namespace RunContext

variable (ctx : RunContext)

/-- Price of an item net of its discounts, at least zero. -/
def cost (item : InvoiceItem) : ℚ :=
  let cost := item.price + ctx.discountByItem item.uuid
  if cost < 0 then 0 else cost

/-- The draw on balances that one item makes, and its `credit_compensation`. -/
def draw (run : Run) (item : InvoiceItem) : Run × ℚ :=
  let cost := ctx.cost item
  match item.project.bind run.projectsCredits.get? with
  | some pc =>
    if pc.obj.value ≤ cost then
      let creditCompensation := pc.obj.value
      (({ run with
          projectsCredits := run.projectsCredits.update pc.obj.project (Loaded.setValue 0) (fun _ => rfl)
          creditValue := run.creditValue - creditCompensation }).recordUsageDraw (some pc.obj.project)
            creditCompensation, creditCompensation)
    else
      (({ run with
          projectsCredits :=
            run.projectsCredits.update pc.obj.project (Loaded.setValue (pc.obj.value - cost)) (fun _ => rfl)
          creditValue := run.creditValue - cost }).recordUsageDraw (some pc.obj.project) cost, cost)
  | none =>
    if run.creditValue ≤ cost then
      -- the last compensation of the pool is net of tax, the draw is not
      ({ run.recordUsageDraw none run.creditValue with creditValue := 0 },
        run.creditValue / (1 + ctx.taxPercent / 100))
    else
      ({ run.recordUsageDraw none cost with creditValue := run.creditValue - cost }, cost)

/-- One turn of the loop. -/
def compensateItem (run : Run) (item : InvoiceItem) : Run :=
  let (run, creditCompensation) := ctx.draw run item
  if creditCompensation = 0 then run
  else
    { run with
      compensations := run.compensations ++
        [compensationItem (ctx.nextUuid + run.compensations.length) ctx.customer item creditCompensation] }

/-- The loop; it breaks as soon as the credit is zero. -/
def compensateItems (run : Run) : List InvoiceItem → Run
  | [] => run
  | item :: items =>
    let run := ctx.compensateItem run item
    if run.creditValue = 0 then run else compensateItems run items

end RunContext

/-! ## `MonthlyCompensation` -/

structure MonthlyCompensation where
  customer : ℕ
  invoice : Option ℕ
  credit : Option (Loaded CustomerCredit)
  calculated : Bool := false
  compensations : List InvoiceItem := []
  projectsCredits : ProjectsCredits := Table.empty
  totalCompensation : ℚ := 0
  tail : ℚ := 0
  projectTails : Project → ℚ := fun _ => 0
  customerUsageDraw : ℚ := 0
  projectUsageDraws : Project → ℚ := fun _ => 0

/-- `Invoice.objects.filter(state__in=MUTABLE_STATES, customer=customer).order_by("-year", "-month").first()`. -/
def Db.openInvoice (db : Db) (customer : ℕ) : Option Invoice :=
  ((db.invoices.rows.filter (fun inv => inv.state.isMutable && inv.customer == customer)).insertionSort
    (fun a b => b.year < a.year ∨ (b.year = a.year ∧ b.month ≤ a.month))).head?

/-- The ledger's two kinds of movement. -/
def ledgerParts (usageDraw tail : ℚ) (billingPeriod : Option Date) : List TransactionPart :=
  [⟨.compensation, -usageDraw, billingPeriod⟩, ⟨.minimalDraw, -tail, billingPeriod⟩]

/-- The top-up of a draw to the minimal consumption, at most the value: the tail and what it leaves. -/
def drawTail (value minimalConsumption total : ℚ) : ℚ × ℚ :=
  if minimalConsumption ≠ 0 ∧ total < minimalConsumption then
    let tail := minimalConsumption - total
    if value - tail < 0 then (value, 0) else (tail, value - tail)
  else (0, value)

/-- `invoice.items.all().values_list("resource__project_id", flat=True)`. -/
def Invoice.itemsProjects (inv : Invoice) : List Project :=
  inv.items.filterMap (fun it => it.resource.map (·.project))

/-- `datetime.date(invoice.year, invoice.month, 1)`. -/
def Invoice.billingPeriod (inv : Invoice) : Date :=
  ⟨inv.year, inv.month, 1, inv.month_valid, ⟨le_refl 1, one_le_monthDays _ _⟩⟩

/-- The sum of the compensations of a project. -/
def totalProjectCompensation (compensations : List InvoiceItem) (project : Project) : ℚ :=
  ((compensations.filter (fun c => c.resource.any (fun r => r.project == project))).map
    (fun c => c.unitPrice * -1)).sum

namespace MonthlyCompensation

/-- `__init__`. -/
def init (db : Db) (customer : ℕ) (invoice : Option ℕ) : MonthlyCompensation where
  customer := customer
  invoice := invoice.orElse (fun _ => (db.openInvoice customer).map (·.id))
  credit := (db.customerCredit? customer).map CustomerCredit.load

variable (mc : MonthlyCompensation) (db : Db) (today : Date)

def getInvoice : Option Invoice := mc.invoice.bind db.invoices.get?

/-- `projects_credits`: the credits of the projects with a resource on the invoice. -/
def loadProjectsCredits (inv : Invoice) : ProjectsCredits :=
  (db.projectCredits.filter (fun pc => inv.itemsProjects.contains pc.project)).mapRows ProjectCredit.load
    (fun _ => rfl)

def runContext (inv : Invoice) (credit : CustomerCredit) : RunContext where
  taxPercent := inv.taxPercent
  discountByItem := (creditableItems inv credit none).2
  customer := credit.customer
  nextUuid := db.nextUuid

/-- The chargeable items in the order of the loop: sorted by price, stable. -/
def sortedItems (inv : Invoice) (credit : CustomerCredit) : List InvoiceItem :=
  (creditableItems inv credit none).1.insertionSort (fun a b => a.price ≤ b.price)

/-- The loop of the run over the invoice. -/
def compensate (inv : Invoice) (credit : CustomerCredit) : Run :=
  (runContext db inv credit).compensateItems
    { creditValue := credit.value, projectsCredits := loadProjectsCredits db inv } (sortedItems inv credit)

/-- `calculate_current_compensations` once there is a credit to draw and an invoice. -/
def calculateOn (credit : Loaded CustomerCredit) (inv : Invoice) : MonthlyCompensation :=
  let run := compensate db inv credit.obj
  let total := (run.compensations.map (fun c => c.unitPrice * -1)).sum
  let tail := drawTail run.creditValue (credit.obj.minimalConsumption today) total
  let projectTail (pc : Loaded ProjectCredit) := drawTail pc.obj.value (pc.obj.minimalConsumption today)
    (totalProjectCompensation run.compensations pc.obj.project)
  { mc with
    credit := some { credit with obj := { credit.obj with value := tail.2 } }
    calculated := true
    compensations := run.compensations
    projectsCredits := run.projectsCredits.mapRows (fun pc => pc.setValue (projectTail pc).2) (fun _ => rfl)
    totalCompensation := total + tail.1
    tail := tail.1
    projectTails := fun p => ((run.projectsCredits.get? p).map (fun pc => (projectTail pc).1)).getD 0
    customerUsageDraw := run.customerUsageDraw
    projectUsageDraws := run.projectUsageDraws }

/-- `calculate_current_compensations`. -/
def calculateCurrentCompensations : MonthlyCompensation :=
  if mc.calculated then mc
  else
    match mc.credit, mc.getInvoice db with
    | some credit, some inv => if credit.obj.value = 0 then mc else mc.calculateOn db today credit inv
    | _, _ => mc

/-- `_ledger_parts`. -/
def ledgerParts (credit : CustomerCredit) : List (CreditKey × List TransactionPart) :=
  match mc.getInvoice db with
  | none => []
  | some inv =>
    (.customer credit.customer,
      Invoices.ledgerParts mc.customerUsageDraw mc.tail (some inv.billingPeriod)) ::
    mc.projectsCredits.rows.map (fun pc => (.project pc.obj.project,
      Invoices.ledgerParts (mc.projectUsageDraws pc.obj.project) (mc.projectTails pc.obj.project)
        (some inv.billingPeriod)))

/-- The type block of `save` and `clear_compensations`. -/
def typeBlock (transactionType : TransactionType) : TypeBlock where
  transactionType := transactionType
  reference := mc.invoice.map Reference.invoice
  billingPeriod := (mc.getInvoice db).map Invoice.billingPeriod

/-- `bulk_create` of the compensations on the invoice. -/
def createItems : Db :=
  match mc.invoice with
  | none => db
  | some id =>
    { db with
      invoices := db.invoices.update id (·.bulkCreate mc.compensations)
        (fun inv => inv.bulkCreate_id _)
      nextUuid := db.nextUuid + mc.compensations.length }

/-- `save`; it returns the object too, because it calculates. -/
def save : Except ValidationError (Db × MonthlyCompensation) :=
  match mc.credit with
  | none => .ok (db, mc)
  | some _ =>
    let mc := mc.calculateCurrentCompensations db today
    match mc.credit with
    | none => .ok (db, mc)
    | some credit => do
      let st := (({} : LedgerState).withType (mc.typeBlock db .compensation)).withParts
        (mc.ledgerParts db credit.obj) (mc.invoice.map Reference.invoice)
      let db ← mc.projectsCredits.rows.foldlM (fun db pc => db.saveProjectCredit st pc .value) (mc.createItems db)
      let db ← db.saveCustomerCredit st credit .value
      return (db, { mc with credit := some ⟨credit.obj, credit.obj.value⟩ })

/-- One turn of the roll-back loop: what the compensations of the project took is added back. -/
def rollBackProjectCredit (st : LedgerState) (compensationItems : List InvoiceItem) (db : Db)
    (pc : ProjectCredit) : Except ValidationError Db :=
  match compensationItems.filter (fun it => it.project == some pc.project) with
  | [] => .ok db
  | items =>
    db.saveProjectCredit st
      ⟨{ pc with value := pc.value + (items.map (·.unitPrice)).sum * -1 }, pc.value⟩ .value

/-- `compensation_items.delete()`. -/
def deleteItems (credit : CustomerCredit) : Db :=
  match mc.invoice with
  | none => db
  | some id =>
    { db with
      invoices := db.invoices.update id (·.deleteItems (fun it => it.credit == some credit.customer))
        (fun _ => rfl) }

/-- `clear_compensations` once there is a credit, an invoice and something to clear. -/
def rollBack (credit : Loaded CustomerCredit) (compensationItems : List InvoiceItem) :
    Except ValidationError (Db × MonthlyCompensation) := do
  let st := ({} : LedgerState).withType (mc.typeBlock db .rollback)
  let applied := (compensationItems.map (·.unitPrice)).sum * -1
  let value := credit.obj.value + max applied (credit.obj.minimalConsumption today)
  let credit : Loaded CustomerCredit := { credit with obj := { credit.obj with value := value } }
  let db ← db.saveCustomerCredit st credit .value
  let db ← (db.customerProjectCredits mc.customer).foldlM (rollBackProjectCredit st compensationItems) db
  return (mc.deleteItems db credit.obj, { mc with credit := some ⟨credit.obj, value⟩ })

/-- `clear_compensations`. -/
def clearCompensations : Except ValidationError (Db × MonthlyCompensation) :=
  let mc := if mc.calculated then init db mc.customer mc.invoice else mc
  match mc.credit, mc.getInvoice db with
  | some credit, some inv =>
    let compensationItems := inv.items.filter (fun it => it.credit == some credit.obj.customer)
    if compensationItems = [] then .ok (db, mc) else mc.rollBack db today credit compensationItems
  | _, _ => .ok (db, mc)

/-- `apply_compensations`. -/
def applyCompensations : Except ValidationError (Db × MonthlyCompensation) := do
  let (db, mc) ← mc.clearCompensations db today
  mc.save db today

/-! ## `update_linear_expected_consumption` -/

def updateLinearCustomer (db : Db) : Except ValidationError Db :=
  match mc.credit with
  | none => .ok db
  | some credit =>
    match credit.obj.minimalConsumptionLogic, credit.obj.endDate with
    | .linear, some endDate =>
      let expected := credit.obj.calculateLinearExpectedConsumption today endDate mc.totalCompensation
      db.saveCustomerCredit {} { credit with obj := { credit.obj with expectedConsumption := expected } }
        .expectedConsumption
    | _, _ => .ok db

def updateLinearProject (db : Db) (pc : ProjectCredit) : Except ValidationError Db :=
  match pc.endDate with
  | none => .ok db
  | some endDate =>
    let total := mc.projectTails pc.project + totalProjectCompensation mc.compensations pc.project
    let expected := pc.calculateLinearExpectedConsumption today endDate total
    db.saveProjectCredit {} ⟨{ pc with expectedConsumption := expected }, pc.value⟩ .expectedConsumption

/-- `all_linear_project_credits`. -/
def linearProjectCredits (db : Db) : List ProjectCredit :=
  (db.customerProjectCredits mc.customer).filter (fun pc =>
    pc.minimalConsumptionLogic == .linear && pc.endDate.any (fun d => decide (today < d)))

def updateLinearExpectedConsumption : Except ValidationError Db := do
  let mc := mc.calculateCurrentCompensations db today
  let db ← mc.updateLinearCustomer today db
  (mc.linearProjectCredits today db).foldlM (mc.updateLinearProject today) db

end MonthlyCompensation

/-- `process_invoice_credits`, without its locks. -/
def processInvoiceCredits (db : Db) (today : Date) (inv : Invoice) : Except ValidationError Db := do
  let (db, mc) ← (MonthlyCompensation.init db inv.customer (some inv.id)).applyCompensations db today
  mc.updateLinearExpectedConsumption db today

/-! ## A sample organization -/

/-- One unit of a resource of project `p` of organization 1. -/
def sampleItem (uuid p : ℕ) (price : ℚ) : InvoiceItem where
  uuid := uuid
  unitPrice := price
  quantity := 1
  unit := .quantity
  resource := some ⟨uuid, 1, ⟨p, 1⟩⟩
  project := some ⟨p, 1⟩

/-- An invoice of organization 1 for June 2024, its items as project and price. -/
def sampleInvoice (id : ℕ) (taxPercent : ℚ) (htax : 0 ≤ taxPercent) (items : List (ℕ × ℚ)) : Invoice where
  id := id
  customer := 1
  year := 2024
  month := 6
  taxPercent := taxPercent
  items := items.zipIdx.map (fun it => sampleItem it.2 it.1.1 it.1.2)
  month_valid := june_valid
  tax_nonneg := htax
  attributed := by
    intro it hit r hr
    obtain ⟨x, -, rfl⟩ := List.mem_map.mp hit
    obtain rfl := Option.some.inj hr
    exact ⟨rfl, rfl⟩

/-- 15 June 2024. -/
def midJune : Date := ⟨2024, 6, 15, june_valid, by decide⟩

theorem ten_nonneg : (0 : ℚ) ≤ 10 := by norm_num

theorem noAllocations : (([] : List ProjectCredit).map (·.project)).Nodup := List.nodup_nil

/-- Organization 1 with one credit, project credits and an invoice. -/
def sampleDb (credit : CustomerCredit) (allocations : List ProjectCredit)
    (h : (allocations.map (·.project)).Nodup) (inv : Invoice) : Db :=
  { Db.empty with
    customerCredits := ⟨[credit], by simp⟩
    projectCredits := ⟨allocations, h⟩
    invoices := ⟨[inv], by simp⟩
    nextUuid := 100 }

end Waldur.Invoices
