import Mathlib
import Waldur.Permissions.Models

/-!
# Permissions.PatFiltering — what a scoped personal access token lists and may act on

The list filter has a rule of ORM paths for each model, the check climbs from an object by the attributes that it
happens to have.  A call has a customer by its manager, an offering and a proposal may have a project: the climb
reaches these and no rule names them.  `Mirrored` is the exact condition.
-/

namespace Waldur.Permissions.PatFiltering

/-! ## The models -/

structure Customer where
  id : ℕ

structure Project where
  id : ℕ
  customer : Customer

structure Offering where
  id : ℕ
  customer : Option Customer := none
  project : Option Project := none

structure Resource where
  id : ℕ
  offering : Offering
  project : Project

structure ResourceProject where
  id : ℕ
  resource : Resource

structure ServiceProvider where
  id : ℕ
  customer : Customer

structure CallManagingOrganisation where
  id : ℕ
  customer : Customer

structure Call where
  id : ℕ
  manager : CallManagingOrganisation

structure Proposal where
  id : ℕ
  project : Option Project := none

/-- An object of a model in `TYPE_MAP`. -/
inductive Instance
  | customer (c : Customer)
  | project (p : Project)
  | offering (o : Offering)
  | resource (r : Resource)
  | resourceProject (rp : ResourceProject)
  | serviceProvider (sp : ServiceProvider)
  | callOrganizer (m : CallManagingOrganisation)
  | call (c : Call)
  | proposal (p : Proposal)

namespace Instance

/-- `ContentType.objects.get_for_model(type(instance))`. -/
@[simp] def contentType : Instance → ContentType
  | .customer _ => .customer
  | .project _ => .project
  | .offering _ => .offering
  | .resource _ => .resource
  | .resourceProject _ => .resourceProject
  | .serviceProvider _ => .serviceProvider
  | .callOrganizer _ => .callOrganizer
  | .call _ => .call
  | .proposal _ => .proposal

@[simp] def id : Instance → ℕ
  | .customer c => c.id
  | .project p => p.id
  | .offering o => o.id
  | .resource r => r.id
  | .resourceProject rp => rp.id
  | .serviceProvider sp => sp.id
  | .callOrganizer m => m.id
  | .call c => c.id
  | .proposal p => p.id

/-- The pair that a binding has to match. -/
@[simp] def scope (x : Instance) : Scope := ⟨x.contentType, x.id⟩

/-! ### Attributes: fields and properties, `none` where `hasattr` fails -/

@[simp] def resource? : Instance → Option Resource
  | .resourceProject rp => some rp.resource
  | _ => none

@[simp] def offering? : Instance → Option Offering
  | .resource r => some r.offering
  | _ => none

@[simp] def project? : Instance → Option (Option Project)
  | .offering o => some o.project
  | .resource r => some (some r.project)
  | .resourceProject rp => some (some rp.resource.project)
  | .proposal p => some p.project
  | _ => none

@[simp] def customer? : Instance → Option (Option Customer)
  | .project p => some (some p.customer)
  | .offering o => some o.customer
  | .resource r => some (some r.project.customer)
  | .resourceProject rp => some (some rp.resource.project.customer)
  | .serviceProvider sp => some (some sp.customer)
  | .callOrganizer m => some (some m.customer)
  | .call c => some (some c.manager.customer)
  | _ => none

/-- A project and its customer, where the project is not null. -/
@[simp] def ofProject : Option Project → List Instance
  | none => []
  | some p => [.project p, .customer p.customer]

/-- `get_scope_ancestors`, without the nulls. -/
def getScopeAncestors (x : Instance) : List Instance :=
  [x] ++
  (match x.resource? with
    | none => []
    | some r => [.resource r, .offering r.offering] ++ ofProject (some r.project)) ++
  (x.offering?.map Instance.offering).toList ++
  (match x.project? with
    | none => []
    | some p => ofProject p) ++
  (match x.customer? with
    | none => []
    | some c => (c.map Instance.customer).toList)

end Instance

/-! ## The check of one object -/

/-- `_pat_entity_check`, with `_pat_allowed_pairs`. -/
def patEntityCheck (allowedPairs : List Scope) (x : Instance) : Bool :=
  allowedPairs.isEmpty || x.getScopeAncestors.any fun a => allowedPairs.contains a.scope

/-! ## The filter of a list -/

/-- A condition of the ORM on an object. -/
abbrev Q := Instance → Bool

/-- A builder reads the ids of the bindings of each type; `none` denies everything. -/
abbrev FilterBuilder := (ContentType → List ℕ) → Option Q

/-- `_or`. -/
def orQ (qs : List (Option Q)) : Option Q :=
  match qs.reduceOption with
  | [] => none
  | q :: qs => some fun x => q x || qs.any fun q' => q' x

/-- `_ids_q`, with the path as a function to the id that it leads to. -/
def idsQ (path : Instance → Option ℕ) (ids : List ℕ) : Option Q :=
  if ids.isEmpty then none else some fun x => (path x).any fun id => ids.contains id

section Paths

@[simp] def idPath (x : Instance) : Option ℕ := some x.id

/-- `customer_id`. -/
@[simp] def customerId : Instance → Option ℕ
  | .project p => some p.customer.id
  | .offering o => o.customer.map (·.id)
  | .serviceProvider sp => some sp.customer.id
  | .callOrganizer m => some m.customer.id
  | _ => none

/-- The resource from which the paths of the two resource rules start. -/
@[simp] def fromResource : Instance → Option Resource
  | .resource r => some r
  | .resourceProject rp => some rp.resource
  | _ => none

/-- `resource_id`. -/
@[simp] def resourceId (x : Instance) : Option ℕ := (fromResource x).map (·.id)

/-- `offering_id` and `resource__offering_id`. -/
@[simp] def offeringId (x : Instance) : Option ℕ := (fromResource x).map (·.offering.id)

/-- `project_id` and `resource__project_id`. -/
@[simp] def projectId (x : Instance) : Option ℕ := (fromResource x).map (·.project.id)

/-- `project__customer_id` and `resource__project__customer_id`. -/
@[simp] def projectCustomerId (x : Instance) : Option ℕ := (fromResource x).map (·.project.customer.id)

end Paths

section Rules

variable (ids : ContentType → List ℕ)

def customerRule : Option Q := idsQ idPath (ids .customer)

def projectRule : Option Q := orQ [idsQ idPath (ids .project), idsQ customerId (ids .customer)]

def offeringRule : Option Q := orQ [idsQ idPath (ids .offering), idsQ customerId (ids .customer)]

def resourceRule : Option Q :=
  orQ [idsQ idPath (ids .resource), idsQ offeringId (ids .offering), idsQ projectId (ids .project),
    idsQ projectCustomerId (ids .customer)]

def resourceProjectRule : Option Q :=
  orQ [idsQ idPath (ids .resourceProject), idsQ resourceId (ids .resource), idsQ offeringId (ids .offering),
    idsQ projectId (ids .project), idsQ projectCustomerId (ids .customer)]

def serviceProviderRule : Option Q := orQ [idsQ idPath (ids .serviceProvider), idsQ customerId (ids .customer)]

def callOrganizerRule : Option Q := orQ [idsQ idPath (ids .callOrganizer), idsQ customerId (ids .customer)]

def callRule : Option Q := idsQ idPath (ids .call)

def proposalRule : Option Q := idsQ idPath (ids .proposal)

end Rules

/-- `_FILTER_BUILDERS`, by the content type of the model. -/
def filterBuilders : ContentType → Option FilterBuilder
  | .customer => some customerRule
  | .project => some projectRule
  | .offering => some offeringRule
  | .resource => some resourceRule
  | .resourceProject => some resourceProjectRule
  | .serviceProvider => some serviceProviderRule
  | .callOrganizer => some callOrganizerRule
  | .call => some callRule
  | .proposal => some proposalRule
  | .other _ => none

/-- `_bindings_by_type`; content types outside `TYPE_MAP` have no key, so no rule asks for them. -/
def bindingsByType (allowedPairs : List Scope) (key : ContentType) : List ℕ :=
  (allowedPairs.filter fun b => b.contentType == key).map (·.objectId)

/-- A query on one model. -/
structure QuerySet where
  model : ContentType
  rows : List Instance
  ofModel : ∀ x ∈ rows, x.contentType = model

/-- `PATScopeListFilter.filter_queryset`, of a request with a token. -/
def filterQueryset (allowedPairs : List Scope) (queryset : QuerySet) : List Instance :=
  if allowedPairs.isEmpty then queryset.rows
  else
    match filterBuilders queryset.model with
    | none => queryset.rows
    | some builder =>
      match builder (bindingsByType allowedPairs) with
      | none => []
      | some q => queryset.rows.filter q

/-- **Where the rule of the model misses nothing**: what only the climb reaches, the customer of a call and the project
of an offering or a proposal with its customer, is not bound, or the object is, or the customer of the offering. -/
def Mirrored (allowedPairs : List Scope) : Instance → Prop
  | .offering o => ∀ p, o.project = some p →
      ⟨.project, p.id⟩ ∈ allowedPairs ∨ ⟨.customer, p.customer.id⟩ ∈ allowedPairs →
        ⟨.offering, o.id⟩ ∈ allowedPairs ∨ ∃ c, o.customer = some c ∧ ⟨.customer, c.id⟩ ∈ allowedPairs
  | .call c => ⟨.customer, c.manager.customer.id⟩ ∈ allowedPairs → ⟨.call, c.id⟩ ∈ allowedPairs
  | .proposal p => ∀ project, p.project = some project →
      ⟨.project, project.id⟩ ∈ allowedPairs ∨ ⟨.customer, project.customer.id⟩ ∈ allowedPairs →
        ⟨.proposal, p.id⟩ ∈ allowedPairs
  | _ => True

/-! ## The rules as memberships -/

variable {allowedPairs : List Scope} {x : Instance} {q : Q}

theorem contains_bindingsByType {key : ContentType} {id : ℕ} :
    (bindingsByType allowedPairs key).contains id = true ↔ ⟨key, id⟩ ∈ allowedPairs := by
  unfold bindingsByType
  rw [List.contains_iff_mem, List.mem_map]
  constructor
  · rintro ⟨b, hb, rfl⟩
    obtain ⟨hmem, hkey⟩ := List.mem_filter.mp hb
    rwa [← beq_iff_eq.mp hkey]
  · intro h
    exact ⟨_, List.mem_filter.mpr ⟨h, beq_self_eq_true _⟩, rfl⟩

/-- A condition that may be absent holds of an object. -/
def Selects (q : Option Q) (x : Instance) : Prop := ∃ p, q = some p ∧ p x = true

theorem selects_orQ {qs : List (Option Q)} : Selects (orQ qs) x ↔ ∃ q ∈ qs, Selects q x := by
  have hreduce : ∀ p : Q, p ∈ qs.reduceOption ↔ some p ∈ qs := fun p => List.reduceOption_mem_iff
  unfold orQ Selects
  constructor
  · rintro ⟨p, hp, hx⟩
    split at hp
    · cases hp
    · next q' qs' heq =>
      obtain rfl := Option.some.inj hp
      rcases Bool.or_eq_true_iff.mp hx with hq | hqs
      · exact ⟨some q', (hreduce q').mp (heq ▸ List.mem_cons_self), q', rfl, hq⟩
      · obtain ⟨r, hr, hrx⟩ := List.any_eq_true.mp hqs
        exact ⟨some r, (hreduce r).mp (heq ▸ List.mem_cons_of_mem _ hr), r, rfl, hrx⟩
  · rintro ⟨q', hq', p, rfl, hx⟩
    have hmem := (hreduce p).mpr hq'
    split
    · next heq =>
      rw [heq] at hmem
      cases hmem
    · next q' qs' heq =>
      rw [heq] at hmem
      refine ⟨_, rfl, Bool.or_eq_true_iff.mpr ?_⟩
      rcases List.mem_cons.mp hmem with rfl | hmem
      · exact Or.inl hx
      · exact Or.inr (List.any_eq_true.mpr ⟨p, hmem, hx⟩)

/-- A path selects the objects that it leads from to a binding. -/
theorem selects_idsQ {path : Instance → Option ℕ} {key : ContentType} :
    Selects (idsQ path (bindingsByType allowedPairs key)) x ↔ ∃ id, path x = some id ∧ ⟨key, id⟩ ∈ allowedPairs := by
  unfold Selects idsQ
  constructor
  · rintro ⟨p, hp, hx⟩
    split at hp
    · cases hp
    · obtain rfl := Option.some.inj hp
      obtain ⟨id, hid, hcontains⟩ := (Option.any_eq_true _ _).mp hx
      exact ⟨id, hid, contains_bindingsByType.mp hcontains⟩
  · rintro ⟨id, hid, hmem⟩
    have hcontains := contains_bindingsByType.mpr hmem
    split
    · next hempty =>
      rw [List.isEmpty_iff.mp hempty] at hcontains
      cases hcontains
    · exact ⟨_, rfl, (Option.any_eq_true _ _).mpr ⟨id, hid, hcontains⟩⟩

theorem patEntityCheck_iff : patEntityCheck allowedPairs x = true ↔
    allowedPairs = [] ∨ ∃ a ∈ x.getScopeAncestors, a.scope ∈ allowedPairs := by
  unfold patEntityCheck
  rw [Bool.or_eq_true, List.isEmpty_iff, List.any_eq_true]
  simp only [List.contains_iff_mem]

/-- An object is listed if the token is not scoped, or the rule of its model selects it. -/
theorem mem_filterQueryset {queryset : QuerySet} {builder : FilterBuilder} (hx : x ∈ queryset.rows)
    (hbuilder : filterBuilders queryset.model = some builder) :
    x ∈ filterQueryset allowedPairs queryset ↔
      allowedPairs = [] ∨ Selects (builder (bindingsByType allowedPairs)) x := by
  unfold filterQueryset
  by_cases hempty : allowedPairs = []
  · rw [if_pos (List.isEmpty_iff.mpr hempty)]
    exact iff_of_true hx (Or.inl hempty)
  · rw [if_neg (mt List.isEmpty_iff.mp hempty), hbuilder, or_iff_right hempty]
    dsimp only
    unfold Selects
    cases builder (bindingsByType allowedPairs) with
    | none => simp
    | some q => simp [hx]

/-- The rules of the six models whose parents are all named select what the climb reaches. -/
theorem selects_iff_climb {builder : FilterBuilder} (hbuilder : filterBuilders x.contentType = some builder)
    (hoffering : ∀ o, x ≠ .offering o) (hcall : ∀ c, x ≠ .call c) (hproposal : ∀ p, x ≠ .proposal p) :
    Selects (builder (bindingsByType allowedPairs)) x ↔ ∃ a ∈ x.getScopeAncestors, a.scope ∈ allowedPairs := by
  cases x with
  | customer c =>
    obtain rfl := Option.some.inj hbuilder
    simp [customerRule, selects_idsQ, Instance.getScopeAncestors]
  | project p =>
    obtain rfl := Option.some.inj hbuilder
    simp [projectRule, selects_orQ, selects_idsQ, Instance.getScopeAncestors]
  | resource r =>
    obtain rfl := Option.some.inj hbuilder
    simp [resourceRule, selects_orQ, selects_idsQ, Instance.getScopeAncestors]
  | resourceProject rp =>
    obtain rfl := Option.some.inj hbuilder
    simp [resourceProjectRule, selects_orQ, selects_idsQ, Instance.getScopeAncestors]
    -- The climb comes to the project and its customer twice.
    tauto
  | serviceProvider sp =>
    obtain rfl := Option.some.inj hbuilder
    simp [serviceProviderRule, selects_orQ, selects_idsQ, Instance.getScopeAncestors]
  | callOrganizer m =>
    obtain rfl := Option.some.inj hbuilder
    simp [callOrganizerRule, selects_orQ, selects_idsQ, Instance.getScopeAncestors]
  | offering o => exact absurd rfl (hoffering o)
  | call c => exact absurd rfl (hcall c)
  | proposal p => exact absurd rfl (hproposal p)

theorem selects_offering_iff {o : Offering} : (Selects (offeringRule (bindingsByType allowedPairs)) (.offering o) ↔
    ∃ a ∈ (Instance.offering o).getScopeAncestors, a.scope ∈ allowedPairs) ↔ Mirrored allowedPairs (.offering o) := by
  obtain ⟨id, customer, project⟩ := o
  cases project with
  | none => cases customer <;> simp [offeringRule, selects_orQ, selects_idsQ, Instance.getScopeAncestors, Mirrored]
  | some p =>
    cases customer with
    | none => simp [offeringRule, selects_orQ, selects_idsQ, Instance.getScopeAncestors, Mirrored]
    | some c =>
      simp [offeringRule, selects_orQ, selects_idsQ, Instance.getScopeAncestors, Mirrored]
      tauto

theorem selects_call_iff {c : Call} : (Selects (callRule (bindingsByType allowedPairs)) (.call c) ↔
    ∃ a ∈ (Instance.call c).getScopeAncestors, a.scope ∈ allowedPairs) ↔ Mirrored allowedPairs (.call c) := by
  simp [callRule, selects_idsQ, Instance.getScopeAncestors, Mirrored]

theorem selects_proposal_iff {p : Proposal} : (Selects (proposalRule (bindingsByType allowedPairs)) (.proposal p) ↔
    ∃ a ∈ (Instance.proposal p).getScopeAncestors, a.scope ∈ allowedPairs) ↔ Mirrored allowedPairs (.proposal p) := by
  obtain ⟨id, project⟩ := p
  cases project <;> simp [proposalRule, selects_idsQ, Instance.getScopeAncestors, Mirrored]

/-- Without bindings nothing is missed. -/
theorem mirrored_nil : Mirrored [] x := by
  cases x <;> simp [Mirrored]

/-- One object of a query. -/
theorem listed_iff_checked {queryset : QuerySet} (hx : x ∈ queryset.rows) :
    (x ∈ filterQueryset allowedPairs queryset ↔ patEntityCheck allowedPairs x = true) ↔ Mirrored allowedPairs x := by
  by_cases hempty : allowedPairs = []
  · subst hempty
    refine iff_of_true ?_ mirrored_nil
    exact iff_of_true hx rfl
  · have hmodel := queryset.ofModel x hx
    have hselects : ∀ {builder : FilterBuilder}, filterBuilders x.contentType = some builder →
        ((x ∈ filterQueryset allowedPairs queryset ↔ patEntityCheck allowedPairs x = true) ↔
          (Selects (builder (bindingsByType allowedPairs)) x ↔
            ∃ a ∈ x.getScopeAncestors, a.scope ∈ allowedPairs)) := by
      intro builder hbuilder
      rw [hmodel] at hbuilder
      rw [mem_filterQueryset hx hbuilder, patEntityCheck_iff, or_iff_right hempty, or_iff_right hempty]
    cases x with
    | offering o => exact (hselects rfl).trans selects_offering_iff
    | call c => exact (hselects rfl).trans selects_call_iff
    | proposal p => exact (hselects rfl).trans selects_proposal_iff
    | _ =>
      refine (hselects rfl).trans (iff_of_true ?_ trivial)
      refine selects_iff_climb rfl ?_ ?_ ?_ <;> intro y hy <;> cases hy

/-- **When the list agrees with the check**: for every query on a model and every token, the objects that are listed
are those that the token may act on, exactly if no rule misses a binding of one of them. -/
theorem pat_filter_iff (allowedPairs : List Scope) (queryset : QuerySet) :
    (∀ x ∈ queryset.rows, x ∈ filterQueryset allowedPairs queryset ↔ patEntityCheck allowedPairs x = true) ↔
      ∀ x ∈ queryset.rows, Mirrored allowedPairs x :=
  forall₂_congr fun _ hx => listed_iff_checked hx

/-- A call whose managing organisation is that of the customer 7. -/
def managedCall : Call := ⟨1, ⟨2, ⟨7⟩⟩⟩

theorem managedCall_model : ∀ x ∈ [Instance.call managedCall], x.contentType = .call := by
  intro x hx
  obtain rfl := List.mem_singleton.mp hx
  rfl

/-- The one call. -/
def managedCalls : QuerySet := ⟨.call, [.call managedCall], managedCall_model⟩

/-- A token of the customer may act on the call and does not list it. -/
theorem managedCall_hidden : ¬ ∀ (allowedPairs : List Scope) (queryset : QuerySet), ∀ x ∈ queryset.rows,
    x ∈ filterQueryset allowedPairs queryset ↔ patEntityCheck allowedPairs x = true := by
  intro hall
  have hlisted := (hall [⟨.customer, 7⟩] managedCalls (.call managedCall) List.mem_cons_self).mpr rfl
  cases hlisted

end Waldur.Permissions.PatFiltering
