import Mathlib
import Waldur.OfferingMerge.Models

/-!
# OfferingMerge.Snapshots — rewriting and restoring the details of an invoice item

`_rewrite_snapshot` puts what the target is called into the keys that a document has, and `_restore_keys` takes the keys
of a rewrite back one by one.  What each leaves under a key is said once: `rewriteSnapshot_offering`,
`rewriteSnapshot_plan` and `rewriteSnapshot_planComponent` for the three keys that name something, `restoreDocument_iff`
for the way back.
-/

namespace Waldur.OfferingMerge

open Documents Document PythonText Relational

/-! ## Reading a value -/

/-- `_hex`. -/
def hexOf : Value → Option Uuid
  | .leaf (.text s) => readUuid s
  | .leaf (.int n) => readUuid (toString n)
  | _ => none

/-- `_as_int`. -/
def asInt : Value → Option ℤ
  | .leaf (.text s) => readInt s
  | .leaf (.int n) => some n
  | .leaf (.float x) => some (if 0 ≤ x then ⌊x⌋ else ⌈x⌉)
  | .leaf (.bool b) => some (if b then 1 else 0)
  | _ => none

/-! ## `_rewrite_snapshot` -/

section Rewrite

def offeringUuid : Key := ⟨"offering_uuid"⟩
def offeringName : Key := ⟨"offering_name"⟩
def offeringType : Key := ⟨"offering_type"⟩
def serviceProviderUuid : Key := ⟨"service_provider_uuid"⟩
def serviceProviderName : Key := ⟨"service_provider_name"⟩
def planUuid : Key := ⟨"plan_uuid"⟩
def planName : Key := ⟨"plan_name"⟩
def planComponentId : Key := ⟨"plan_component_id"⟩
def offeringComponentType : Key := ⟨"offering_component_type"⟩
def offeringComponentName : Key := ⟨"offering_component_name"⟩

/-- `_SnapshotMap`: how the snapshots of one moved resource are rewritten. -/
structure SnapshotMap where
  offeringUuids : List Uuid
  offering : Offering
  providerChanges : Bool
  planComponents : ℕ → Option PlanComponent
  plans : Uuid → Option Plan
  componentTypes : Key → Option OfferingComponent

/-- A new value as text where text was. -/
def asPresent (old : Value) (value : Leaf) : Leaf :=
  match old, value with
  | .leaf (.text _), .int n => .text (toString n)
  | _, _ => value

/-- `_set_present`: a value under a key that the document has. -/
def setPresent (d : Document Key Value) (k : Key) (value : Leaf) : Document Key Value :=
  match d.get? k with
  | none => d
  | some old => d.insert k (.leaf (asPresent old value))

/-- The offering-level keys. -/
def setOffering (mapping : SnapshotMap) (d : Document Key Value) : Document Key Value :=
  let offering := setPresent (setPresent (setPresent d offeringUuid (.text (hex mapping.offering.uuid)))
    offeringName (.text mapping.offering.name)) offeringType (.text mapping.offering.type)
  if mapping.providerChanges then
    setPresent (setPresent offering serviceProviderUuid (.text mapping.offering.providerUuid))
      serviceProviderName (.text mapping.offering.customerName)
  else offering

/-- The keys of the plan. -/
def setPlan (plan : Option Plan) (d : Document Key Value) : Document Key Value :=
  match plan with
  | none => d
  | some plan => setPresent (setPresent d planUuid (.text (hex plan.uuid))) planName (.text plan.name)

def setPlanComponent (planComponent : Option PlanComponent) (d : Document Key Value) : Document Key Value :=
  match planComponent with
  | none => d
  | some pc => setPresent d planComponentId (.int pc.id)

/-- The keys of the component. -/
def setComponent (component : Option OfferingComponent) (d : Document Key Value) : Document Key Value :=
  match component with
  | none => d
  | some k => setPresent (setPresent d offeringComponentType (.text k.type.name)) offeringComponentName (.text k.name)

/-- The uuid that a key of a document names. -/
def uuidAt (d : Document Key Value) (k : Key) : Option Uuid := (d.get? k).bind hexOf

/-- The plan component that a document names. -/
def planComponentAt (d : Document Key Value) : Option ℤ := (d.get? planComponentId).bind asInt

/-- The plan component of an item: by the foreign key, else by the details. -/
def snapshotPlanComponent (mapping : SnapshotMap) (d : Document Key Value) (planComponent : Option ℕ) :
    Option PlanComponent :=
  (planComponent.bind mapping.planComponents).orElse fun _ =>
    ((planComponentAt d).bind Int.toNat?).bind mapping.planComponents

/-- The component whose type and name the details show. -/
def snapshotComponent (c : Catalogue) (mapping : SnapshotMap) (d : Document Key Value) (planComponent : Option ℕ) :
    Option OfferingComponent :=
  match snapshotPlanComponent mapping d planComponent with
  | some pc => pc.component.bind c.components.get?
  | none =>
    match d.get? offeringComponentType with
    | some (.leaf (.text s)) => mapping.componentTypes ⟨s⟩
    | _ => none

/-- `_rewrite_snapshot` on an object. -/
def rewriteDocument (c : Catalogue) (mapping : SnapshotMap) (d : Document Key Value) (planComponent : Option ℕ) :
    Document Key Value :=
  let withOffering := if (uuidAt d offeringUuid).any mapping.offeringUuids.contains then setOffering mapping d else d
  let withPlan := setPlan ((uuidAt d planUuid).bind mapping.plans) withOffering
  let withPlanComponent := setPlanComponent (snapshotPlanComponent mapping d planComponent) withPlan
  setComponent (snapshotComponent c mapping d planComponent) withPlanComponent

/-- `_rewrite_snapshot`: the new details and the new plan component. -/
def rewriteSnapshot (c : Catalogue) (mapping : SnapshotMap) (details : Column) (planComponent : Option ℕ) :
    Column × Option ℕ :=
  let new := ((planComponent.bind mapping.planComponents).map (·.id)).orElse fun _ => planComponent
  match details with
  | .object d => (.object (rewriteDocument c mapping d planComponent), new)
  | .plain l => (.plain l, new)

variable {c : Catalogue} {mapping : SnapshotMap} {d : Document Key Value} {k k' : Key} {value : Leaf} {s : String}
  {planComponent : Option ℕ}

theorem get?_setPresent : (setPresent d k value).get? k = (d.get? k).map fun old => .leaf (asPresent old value) := by
  unfold setPresent
  cases hk : d.get? k with
  | none => exact hk
  | some old => exact get?_insert_self

theorem get?_setPresent_ne (h : k' ≠ k) : (setPresent d k value).get? k' = d.get? k' := by
  unfold setPresent
  cases d.get? k with
  | none => rfl
  | some old => exact get?_insert_ne h

theorem hexOf_asPresent (old : Value) (u : Uuid) : hexOf (.leaf (asPresent old (.text (hex u)))) = some u := by
  have htext : asPresent old (.text (hex u)) = .text (hex u) := by
    unfold asPresent
    split
    · next hvalue => cases hvalue
    · rfl
  rw [htext]
  exact readUuid_hex u

theorem asInt_asPresent (old : Value) (n : ℕ) : asInt (.leaf (asPresent old (.int n))) = some (n : ℤ) := by
  unfold asPresent
  split
  · next hvalue =>
    obtain rfl := Leaf.int.inj hvalue
    exact readInt_repr n
  · rfl

theorem get?_setComponent {component : Option OfferingComponent} (htype : k ≠ offeringComponentType)
    (hname : k ≠ offeringComponentName) : (setComponent component d).get? k = d.get? k := by
  unfold setComponent
  split
  · rfl
  · rw [get?_setPresent_ne hname, get?_setPresent_ne htype]

theorem get?_setPlanComponent_ne {pc : Option PlanComponent} (h : k ≠ planComponentId) :
    (setPlanComponent pc d).get? k = d.get? k := by
  unfold setPlanComponent
  split
  · rfl
  · exact get?_setPresent_ne h

theorem get?_setPlan_ne {plan : Option Plan} (huuid : k ≠ planUuid) (hname : k ≠ planName) :
    (setPlan plan d).get? k = d.get? k := by
  unfold setPlan
  split
  · rfl
  · rw [get?_setPresent_ne hname, get?_setPresent_ne huuid]

theorem get?_setOffering_ne (h : k ∉ [offeringUuid, offeringName, offeringType, serviceProviderUuid, serviceProviderName]) :
    (setOffering mapping d).get? k = d.get? k := by
  simp only [List.mem_cons, List.not_mem_nil, or_false, not_or] at h
  obtain ⟨huuid, hname, htype, hprovider, hcustomer⟩ := h
  unfold setOffering
  simp only
  split
  · rw [get?_setPresent_ne hcustomer, get?_setPresent_ne hprovider, get?_setPresent_ne htype, get?_setPresent_ne hname,
      get?_setPresent_ne huuid]
  · rw [get?_setPresent_ne htype, get?_setPresent_ne hname, get?_setPresent_ne huuid]

theorem uuidAt_setOffering (h : (uuidAt d offeringUuid).isSome) :
    uuidAt (setOffering mapping d) offeringUuid = some mapping.offering.uuid := by
  have hset : (setOffering mapping d).get? offeringUuid =
      (setPresent d offeringUuid (.text (hex mapping.offering.uuid))).get? offeringUuid := by
    unfold setOffering
    simp only
    split
    · rw [get?_setPresent_ne (by decide), get?_setPresent_ne (by decide), get?_setPresent_ne (by decide),
        get?_setPresent_ne (by decide)]
    · rw [get?_setPresent_ne (by decide), get?_setPresent_ne (by decide)]
  unfold uuidAt at h ⊢
  rw [hset, get?_setPresent]
  cases hd : d.get? offeringUuid with
  | none =>
    rw [hd] at h
    cases h
  | some old => exact hexOf_asPresent old _

/-- The offering that a rewritten document names. -/
theorem rewriteDocument_offering : uuidAt (rewriteDocument c mapping d planComponent) offeringUuid =
    if (uuidAt d offeringUuid).any mapping.offeringUuids.contains then some mapping.offering.uuid
    else uuidAt d offeringUuid := by
  have hkept : ∀ d' : Document Key Value, uuidAt (setComponent (snapshotComponent c mapping d planComponent)
      (setPlanComponent (snapshotPlanComponent mapping d planComponent)
        (setPlan ((uuidAt d planUuid).bind mapping.plans) d'))) offeringUuid = uuidAt d' offeringUuid := by
    intro d'
    unfold uuidAt
    rw [get?_setComponent (by decide) (by decide), get?_setPlanComponent_ne (by decide),
      get?_setPlan_ne (by decide) (by decide)]
  unfold rewriteDocument
  rw [hkept]
  split_ifs with hnamed
  · refine uuidAt_setOffering ?_
    cases hd : uuidAt d offeringUuid with
    | none =>
      rw [hd] at hnamed
      cases hnamed
    | some u => rfl
  · rfl

theorem uuidAt_setPlan {plans : Uuid → Option Plan} {d' : Document Key Value} (h : uuidAt d' planUuid = uuidAt d planUuid) :
    uuidAt (setPlan ((uuidAt d planUuid).bind plans) d') planUuid =
      (uuidAt d planUuid).bind fun u => ((plans u).map (·.uuid)).orElse fun _ => some u := by
  cases hu : uuidAt d planUuid with
  | none => exact h.trans hu
  | some u =>
    cases hplan : plans u with
    | none =>
      rw [Option.bind_some, Option.bind_some, hplan]
      exact h.trans hu
    | some plan =>
      rw [Option.bind_some, Option.bind_some, hplan]
      show ((setPresent (setPresent d' planUuid (.text (hex plan.uuid))) planName (.text plan.name)).get? planUuid).bind
        hexOf = some plan.uuid
      rw [get?_setPresent_ne (by decide), get?_setPresent]
      cases hd : d'.get? planUuid with
      | none =>
        have hnone : uuidAt d' planUuid = none := by
          unfold uuidAt
          rw [hd, Option.bind_none]
        rw [hnone, hu] at h
        cases h
      | some old => exact hexOf_asPresent old plan.uuid

/-- The plan that a rewritten document names. -/
theorem rewriteDocument_plan : uuidAt (rewriteDocument c mapping d planComponent) planUuid =
    (uuidAt d planUuid).bind fun u => ((mapping.plans u).map (·.uuid)).orElse fun _ => some u := by
  have hafter : ∀ d' : Document Key Value, uuidAt (setComponent (snapshotComponent c mapping d planComponent)
      (setPlanComponent (snapshotPlanComponent mapping d planComponent) d')) planUuid = uuidAt d' planUuid := by
    intro d'
    unfold uuidAt
    rw [get?_setComponent (by decide) (by decide), get?_setPlanComponent_ne (by decide)]
  unfold rewriteDocument
  rw [hafter]
  refine uuidAt_setPlan ?_
  split_ifs
  · unfold uuidAt
    rw [get?_setOffering_ne (by decide)]
  · rfl

/-- The plan component that a rewritten document names. -/
theorem rewriteDocument_planComponent : planComponentAt (rewriteDocument c mapping d planComponent) =
    (snapshotPlanComponent mapping d planComponent).elim (planComponentAt d)
      fun pc => (d.get? planComponentId).map fun _ => (pc.id : ℤ) := by
  have hbefore : (setPlan ((uuidAt d planUuid).bind mapping.plans)
      (if (uuidAt d offeringUuid).any mapping.offeringUuids.contains then setOffering mapping d else d)).get?
        planComponentId = d.get? planComponentId := by
    rw [get?_setPlan_ne (by decide) (by decide)]
    split_ifs
    · exact get?_setOffering_ne (by decide)
    · rfl
  unfold rewriteDocument planComponentAt
  rw [get?_setComponent (by decide) (by decide)]
  cases snapshotPlanComponent mapping d planComponent with
  | none =>
    unfold setPlanComponent
    exact congrArg (Option.bind · asInt) hbefore
  | some pc =>
    unfold setPlanComponent
    simp only
    rw [get?_setPresent, hbefore]
    cases d.get? planComponentId with
    | none => rfl
    | some old => exact asInt_asPresent old pc.id

end Rewrite

/-! ## `_restore_keys` -/

section Restore

/-- One key of the loop: a key that the rewrite changed gets its old value, unless it changed since. -/
def restoreKey (current old new : Document Key Value) (result : Document Key Value) (k : Key) :
    Option (Document Key Value) :=
  if old.get? k = new.get? k then some result
  else if current.get? k ≠ new.get? k then none
  else match old.get? k with
    | some v => some (result.insert k v)
    | none => some (result.erase k)

/-- `_restore_keys` on objects. -/
def restoreDocument (current old new : Document Key Value) : Option (Document Key Value) :=
  (old.keys ++ new.keys).dedup.foldlM (restoreKey current old new) current

/-- `_restore_keys`. -/
def restoreKeys (current old new : Column) : Option Column :=
  match current, old, new with
  | .object current, .object old, .object new => (restoreDocument current old new).map .object
  | _, _, _ => if current = new then some old else none

variable {current old new result init : Document Key Value} {k : Key}

theorem get?_restoreKey (h : restoreKey current old new init k = some result) (k' : Key) :
    (old.get? k ≠ new.get? k → current.get? k = new.get? k) ∧
      result.get? k' = if k' = k ∧ old.get? k ≠ new.get? k then old.get? k else init.get? k' := by
  unfold restoreKey at h
  split_ifs at h with hsame hchanged
  · obtain rfl := Option.some.inj h
    exact ⟨fun hne => absurd hsame hne, by rw [if_neg fun hand => hand.2 hsame]⟩
  · refine ⟨fun _ => not_ne_iff.mp hchanged, ?_⟩
    by_cases hk : k' = k
    · subst hk
      rw [if_pos ⟨rfl, hsame⟩]
      cases hold : old.get? k' with
      | none =>
        rw [hold] at h
        obtain rfl := Option.some.inj h
        exact get?_erase_self
      | some v =>
        rw [hold] at h
        obtain rfl := Option.some.inj h
        exact get?_insert_self
    · rw [if_neg fun hand => hk hand.1]
      cases hold : old.get? k with
      | none =>
        rw [hold] at h
        obtain rfl := Option.some.inj h
        exact get?_erase_ne hk
      | some v =>
        rw [hold] at h
        obtain rfl := Option.some.inj h
        exact get?_insert_ne hk

theorem isSome_restoreKey (h : old.get? k ≠ new.get? k → current.get? k = new.get? k) :
    (restoreKey current old new init k).isSome = true := by
  unfold restoreKey
  split_ifs with hsame hchanged
  · rfl
  · exact absurd (h hsame) hchanged
  · split <;> rfl

theorem get?_restoreLoop {keys : List Key} (h : keys.foldlM (restoreKey current old new) init = some result) :
    (∀ k ∈ keys, old.get? k ≠ new.get? k → current.get? k = new.get? k) ∧
      ∀ k, result.get? k = if k ∈ keys ∧ old.get? k ≠ new.get? k then old.get? k else init.get? k := by
  induction keys generalizing init with
  | nil =>
    obtain rfl := Option.some.inj h
    exact ⟨fun k hk => absurd hk List.not_mem_nil, fun k => by rw [if_neg fun hand => List.not_mem_nil hand.1]⟩
  | cons k keys ih =>
    rw [List.foldlM_cons] at h
    obtain ⟨middle, hstep, hrest⟩ := Option.bind_eq_some_iff.mp h
    obtain ⟨hunchanged, hvalues⟩ := ih hrest
    refine ⟨fun k' hk' => ?_, fun k' => ?_⟩
    · rcases List.mem_cons.mp hk' with rfl | hk'
      · exact (get?_restoreKey hstep k').1
      · exact hunchanged k' hk'
    · rw [hvalues k', (get?_restoreKey hstep k').2]
      by_cases hne : old.get? k' ≠ new.get? k'
      · by_cases hk' : k' = k
        · subst hk'
          simp [hne]
        · simp [hne, hk']
      · have hne' : ¬ (k' = k ∧ old.get? k ≠ new.get? k) := fun hand => hne (hand.1 ▸ hand.2)
        rw [if_neg fun hand => hne hand.2, if_neg hne', if_neg fun hand => hne hand.2]

theorem isSome_restoreLoop {keys : List Key}
    (h : ∀ k ∈ keys, old.get? k ≠ new.get? k → current.get? k = new.get? k) :
    (keys.foldlM (restoreKey current old new) init).isSome = true := by
  induction keys generalizing init with
  | nil => rfl
  | cons k keys ih =>
    rw [List.foldlM_cons]
    obtain ⟨middle, hstep⟩ := Option.isSome_iff_exists.mp
      (@isSome_restoreKey current old new init k (h k List.mem_cons_self))
    rw [hstep]
    exact ih fun k' hk' => h k' (List.mem_cons_of_mem _ hk')

theorem ne_mem_keys (h : old.get? k ≠ new.get? k) : k ∈ (old.keys ++ new.keys).dedup := by
  rw [List.mem_dedup, List.mem_append]
  by_contra hnone
  rw [not_or, ← get?_eq_none, ← get?_eq_none] at hnone
  exact h (hnone.1.trans hnone.2.symm)

/-- **What a restore leaves**: it takes back exactly the keys that the rewrite changed, and it is refused exactly where
one of them has changed since. -/
theorem restoreDocument_iff : restoreDocument current old new = some result ↔
    (∀ k, old.get? k ≠ new.get? k → current.get? k = new.get? k) ∧
      ∀ k, result.get? k = if old.get? k = new.get? k then current.get? k else old.get? k := by
  have hvalues : ∀ {r : Document Key Value}, restoreDocument current old new = some r →
      ∀ k, r.get? k = if old.get? k = new.get? k then current.get? k else old.get? k := by
    intro r h k
    rw [(get?_restoreLoop h).2 k]
    by_cases hsame : old.get? k = new.get? k
    · rw [if_neg fun hand => hand.2 hsame, if_pos hsame]
    · rw [if_pos ⟨ne_mem_keys hsame, hsame⟩, if_neg hsame]
  constructor
  · intro h
    exact ⟨fun k hne => (get?_restoreLoop h).1 k (ne_mem_keys hne) hne, hvalues h⟩
  · rintro ⟨hunchanged, hresult⟩
    obtain ⟨r, hr⟩ := Option.isSome_iff_exists.mp (@isSome_restoreLoop current old new current
      (old.keys ++ new.keys).dedup fun k _ => hunchanged k)
    have heq : r = result := ext_get? fun k => (hvalues hr k).trans (hresult k).symm
    exact heq ▸ hr

end Restore

end Waldur.OfferingMerge
