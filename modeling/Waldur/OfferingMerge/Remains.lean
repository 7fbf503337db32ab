import Mathlib
import Waldur.OfferingMerge.Execute

/-!
# OfferingMerge.Remains — what a merge leaves on the sources

A row moves if its reference is mapped, and an unmapped one is skipped on the assumption that it refused the merge.  It
does where `PLAN_REFERENCES` or `COMPONENT_REFERENCES` names the relation; the plan of an autoprovisioning rule and the
component of a usage policy are in neither list.  `RestMapped` is the exact condition.
-/

namespace Waldur.OfferingMerge

open Documents PythonText Relational Repointing

/-- The unique sets of the registry, as the database keeps them. -/
def Db.Unique (db : Db) : Prop :=
  ∀ e ∈ relations, e.uniqueWith ≠ [] → ∀ r ∈ (db.table e.model).rows, ∀ r' ∈ (db.table e.model).rows,
    (r.refs e.attname).isSome = true → r.refs e.attname = r'.refs e.attname →
      e.uniqueWith.map r.refs = e.uniqueWith.map r'.refs → r = r'

variable {c : Catalogue}

namespace Merge

/-- The row refers to a source, to a plan of one or to a component of one. -/
def Remains (m : Merge c) (e : Relation) (r : Row) : Prop := ∃ v ∈ m.sourceIdsFor e.related, r.refs e.attname = some v

/-- **Nothing is left behind**: a row that remains is reported, the unique sets are unique, and every row is there. -/
structure NothingBehind (m : Merge c) (db after : Db) : Prop where
  reported : ∀ e ∈ relations, ∀ r ∈ (after.table e.model).rows, m.Remains e r → r.id ∈ m.leftOnSource db e
  unique : after.Unique
  kept : ∀ model, (after.table model).rows.map (·.id) = (db.table model).rows.map (·.id)

/-- **The references that no list names are mapped**: the source plans of autoprovisioning rules and the source
components of customer usage policies. -/
structure RestMapped (m : Merge c) (db : Db) : Prop where
  rule : ∀ r ∈ (db.table .rule).rows, ∀ p ∈ m.sourceIdsFor .plan, r.refs .plan = some p → (m.planMap p).isSome = true
  usagePolicy : ∀ r ∈ (db.table .customerUsagePolicyComponent).rows, ∀ k ∈ m.sourceIdsFor .component,
    r.refs .component = some k → (m.componentMap k).isSome = true

variable {m : Merge c} {db : Db} {e : Relation} {r : Row} {v a : ℕ}

/-! ## Without blockers -/

theorem blockers_nil (h : m.blockers db = []) : m.target.id ∉ m.sourceIds ∧ m.checkPlanMapping db = [] ∧
    m.checkComponentMapping db = [] ∧ m.checkCollisions db = [] := by
  unfold blockers at h
  simp only [List.append_eq_nil_iff] at h
  obtain ⟨⟨⟨⟨⟨⟨hselection, hplans⟩, hcomponents⟩, -⟩, -⟩, hcollisions⟩, -⟩ := h
  refine ⟨fun hmem => ?_, hplans, hcomponents, hcollisions⟩
  unfold checkSelection at hselection
  simp only [List.append_eq_nil_iff] at hselection
  have hsource := hselection.1.1.1.2
  rw [if_pos (List.contains_iff_mem.mpr hmem)] at hsource
  cases hsource

theorem planMap_of_mem {p : Plan} (hp : p ∈ m.sourcePlans) : m.planMap p.id = (m.targetPlan p).map (·.id) := by
  have hfind : m.sourcePlans.find? (fun p' => p'.id = p.id) = some p := by
    cases h : m.sourcePlans.find? fun p' => p'.id = p.id with
    | none => simpa using List.find?_eq_none.mp h p hp
    | some p' =>
      have hid : p'.id = p.id := by simpa using List.find?_some h
      have hp' : p' ∈ c.plans.rows := List.mem_of_mem_filter (List.mem_of_find?_eq_some h)
      rw [c.plans.eq_of_key_eq hp' (List.mem_of_mem_filter hp) hid]
  unfold planMap
  rw [hfind, Option.bind_some]

theorem componentMap_of_mem {k : OfferingComponent} (hk : k ∈ m.sourceComponents) :
    m.componentMap k.id = (m.targetComponent k).map (·.id) := by
  have hfind : m.sourceComponents.find? (fun k' => k'.id = k.id) = some k := by
    cases h : m.sourceComponents.find? fun k' => k'.id = k.id with
    | none => simpa using List.find?_eq_none.mp h k hk
    | some k' =>
      have hid : k'.id = k.id := by simpa using List.find?_some h
      have hk' : k' ∈ c.components.rows := List.mem_of_mem_filter (List.mem_of_find?_eq_some h)
      rw [c.components.eq_of_key_eq hk' (List.mem_of_mem_filter hk) hid]
  unfold componentMap
  rw [hfind, Option.bind_some]

/-- A source plan that a listed relation refers to is mapped. -/
theorem planMap_isSome (h : m.checkPlanMapping db = []) {p : Plan} (hp : p ∈ m.sourcePlans)
    (href : referencedPlan db p.id = true) : (m.planMap p.id).isSome = true := by
  rw [planMap_of_mem hp, Option.isSome_map]
  unfold checkPlanMapping at h
  have hp' := List.flatMap_eq_nil_iff.mp (List.append_eq_nil_iff.mp h).2 p hp
  cases htarget : m.targetPlan p with
  | some p' => rfl
  | none =>
    rw [htarget] at hp'
    simp only [href, if_true] at hp'
    cases hp'

/-- A source component that a listed relation refers to is mapped. -/
theorem componentMap_isSome (h : m.checkComponentMapping db = []) {k : OfferingComponent} (hk : k ∈ m.sourceComponents)
    (href : m.referencedComponent db k = true) : (m.componentMap k.id).isSome = true := by
  rw [componentMap_of_mem hk, Option.isSome_map]
  obtain ⟨s, hs, hsid⟩ : ∃ s ∈ m.sources, s.id = k.offering := by
    have hsource : k.offering ∈ m.sourceIds := List.contains_iff_mem.mp (List.mem_filter.mp hk).2
    exact List.mem_map.mp hsource
  unfold checkComponentMapping at h
  have hsource := List.flatMap_eq_nil_iff.mp (List.append_eq_nil_iff.mp h).2 s hs
  simp only [List.append_eq_nil_iff] at hsource
  obtain ⟨⟨hvalid, -⟩, hmapped⟩ := hsource
  have hcase := List.flatMap_eq_nil_iff.mp hmapped k (List.mem_filter.mpr ⟨hk, by simp [hsid]⟩)
  rw [hsid] at hvalid hcase
  cases htype : (m.typesOf k.offering).get? k.type with
  | none =>
    rw [htype] at hcase
    simp only [href, if_true] at hcase
    cases hcase
  | some type =>
    have hentry : (k.type, type) ∈ (m.typesOf k.offering).entries := Document.get?_eq_some.mp htype
    rw [List.map_eq_nil_iff, List.filter_eq_nil_iff] at hvalid
    have hboth := hvalid _ hentry
    rw [Bool.not_eq_true, Bool.not_eq_false', Bool.and_eq_true] at hboth
    obtain ⟨k', hk', htype'⟩ := List.any_eq_true.mp hboth.2
    unfold targetComponent
    rw [htype, Option.bind_some, List.find?_isSome]
    exact ⟨k', hk', htype'⟩

/-- A new reference is one to the target. -/
theorem valueMapFor_target (htarget : m.target.id ∉ m.sourceIds) (h : m.valueMapFor e.related v = some a) :
    a ∉ m.sourceIdsFor e.related := by
  cases hrelated : e.related with
  | offering =>
    rw [hrelated] at h
    obtain ⟨-, hoffering⟩ := Option.ite_none_right_eq_some.mp (show (if _ then _ else _) = some a from h)
    obtain rfl := Option.some.inj hoffering
    exact htarget
  | plan =>
    rw [hrelated] at h
    obtain ⟨p', hp', rfl⟩ := Option.map_eq_some_iff.mp h
    obtain ⟨p, -, htargetPlan⟩ := Option.bind_eq_some_iff.mp hp'
    obtain ⟨uuid, -, hfind⟩ := Option.bind_eq_some_iff.mp htargetPlan
    obtain ⟨hmem, hoffering⟩ := List.mem_filter.mp (List.mem_of_find?_eq_some hfind)
    intro hsource
    obtain ⟨p'', hp'', hid⟩ := List.mem_map.mp hsource
    obtain ⟨hmem'', hcontains⟩ := List.mem_filter.mp hp''
    obtain rfl := c.plans.eq_of_key_eq hmem'' hmem hid
    rw [of_decide_eq_true hoffering] at hcontains
    exact htarget (List.contains_iff_mem.mp hcontains)
  | component =>
    rw [hrelated] at h
    obtain ⟨k', hk', rfl⟩ := Option.map_eq_some_iff.mp h
    obtain ⟨k, -, htargetComponent⟩ := Option.bind_eq_some_iff.mp hk'
    obtain ⟨type, -, hfind⟩ := Option.bind_eq_some_iff.mp htargetComponent
    obtain ⟨hmem, hoffering⟩ := List.mem_filter.mp (List.mem_of_find?_eq_some hfind)
    intro hsource
    obtain ⟨k'', hk'', hid⟩ := List.mem_map.mp hsource
    obtain ⟨hmem'', hcontains⟩ := List.mem_filter.mp hk''
    obtain rfl := c.components.eq_of_key_eq hmem'' hmem hid
    rw [of_decide_eq_true hoffering] at hcontains
    exact htarget (List.contains_iff_mem.mp hcontains)

/-! ## The two lists and the registry -/

/-- Every relation to a plan but one is in `PLAN_REFERENCES`. -/
theorem planReferences_complete : ∀ e ∈ relations, e.related = .plan →
    (e.model, e.attname) ∈ planReferences ∨ (e.model, e.attname) = (.rule, .plan) := by
  decide

/-- Every relation to a component but one is in `COMPONENT_REFERENCES`. -/
theorem componentReferences_complete : ∀ e ∈ relations, e.related = .component →
    (e.model, e.attname) ∈ componentReferences ∨ (e.model, e.attname) = (.customerUsagePolicyComponent, .component) := by
  decide

/-- What a covered row refers to on a source is mapped. -/
theorem valueMapFor_isSome (hblockers : m.blockers db = []) (hrest : m.RestMapped db) (he : e ∈ relations)
    (hr : r ∈ (db.table e.model).rows) (hv : v ∈ m.sourceIdsFor e.related) (href : r.refs e.attname = some v) :
    (m.valueMapFor e.related v).isSome = true := by
  obtain ⟨-, hplans, hcomponents, -⟩ := blockers_nil hblockers
  cases hrelated : e.related with
  | offering =>
    rw [hrelated] at hv
    show (if m.sourceIds.contains v then some m.target.id else none).isSome = true
    have hsource : v ∈ m.sourceIds := hv
    rw [if_pos (List.contains_iff_mem.mpr hsource)]
    rfl
  | plan =>
    rw [hrelated] at hv
    rcases planReferences_complete e he hrelated with hlisted | hrule
    · obtain ⟨p, hp, rfl⟩ := List.mem_map.mp hv
      refine planMap_isSome hplans hp (List.any_eq_true.mpr ⟨_, hlisted, List.any_eq_true.mpr ⟨r, hr, ?_⟩⟩)
      exact decide_eq_true href
    · obtain ⟨hmodel, hattname⟩ := Prod.mk.inj hrule
      rw [hmodel] at hr
      rw [hattname] at href
      exact hrest.rule r hr v hv href
  | component =>
    rw [hrelated] at hv
    rcases componentReferences_complete e he hrelated with hlisted | hpolicy
    · obtain ⟨k, hk, rfl⟩ := List.mem_map.mp hv
      refine componentMap_isSome hcomponents hk (Bool.or_eq_true_iff.mpr (Or.inl (Bool.or_eq_true_iff.mpr (Or.inl ?_))))
      exact List.any_eq_true.mpr ⟨_, hlisted, List.any_eq_true.mpr ⟨r, hr, decide_eq_true href⟩⟩
    · obtain ⟨hmodel, hattname⟩ := Prod.mk.inj hpolicy
      rw [hmodel] at hr
      rw [hattname] at href
      exact hrest.usagePolicy r hr v hv href

/-! ## Rows after a merge -/

theorem covered (he : e ∈ relations) : CoverageEntry.relation e ∈ mergeCoverage := by
  obtain ⟨entry, hentry, h⟩ := List.mem_filterMap.mp he
  cases entry with
  | relation e' =>
    obtain rfl := Option.some.inj h
    exact hentry
  | jsonKeys j => cases h

theorem mem_relationRows : r ∈ m.relationRows db e ↔ r ∈ (db.table e.model).rows ∧ m.Remains e r := by
  unfold relationRows Remains
  rw [List.mem_filter, Option.any_eq_true]
  refine and_congr_right fun _ => ⟨fun ⟨v, hv, hmem⟩ => ⟨v, List.contains_iff_mem.mp hmem, hv⟩, fun ⟨v, hmem, hv⟩ => ?_⟩
  exact ⟨v, hv, List.contains_iff_mem.mpr hmem⟩

theorem moved_reference (h : (r, a) ∈ (m.planRelation db e).1) :
    r ∈ (db.table e.model).rows ∧ ∃ v ∈ m.sourceIdsFor e.related, r.refs e.attname = some v ∧
      m.valueMapFor e.related v = some a := by
  obtain ⟨hmem, hmapped⟩ := mem_moved h
  obtain ⟨hr, v, hv, href⟩ := mem_relationRows.mp hmem
  rw [href, Option.bind_some] at hmapped
  exact ⟨hr, v, hv, href, hmapped⟩

/-- A row that does not move remains as it was. -/
theorem remains_kept (he : e ∈ relations) (hr : r ∈ (db.table e.model).rows)
    (h : ∀ a, (r, a) ∉ (m.planRelation db e).1) :
    m.Remains e (m.rowMerged db e.model r) ↔ m.Remains e r := by
  unfold Remains
  rw [refs_execute_kept (covered he) hr h]

/-- What remains has not moved. -/
theorem not_moved_of_remains (htarget : m.target.id ∉ m.sourceIds) (he : e ∈ relations)
    (h : m.Remains e (m.rowMerged db e.model r)) : (r, a) ∉ (m.planRelation db e).1 := by
  intro hmoved
  obtain ⟨-, v, -, -, hmapped⟩ := moved_reference hmoved
  obtain ⟨v', hv', href⟩ := h
  rw [refs_execute (covered he) hmoved] at href
  obtain rfl := Option.some.inj href
  exact valueMapFor_target htarget hmapped hv'

/-- Only a deduplicating relation leaves rows whose new key is taken. -/
theorem left_nil (h : m.checkCollisions db = []) (he : e ∈ relations) (hstrategy : e.strategy = .repoint) :
    (m.planRelation db e).2 = [] := by
  have hcase := List.flatMap_eq_nil_iff.mp h e he
  rw [hstrategy] at hcase
  cases hleft : (m.planRelation db e).2 with
  | nil => rfl
  | cons r rows =>
    rw [hleft] at hcase
    cases hcase

/-- A mapped row that remains is reported. -/
theorem reported_of_mapped (hblockers : m.blockers db = []) (he : e ∈ relations) (hr : r ∈ (db.table e.model).rows)
    (hmapped : ∀ v ∈ m.sourceIdsFor e.related, r.refs e.attname = some v → (m.valueMapFor e.related v).isSome = true)
    (h : m.Remains e (m.rowMerged db e.model r)) : (m.rowMerged db e.model r).id ∈ m.leftOnSource db e := by
  obtain ⟨htarget, -, -, hcollisions⟩ := blockers_nil hblockers
  have hkept : ∀ a, (r, a) ∉ (m.planRelation db e).1 := fun a => not_moved_of_remains htarget he h
  have hremains : m.Remains e r := (remains_kept he hr hkept).mp h
  obtain ⟨v, hv, href⟩ := hremains
  obtain ⟨a, ha⟩ := Option.isSome_iff_exists.mp (hmapped v hv href)
  have hnew : (r.refs e.attname).bind (m.valueMapFor e.related) = some a := by rw [href, Option.bind_some, ha]
  have hleft : r ∈ (m.planRelation db e).2 :=
    (moved_or_left (mem_relationRows.mpr ⟨hr, v, hv, href⟩) hnew).resolve_left (hkept a)
  have hid : (m.rowMerged db e.model r).id = r.id := id_rowAfter
  unfold leftOnSource
  cases hstrategy : e.strategy with
  | repoint =>
    rw [left_nil hcollisions he hstrategy] at hleft
    exact absurd hleft List.not_mem_nil
  | repointDedupe =>
    rw [hid]
    exact List.mem_map_of_mem hleft

/-- An unmapped row remains and is not reported. -/
theorem unreported_of_unmapped (he : e ∈ relations) (hr : r ∈ (db.table e.model).rows)
    (hv : v ∈ m.sourceIdsFor e.related) (href : r.refs e.attname = some v) (hmap : m.valueMapFor e.related v = none) :
    m.Remains e (m.rowMerged db e.model r) ∧ (m.rowMerged db e.model r).id ∉ m.leftOnSource db e := by
  have hkept : ∀ a, (r, a) ∉ (m.planRelation db e).1 := by
    intro a hmoved
    obtain ⟨-, v', -, href', hmapped⟩ := moved_reference hmoved
    obtain rfl := Option.some.inj (href.symm.trans href')
    rw [hmap] at hmapped
    cases hmapped
  refine ⟨(remains_kept he hr hkept).mpr ⟨v, hv, href⟩, fun hleft => ?_⟩
  have hid : (m.rowMerged db e.model r).id = r.id := id_rowAfter
  rw [hid] at hleft
  unfold leftOnSource at hleft
  cases hstrategy : e.strategy with
  | repoint =>
    rw [hstrategy] at hleft
    exact absurd hleft List.not_mem_nil
  | repointDedupe =>
    rw [hstrategy] at hleft
    obtain ⟨r', hr', hid'⟩ := List.mem_map.mp hleft
    obtain ⟨-, hrow, hsome⟩ := mem_left hr'
    obtain rfl := (db.table e.model).eq_of_key_eq (mem_relationRows.mp hrow).1 hr hid'
    rw [href, Option.bind_some, hmap] at hsome
    cases hsome

/-! ## Unique sets after a merge -/

/-- No merge writes a column with which a reference is unique. -/
theorem uniqueWith_not_written : ∀ e ∈ relations, ∀ b ∈ e.uniqueWith, ∀ column ∈ columns, column ≠ (e.model, .inl b) := by
  decide

theorem uniqueWith_merged (he : e ∈ relations) :
    e.uniqueWith.map (m.rowMerged db e.model r).refs = e.uniqueWith.map r.refs :=
  List.map_congr_left fun b hb => refs_execute_ne fun hmem => uniqueWith_not_written e he b hb _ hmem rfl

/-- The keys with which a merge starts are those that a moved row can meet. -/
theorem mem_existing {r' : Row} (hr' : r' ∈ (db.table e.model).rows) (hunique : e.uniqueWith ≠ [])
    (hmoved : (r, a) ∈ (m.planRelation db e).1) (href' : r'.refs e.attname = some a)
    (hkey : e.uniqueWith.map r'.refs = e.uniqueWith.map r.refs) :
    (a, e.uniqueWith.map r'.refs) ∈ m.existing db e := by
  obtain ⟨hr, v, hv, href, hmapped⟩ := moved_reference hmoved
  unfold existing
  cases hcolumns : e.uniqueWith with
  | nil => exact absurd hcolumns hunique
  | cons first rest =>
    rw [hcolumns, List.map_cons, List.map_cons] at hkey
    have hfirst : r'.refs first = r.refs first := (List.cons.inj hkey).1
    have hmet : r.refs first ∈ (m.relationRows db e).map (·.refs first) :=
      List.mem_map_of_mem (mem_relationRows.mpr ⟨hr, v, hv, href⟩)
    have hvalue : a ∈ (m.sourceIdsFor e.related).filterMap (m.valueMapFor e.related) :=
      List.mem_filterMap.mpr ⟨v, hv, hmapped⟩
    refine List.mem_filterMap.mpr ⟨r', List.mem_filter.mpr ⟨hr', ?_⟩, ?_⟩
    · rw [hfirst]
      exact List.contains_iff_mem.mpr hmet
    · rw [href', Option.filter_some, if_pos (List.contains_iff_mem.mpr hvalue)]
      rfl

/-- **Unique before a merge, unique after it.** -/
theorem unique_execute {x : Executed} (hunique : db.Unique) (h : m.execute db = .ok x) : x.db.Unique := by
  obtain ⟨-, -, hrows⟩ := execute_eq_ok h
  intro e he hcolumns s hs s' hs' hsome href hkey
  rw [hrows] at hs hs'
  obtain ⟨r, hr, rfl⟩ := List.mem_map.mp hs
  obtain ⟨r', hr', rfl⟩ := List.mem_map.mp hs'
  have hafter : ∀ r ∈ (db.table e.model).rows,
      (∃ a, (r, a) ∈ (m.planRelation db e).1 ∧ (m.rowMerged db e.model r).refs e.attname = some a) ∨
        (m.rowMerged db e.model r).refs e.attname = r.refs e.attname := by
    intro r hr
    by_cases hmoved : ∃ a, (r, a) ∈ (m.planRelation db e).1
    · obtain ⟨a, ha⟩ := hmoved
      exact Or.inl ⟨a, ha, refs_execute (covered he) ha⟩
    · exact Or.inr (refs_execute_kept (covered he) hr fun a ha => hmoved ⟨a, ha⟩)
  have hbefore : ∀ r ∈ (db.table e.model).rows, ((m.rowMerged db e.model r).refs e.attname).isSome = true →
      (r.refs e.attname).isSome = true := by
    intro r hr hsome
    rcases hafter r hr with ⟨a, ha, -⟩ | hsame
    · obtain ⟨-, v, -, hold, -⟩ := moved_reference ha
      rw [hold]
      rfl
    · rwa [← hsame]
  rw [uniqueWith_merged he, uniqueWith_merged he] at hkey
  have hchecked : (!e.uniqueWith.isEmpty) = true := by simpa using hcolumns
  have hmem : ∀ {r : Row}, r ∈ (db.table e.model).rows.filter (fun r => (r.refs e.attname).isSome) ↔
      r ∈ (db.table e.model).rows ∧ (r.refs e.attname).isSome = true := List.mem_filter
  have heq : r = r' := by
    refine @unique_after _ _ _ _ _ (fun r => (r.refs e.attname).bind (m.valueMapFor e.related))
      (fun r => e.uniqueWith.map r.refs) (!e.uniqueWith.isEmpty) (m.existing db e) (m.relationRows db e)
      ((db.table e.model).rows.filter fun r => (r.refs e.attname).isSome) (fun r => r.refs e.attname)
      (fun r => (m.rowMerged db e.model r).refs e.attname) hchecked ?_ ?_ ?_ r r' ?_ ?_ (Prod.ext href hkey)
    · intro r hr r' hr' heq
      obtain ⟨hv, hu⟩ := Prod.mk.inj heq
      exact hunique e he hcolumns r (hmem.mp hr).1 r' (hmem.mp hr').1 (hmem.mp hr).2 hv hu
    · exact fun r hr => hafter r (hmem.mp hr).1
    · intro r' hr' y hy hv hu
      exact mem_existing (hmem.mp hr').1 hcolumns hy hv hu
    · exact hmem.mpr ⟨hr, hbefore r hr hsome⟩
    · exact hmem.mpr ⟨hr', hbefore r' hr' (href ▸ hsome)⟩
  rw [heq]

/-! ## Nothing behind -/

theorem execute_of_blockers (m : Merge c) (db : Db) (h : (m.blockers db).isEmpty = true) : ∃ x, m.execute db = .ok x := by
  unfold execute
  rw [if_pos h]
  exact ⟨_, rfl⟩

/-- **What a merge leaves behind**: nothing, exactly where the references that no list names are mapped. -/
theorem leaves_nothing_iff (m : Merge c) (db : Db) (x : Executed) (hunique : db.Unique) (h : m.execute db = .ok x) :
    m.NothingBehind db x.db ↔ m.RestMapped db := by
  obtain ⟨hblockers, -, hrows⟩ := execute_eq_ok h
  have hafter : ∀ model r, r ∈ (db.table model).rows → m.rowMerged db model r ∈ (x.db.table model).rows := by
    intro model r hr
    rw [hrows]
    exact List.mem_map_of_mem hr
  have hmapped : m.NothingBehind db x.db → ∀ e ∈ relations, ∀ r ∈ (db.table e.model).rows,
      ∀ v ∈ m.sourceIdsFor e.related, r.refs e.attname = some v → (m.valueMapFor e.related v).isSome = true := by
    intro hnothing e he r hr v hv href
    cases hmap : m.valueMapFor e.related v with
    | some v' => rfl
    | none =>
      obtain ⟨hremains, hunreported⟩ := unreported_of_unmapped he hr hv href hmap
      exact absurd (hnothing.reported e he _ (hafter _ r hr) hremains) hunreported
  constructor
  · intro hnothing
    have hrule : { model := .rule, attname := .plan, related := .plan } ∈ relations := by decide
    have hpolicy : { model := .customerUsagePolicyComponent, attname := .component, related := .component
                     strategy := .repointDedupe, uniqueWith := [.policy, .period] } ∈ relations := by decide
    exact ⟨hmapped hnothing _ hrule, hmapped hnothing _ hpolicy⟩
  · intro hrest
    refine ⟨?_, unique_execute hunique h, ?_⟩
    · intro e he s hs hremains
      rw [hrows] at hs
      obtain ⟨r, hr, rfl⟩ := List.mem_map.mp hs
      exact reported_of_mapped hblockers he hr
        (fun v hv href => valueMapFor_isSome hblockers hrest he hr hv href) hremains
    · intro model
      rw [hrows, List.map_map]
      exact List.map_congr_left fun r _ => id_rowAfter

end Merge

/-- A uuid by its number. -/
def numbered (n : ℕ) : Uuid := Fin.ofNat (2 ^ 128) n

theorem noPlans_uuid : ((Table.empty : Table ℕ Plan Plan.id).rows.map (·.uuid)).Nodup := List.nodup_nil

theorem noComponents_type :
    ((Table.empty : Table ℕ OfferingComponent OfferingComponent.id).rows.map fun k => (k.offering, k.type)).Nodup :=
  List.nodup_nil

theorem noPlanComponents_unique : ((Table.empty : Table ℕ PlanComponent PlanComponent.id).rows.filterMap
    fun pc => pc.component.map (pc.plan, ·)).Nodup := List.nodup_nil

/-- The target 1 with its plan 10, and the source 2 with its plan 20. -/
def twoOfferings : Catalogue where
  offerings := ⟨[{ id := 1, uuid := numbered 1 }, { id := 2, uuid := numbered 2 }], by decide⟩
  plans := ⟨[{ id := 10, uuid := numbered 10, offering := 1 }, { id := 20, uuid := numbered 20, offering := 2 }], by decide⟩
  components := Table.empty
  planComponents := Table.empty
  offering_uuid := by decide
  plan_uuid := by decide
  component_type := noComponents_type
  plan_component := noPlanComponents_unique

def intoFirst (planMapping : Document Uuid Uuid) : Merge twoOfferings where
  target := { id := 1, uuid := numbered 1 }
  sources := [{ id := 2, uuid := numbered 2 }]
  planMapping := planMapping
  stored := by decide

/-- An autoprovisioning rule that orders the plan 20; nothing else refers to it. -/
def ruled : Db where
  table
    | .rule => ⟨[{ id := 1, refs := fun a => if a = .plan then some 20 else none }], List.nodup_singleton _⟩
    | _ => Table.empty

/-- The plan 20 becomes the plan 10. -/
def twentyToTen : Document Uuid Uuid := ⟨[(numbered 20, numbered 10)], List.pairwise_singleton _ _⟩

theorem ruled_unique : ruled.Unique := by
  intro e he hcolumns r hr
  have hempty : ∀ e ∈ relations, e.uniqueWith ≠ [] → e.model ≠ .rule := by decide
  have hnone : (ruled.table e.model).rows = [] := by
    have hmodel := hempty e he hcolumns
    cases h : e.model <;> first | rfl | exact absurd h hmodel
  rw [hnone] at hr
  exact absurd hr List.not_mem_nil

theorem intoFirst_leaves_nothing : ∃ x, (intoFirst twentyToTen).execute ruled = .ok x ∧
    (intoFirst twentyToTen).NothingBehind ruled x.db := by
  obtain ⟨x, hx⟩ := Merge.execute_of_blockers (intoFirst twentyToTen) ruled (by decide)
  refine ⟨x, hx, (Merge.leaves_nothing_iff (intoFirst twentyToTen) ruled x ruled_unique hx).mpr ⟨?_, ?_⟩⟩
  · intro r hr p hp _
    obtain rfl : p = 20 := List.mem_singleton.mp hp
    decide
  · intro r hr
    exact absurd hr List.not_mem_nil

/-- Without a mapping nothing refuses the merge, and the rule still orders the plan of the source. -/
theorem unmapped_rule_remains : ¬ ∀ (c : Catalogue) (m : Merge c) (db : Db) (x : Merge.Executed),
    db.Unique → m.execute db = .ok x → m.NothingBehind db x.db := by
  intro h
  obtain ⟨x, hx⟩ := Merge.execute_of_blockers (intoFirst .empty) ruled (by decide)
  have hnothing := h twoOfferings (intoFirst .empty) ruled x ruled_unique hx
  obtain ⟨-, -, hrows⟩ := Merge.execute_eq_ok hx
  have hrule : { model := .rule, attname := .plan, related := .plan } ∈ relations := by decide
  have hplan : 20 ∈ (intoFirst .empty).sourceIdsFor .plan := by decide
  obtain ⟨hremains, hunreported⟩ :=
    @Merge.unreported_of_unmapped _ (intoFirst .empty) ruled _ _ _ hrule List.mem_cons_self hplan rfl rfl
  refine hunreported (hnothing.reported _ hrule _ ?_ hremains)
  rw [hrows]
  exact List.mem_map_of_mem List.mem_cons_self

end Waldur.OfferingMerge
