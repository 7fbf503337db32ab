import Waldur.Quotas.Models

/-!
# Quotas.Validation — changes of quotas that are validated one by one

A change is a list of deltas for several scopes.  Each is validated on its own scope just before its row is inserted, and
rows that were inserted stay when a later delta is refused; what the rows add to quotas of ancestors is not validated.
-/

namespace Waldur.Quotas

section Changes

variable {S : Type} [DecidableEq S] (g : ScopeGraph S)

/-- `get_quota_limit`: of its row, or the default of the field. -/
def getQuotaLimit (db : Db S) (s : S) (name : String) : ℤ :=
  (db.limits s name).getD (((g.getField s name).map (·.defaultLimit)).getD (-1))

/-- The errors of `validate_quota_change`. -/
def quotaErrors (db : Db S) (s : S) (quotaDeltas : List (String × ℤ)) : List String :=
  quotaDeltas.filterMap fun (name, delta) =>
    let usage := db.getQuotaUsage s name
    let limit := getQuotaLimit g db s name
    if delta = 0 then none
    else if limit = -1 then none
    else if usage + delta > limit then
      some (name ++ " quota limit: " ++ toString limit ++ ", requires " ++ toString (usage + delta))
    else none

/-- A `QuotaValidationError` with its message, or handlers that nest too deep. -/
inductive Failure
  | quotaValidationError (message : String)
  | recursionError
deriving DecidableEq

def validateQuotaChange (db : Db S) (s : S) (quotaDeltas : List (String × ℤ)) : Except Failure Unit :=
  let errors := quotaErrors g db s quotaDeltas
  if errors = [] then .ok ()
  else .error (.quotaValidationError ("One or more quotas were exceeded: " ++ String.intercalate ";" errors))

/-- `add_quota_usage`. -/
def addQuotaUsageWith (validate : Bool) (db : Db S) (s : S) (name : String) (delta : ℤ) : Except Failure (Db S) :=
  if delta = 0 then .ok db
  else do
    if validate then validateQuotaChange g db s [(name, delta)]
    match create g recursionLimit db s name delta with
    | none => .error .recursionError
    | some db => .ok db

/-- Deltas one after another; rows of the ones before an exception stay. -/
def applyDeltas (validate : Bool) : Db S → List (S × String × ℤ) → Db S × Option Failure
  | db, [] => (db, none)
  | db, (s, name, delta) :: rest =>
    match addQuotaUsageWith g validate db s name delta with
    | .error e => (db, some e)
    | .ok db => applyDeltas validate db rest

/-- The deltas in the order of the loops: a name after another, and for each the scopes that are not empty. -/
def quotaChanges (scopes : List (Option S)) (deltas : List (String × ℤ)) (mult : ℤ) : List (S × String × ℤ) :=
  deltas.flatMap fun (name, delta) => scopes.filterMap fun scope => scope.map fun s => (s, name, delta * mult)

/-- `apply_quota_changes`. -/
def applyQuotaChanges (db : Db S) (scopes : List (Option S)) (deltas : List (String × ℤ)) (mult : ℤ) (validate : Bool) :
    Db S × Option Failure :=
  applyDeltas g validate db (quotaChanges scopes deltas mult)

/-! ## What a change should do, and when it does -/

/-- What a list of deltas adds to a quota, with what the handlers add. -/
def raised (alive : S → Bool) (changes : List (S × String × ℤ)) (s : S) (name : String) : ℤ :=
  ((changes.flatMap fun c => recorded g alive c.1 c.2.1 c.2.2).map fun e =>
    if decide (e.1 = s) && e.2.1 == name then e.2.2 else 0).sum

/-- All deltas are recorded and no limited quota that is raised exceeds its limit, or the change is refused and nothing is
recorded. -/
def AllOrNothing (db : Db S) (scopes : List (Option S)) (deltas : List (String × ℤ)) (mult : ℤ) : Prop :=
  match applyQuotaChanges g db scopes deltas mult true with
  | (db', none) =>
    db' = db.insertAll ((quotaChanges scopes deltas mult).flatMap fun c => recorded g db.alive c.1 c.2.1 c.2.2) ∧
      ∀ s name, getQuotaLimit g db' s name ≠ -1 → db.rawUsage s name < db'.rawUsage s name →
        db'.getQuotaUsage s name ≤ getQuotaLimit g db' s name
  | (db', some (.quotaValidationError _)) => db' = db
  | (_, some .recursionError) => False

/-- A delta is too much after the ones before it. -/
def Refused (db : Db S) (before : List (S × String × ℤ)) (c : S × String × ℤ) : Prop :=
  c.2.2 ≠ 0 ∧ getQuotaLimit g db c.1 c.2.1 ≠ -1 ∧
    getQuotaLimit g db c.1 c.2.1 < max 0 (db.rawUsage c.1 c.2.1 + raised g db.alive before c.1 c.2.1) + c.2.2

/-- The first delta that is not zero is too much. -/
def FirstRefused (db : Db S) (changes : List (S × String × ℤ)) : Prop :=
  ∃ zeros c rest, changes = zeros ++ c :: rest ∧ (∀ z ∈ zeros, z.2.2 = 0) ∧ Refused g db [] c

/-- No delta is too much after the ones before it. -/
def NoneRefused (db : Db S) (changes : List (S × String × ℤ)) : Prop :=
  ∀ before c rest, changes = before ++ c :: rest → ¬ Refused g db before c

/-- The deltas leave the quotas that aggregate them within their limits. -/
def AggregatesFit (db : Db S) (changes : List (S × String × ℤ)) : Prop :=
  ∀ a f, f ∈ g.quotaFields a → f.isAggregator = true → getQuotaLimit g db a f.name ≠ -1 →
    0 < raised g db.alive changes a f.name →
      max 0 (db.rawUsage a f.name + raised g db.alive changes a f.name) ≤ getQuotaLimit g db a f.name

end Changes

section Steps

variable {S : Type} [DecidableEq S] {g : ScopeGraph S} {db : Db S} {changes before rest : List (S × String × ℤ)}
  {c : S × String × ℤ} {s : S} {name : String} {delta : ℤ}

omit [DecidableEq S] in
theorem Db.length_insertAll (db : Db S) (l : List (S × String × ℤ)) :
    (db.insertAll l).usages.length = db.usages.length + l.length := by
  induction l generalizing db with
  | nil => rfl
  | cons e l ih =>
    rw [Db.insertAll_cons, ih, Db.insertRow, List.length_append, List.length_singleton, List.length_cons]
    omega

omit [DecidableEq S] in
theorem getQuotaLimit_insertAll (l : List (S × String × ℤ)) :
    getQuotaLimit g (db.insertAll l) s name = getQuotaLimit g db s name := by
  unfold getQuotaLimit
  rw [Db.limits_insertAll]

/-- The rows of a list of deltas. -/
def Db.record (g : ScopeGraph S) (db : Db S) (changes : List (S × String × ℤ)) : Db S :=
  db.insertAll (changes.flatMap fun c => recorded g db.alive c.1 c.2.1 c.2.2)

theorem record_cons : db.record g (c :: rest) = (db.record g [c]).record g rest := by
  unfold Db.record
  rw [List.flatMap_cons, Db.insertAll_append, Db.alive_insertAll, List.flatMap_singleton]

theorem rawUsage_record : (db.record g changes).rawUsage s name = db.rawUsage s name + raised g db.alive changes s name := by
  rw [Db.rawUsage_eq_total, Db.record, Db.total_insertAll]
  rfl

theorem raised_append (alive : S → Bool) (l l' : List (S × String × ℤ)) :
    raised g alive (l ++ l') s name = raised g alive l s name + raised g alive l' s name := by
  unfold raised
  rw [List.flatMap_append, List.map_append, List.sum_append]

/-- Only deltas of zero leave no row. -/
theorem record_eq_self_iff : db.record g changes = db ↔ ∀ c ∈ changes, c.2.2 = 0 := by
  have hrow : ∀ c : S × String × ℤ, recorded g db.alive c.1 c.2.1 c.2.2 = [] ↔ c.2.2 = 0 := by
    intro c
    unfold recorded
    split_ifs with hzero <;> simp [hzero]
  constructor
  · intro h c hc
    have hlength := db.length_insertAll (changes.flatMap fun c => recorded g db.alive c.1 c.2.1 c.2.2)
    rw [show db.insertAll _ = db from h] at hlength
    have hempty := List.length_eq_zero_iff.mp (by omega : (changes.flatMap fun c =>
      recorded g db.alive c.1 c.2.1 c.2.2).length = 0)
    exact (hrow c).mp (List.flatMap_eq_nil_iff.mp hempty c hc)
  · intro h
    unfold Db.record
    rw [List.flatMap_eq_nil_iff.mpr fun c hc => (hrow c).mpr (h c hc)]
    rfl

theorem refused_record : Refused g (db.record g [c]) before (s, name, delta) ↔
    Refused g db (c :: before) (s, name, delta) := by
  have hraised : raised g db.alive ([c] ++ before) s name = _ := raised_append db.alive [c] before
  unfold Refused
  rw [rawUsage_record]
  unfold Db.record
  rw [getQuotaLimit_insertAll, Db.alive_insertAll, show c :: before = [c] ++ before from rfl, hraised, add_assoc]

/-- A delta that is not too much is recorded, with what its handlers record. -/
theorem addQuotaUsageWith_eq (hrefused : ¬ Refused g db [] (s, name, delta)) :
    addQuotaUsageWith g true db s name delta = .ok (db.record g [(s, name, delta)]) := by
  by_cases hzero : delta = 0
  · rw [addQuotaUsageWith, if_pos hzero, record_eq_self_iff.mpr (by simpa using hzero)]
  · have herrors : quotaErrors g db s [(name, delta)] = [] := by
      unfold Refused at hrefused
      simp only [raised, List.flatMap_nil, List.map_nil, List.sum_nil, add_zero] at hrefused
      unfold quotaErrors
      simp only [List.filterMap_cons, List.filterMap_nil, if_neg hzero]
      by_cases hlimit : getQuotaLimit g db s name = -1
      · rw [if_pos hlimit]
      · have hfits : ¬ db.getQuotaUsage s name + delta > getQuotaLimit g db s name := fun h => hrefused ⟨hzero, hlimit, h⟩
        rw [if_neg hlimit, if_neg hfits]
    rw [addQuotaUsageWith, if_neg hzero]
    simp only [validateQuotaChange, herrors, if_true]
    have hcreate : create g recursionLimit db s name delta = _ := create_eq 998
    rw [hcreate]
    simp only [Db.record, List.flatMap_singleton, recorded, if_neg hzero]
    rfl

/-- One that is too much is refused. -/
theorem addQuotaUsageWith_refused (hrefused : Refused g db [] (s, name, delta)) :
    ∃ message, addQuotaUsageWith g true db s name delta = .error (.quotaValidationError message) := by
  obtain ⟨hzero, hlimit, hexceeds⟩ := hrefused
  simp only [raised, List.flatMap_nil, List.map_nil, List.sum_nil, add_zero] at hexceeds
  have herrors : quotaErrors g db s [(name, delta)] ≠ [] := by
    unfold quotaErrors Db.getQuotaUsage
    simp only [List.filterMap_cons, List.filterMap_nil, if_neg hzero, if_neg hlimit, if_pos hexceeds]
    exact List.cons_ne_nil _ _
  rw [addQuotaUsageWith, if_neg hzero]
  simp only [validateQuotaChange, if_neg herrors, if_true]
  exact ⟨_, rfl⟩

theorem noneRefused_nil : NoneRefused g db [] := by
  intro before c rest h
  simp at h

theorem noneRefused_cons : NoneRefused g db (c :: rest) ↔ ¬ Refused g db [] c ∧ NoneRefused g (db.record g [c]) rest := by
  constructor
  · intro h
    refine ⟨h [] c rest rfl, fun before c' rest' hrest => ?_⟩
    rw [refused_record]
    exact h (c :: before) c' rest' (by rw [hrest, List.cons_append])
  · rintro ⟨hfirst, hnone⟩ before c' rest' hsplit
    cases before with
    | nil =>
      obtain ⟨rfl, -⟩ := List.cons.inj hsplit
      exact hfirst
    | cons c₀ before =>
      obtain ⟨rfl, hrest⟩ := List.cons.inj hsplit
      rw [← refused_record]
      exact hnone before c' rest' hrest

/-- **Where no delta is refused, all are recorded.** -/
theorem applyDeltas_eq (h : NoneRefused g db changes) : applyDeltas g true db changes = (db.record g changes, none) := by
  induction changes generalizing db with
  | nil => rfl
  | cons c rest ih =>
    obtain ⟨hfirst, hnone⟩ := noneRefused_cons.mp h
    obtain ⟨s, name, delta⟩ := c
    rw [applyDeltas, addQuotaUsageWith_eq hfirst]
    show applyDeltas g true _ rest = _
    rw [ih hnone, ← record_cons]

/-- **Otherwise the ones before the first refused one are.** -/
theorem applyDeltas_refused (h : ¬ NoneRefused g db changes) : ∃ before c rest message, changes = before ++ c :: rest ∧
    NoneRefused g db before ∧ Refused g db before c ∧
      applyDeltas g true db changes = (db.record g before, some (.quotaValidationError message)) := by
  induction changes generalizing db with
  | nil => exact absurd noneRefused_nil h
  | cons c rest ih =>
    by_cases hfirst : Refused g db [] c
    · obtain ⟨s, name, delta⟩ := c
      obtain ⟨message, hmessage⟩ := addQuotaUsageWith_refused hfirst
      refine ⟨[], (s, name, delta), rest, message, rfl, noneRefused_nil, hfirst, ?_⟩
      rw [applyDeltas, hmessage]
      rfl
    · obtain ⟨before, c', rest', message, hsplit, hnone, hrefused, happly⟩ :=
        ih fun hnone => h (noneRefused_cons.mpr ⟨hfirst, hnone⟩)
      refine ⟨c :: before, c', rest', message, by rw [hsplit, List.cons_append],
        noneRefused_cons.mpr ⟨hfirst, hnone⟩, refused_record.mp hrefused, ?_⟩
      obtain ⟨s, name, delta⟩ := c
      have hrecord : db.record g ((s, name, delta) :: before) = (db.record g [(s, name, delta)]).record g before :=
        record_cons
      rw [applyDeltas, addQuotaUsageWith_eq hfirst, hrecord]
      exact happly

/-- Handlers only raise quotas that aggregate. -/
theorem raised_singleton_of_plain (hplain : ∀ f ∈ g.quotaFields s, f.isAggregator = true → f.name ≠ name) :
    raised g db.alive [c] s name = if c.1 = s ∧ c.2.1 = name then c.2.2 else 0 := by
  unfold raised
  rw [List.flatMap_singleton]
  have hfed : ((fed g db.alive c.1 c.2.1 c.2.2).map fun e =>
      if decide (e.1 = s) && e.2.1 == name then e.2.2 else 0).sum = 0 := by
    refine List.sum_eq_zero fun x hx => ?_
    obtain ⟨e, he, rfl⟩ := List.mem_map.mp hx
    refine if_neg fun h => ?_
    obtain ⟨hscope, hname⟩ := Bool.and_eq_true_iff.mp h
    unfold fed at he
    split_ifs at he
    · exact absurd he List.not_mem_nil
    · obtain ⟨t, ht, rfl⟩ := List.mem_map.mp he
      obtain ⟨-, -, -, hf, hagg, -⟩ := mem_aggregatorQuotas.mp ht
      rw [of_decide_eq_true hscope] at hf
      exact hplain t.2 hf hagg (beq_iff_eq.mp hname)
  unfold recorded
  by_cases hzero : c.2.2 = 0
  · rw [if_pos hzero, hzero, ite_self]
    rfl
  · rw [if_neg hzero, List.map_cons, List.sum_cons, hfed, add_zero]
    simp only [Bool.and_eq_true, decide_eq_true_eq, beq_iff_eq]

/-- A quota that no handler raises stays within its limit: each delta was validated after the ones before it. -/
theorem fits_of_plain (hnone : NoneRefused g db changes) (hlimit : getQuotaLimit g db s name ≠ -1)
    (hplain : ∀ f ∈ g.quotaFields s, f.isAggregator = true → f.name ≠ name)
    (hraised : 0 < raised g db.alive changes s name) :
    max 0 (db.rawUsage s name + raised g db.alive changes s name) ≤ getQuotaLimit g db s name := by
  induction changes using List.reverseRecOn with
  | nil => exact absurd hraised (lt_irrefl 0)
  | append_singleton changes c ih =>
    have hbefore : NoneRefused g db changes := fun before c' rest hsplit =>
      hnone before c' (rest ++ [c]) (by rw [hsplit, List.append_assoc, List.cons_append])
    have hlast : ¬ Refused g db changes c := hnone changes c [] rfl
    rw [raised_append, raised_singleton_of_plain hplain] at hraised ⊢
    by_cases hkey : c.1 = s ∧ c.2.1 = name
    · rw [if_pos hkey] at hraised ⊢
      obtain ⟨rfl, rfl⟩ := hkey
      rcases le_or_gt c.2.2 0 with hle | hpos
      · have hfits := ih hbefore (by omega)
        omega
      · have hfits : ¬ getQuotaLimit g db c.1 c.2.1 <
            max 0 (db.rawUsage c.1 c.2.1 + raised g db.alive changes c.1 c.2.1) + c.2.2 :=
          fun h => hlast ⟨by omega, hlimit, h⟩
        omega
    · rw [if_neg hkey, add_zero] at hraised ⊢
      exact ih hbefore hraised

/-- Deltas of zero raise nothing. -/
theorem refused_zeros {zeros : List (S × String × ℤ)} (hzeros : ∀ z ∈ zeros, z.2.2 = 0) :
    Refused g db zeros c ↔ Refused g db [] c := by
  have hrows : zeros.flatMap (fun z => recorded g db.alive z.1 z.2.1 z.2.2) = [] :=
    List.flatMap_eq_nil_iff.mpr fun z hz => if_pos (hzeros z hz)
  have hnothing : raised g db.alive zeros c.1 c.2.1 = raised g db.alive [] c.1 c.2.1 := by
    unfold raised
    rw [hrows, List.flatMap_nil]
  unfold Refused
  rw [hnothing]

/-- A first refused delta is the first one that is not zero, where all before it are zero. -/
theorem firstRefused_iff (hsplit : changes = before ++ c :: rest) (hnone : NoneRefused g db before)
    (hrefused : Refused g db before c) : FirstRefused g db changes ↔ ∀ z ∈ before, z.2.2 = 0 := by
  constructor
  · rintro ⟨zeros, c', rest', hsplit', hzeros, hrefused'⟩
    rw [hsplit, List.append_eq_append_iff] at hsplit'
    rcases hsplit' with ⟨more, hmore, -⟩ | ⟨more, hmore, hrest⟩
    · intro z hz
      exact hzeros z (hmore ▸ List.mem_append_left _ hz)
    · cases more with
      | nil => rwa [hmore, List.append_nil]
      | cons c'' more =>
        obtain ⟨rfl, -⟩ := List.cons.inj hrest
        exact absurd ((refused_zeros hzeros).mpr hrefused') (hnone zeros c' more hmore)
  · intro hzeros
    exact ⟨before, c, rest, hsplit, hzeros, (refused_zeros hzeros).mp hrefused⟩

/-- **A validated change is all or nothing exactly** when its first delta is refused, or none is after the ones before it
and the quotas that aggregate them stay within their limits as well. -/
theorem allOrNothing_iff {scopes : List (Option S)} {deltas : List (String × ℤ)} {mult : ℤ} :
    AllOrNothing g db scopes deltas mult ↔ FirstRefused g db (quotaChanges scopes deltas mult) ∨
      NoneRefused g db (quotaChanges scopes deltas mult) ∧ AggregatesFit g db (quotaChanges scopes deltas mult) := by
  unfold AllOrNothing applyQuotaChanges
  generalize quotaChanges scopes deltas mult = changes
  by_cases hnone : NoneRefused g db changes
  · have hfirst : ¬ FirstRefused g db changes := by
      rintro ⟨zeros, c, rest, hsplit, hzeros, hrefused⟩
      exact hnone zeros c rest hsplit ((refused_zeros hzeros).mpr hrefused)
    rw [applyDeltas_eq hnone, or_iff_right hfirst, and_iff_right hnone]
    show (db.record g changes = db.record g changes ∧ _) ↔ _
    rw [and_iff_right rfl]
    have hlimit : ∀ s name, getQuotaLimit g (db.record g changes) s name = getQuotaLimit g db s name :=
      fun s name => getQuotaLimit_insertAll _
    simp only [hlimit, Db.getQuotaUsage, rawUsage_record, lt_add_iff_pos_right]
    constructor
    · intro h a f _ _ hlimited hpos
      exact h a f.name hlimited hpos
    · intro h s name hlimited hpos
      by_cases hagg : ∃ f ∈ g.quotaFields s, f.isAggregator = true ∧ f.name = name
      · obtain ⟨f, hf, hfagg, rfl⟩ := hagg
        exact h s f hf hfagg hlimited hpos
      · exact fits_of_plain hnone hlimited (fun f hf hfagg hname => hagg ⟨f, hf, hfagg, hname⟩) hpos
  · obtain ⟨before, c, rest, message, hsplit, hbefore, hrefused, happly⟩ := applyDeltas_refused hnone
    rw [happly, or_iff_left fun h => hnone h.1, firstRefused_iff hsplit hbefore hrefused]
    exact record_eq_self_iff

end Steps

/-! ### A resource and its project -/

inductive Level
  | project | resource
deriving DecidableEq

/-- A project sums what its resources use. -/
def twoLevels : ScopeGraph Level where
  isDescendant := fun _ => true
  parents
    | .project => []
    | .resource => [.project]
  quotas
    | .project => some ⟨[{ name := "cpu", kind := .usageAggregator none }], by decide⟩
    | .resource => some ⟨[{ name := "cpu" }], by decide⟩

/-- The project is limited to two. -/
def limitedProject : Db Level :=
  { alive := fun _ => true, limits := fun s _ => if s = .project then some 2 else none }

/-- The project refuses five after they were recorded for the resource, and is not asked where it is not a scope itself. -/
theorem resource_not_allOrNothing :
    ¬ AllOrNothing twoLevels limitedProject [some .resource, some .project] [("cpu", 5)] 1 ∧
      ¬ AllOrNothing twoLevels limitedProject [some .resource] [("cpu", 5)] 1 := by
  constructor
  · intro h
    have hsame : (applyQuotaChanges twoLevels limitedProject [some .resource, some .project] [("cpu", 5)] 1 true).1 =
        limitedProject := h
    have hlength := congrArg (fun db => db.usages.length) hsame
    exact absurd hlength (by decide)
  · rintro ⟨-, h⟩
    exact absurd (h .project "cpu" (by decide) (by decide)) (by decide)

end Waldur.Quotas
