import Mathlib
import Waldur.Lib.Cascades
import Waldur.Lib.Json
import Waldur.Lib.Runs

/-!
# Marketplace.ConditionalOptions — options that are shown because of the value of another one

`get_hidden_options` follows the rules of the options with the results so far and a path that stops at cycles; neither
matters (`hidden_iff`).  What a resource keeps is stripped of the values of hidden options at each change, so that the
value of an option that was hidden once is gone (`stored_iff`).
-/

namespace Waldur.Marketplace.ConditionalOptions

open Cascades Relation Runs

/-! ## The code -/

/-- The option types that the rules tell apart. -/
inductive FieldType
  | boolean
  | selectString
  | selectStringMulti
  | other
deriving DecidableEq

/-- `visible_if`. -/
structure VisibleIf where
  field : Option String
  values : List Json := []

/-- What the rules read of an option. -/
structure OptionField where
  type : FieldType := .other
  visibleIf : Option VisibleIf := none
  choices : List String := []

/-- The options of an offering, in the order of the dictionary. -/
abbrev Options := List (String × OptionField)

/-- The values of options by their names. -/
abbrev Values := String → Option Json

section Code

variable (toBoolean : Json → Option Bool)

/-- `isinstance(item, str) and item in values`. -/
def isTextIn (values : List Json) : Json → Bool
  | .string s => values.any (Json.equals (.string s))
  | _ => false

/-- `_option_value_matches`; `toBoolean` is the field that reads truth values. -/
def optionValueMatches (option : OptionField) (value : Option Json) (values : List Json) : Bool :=
  match option.type with
  | .boolean =>
    -- a checkbox that is not ticked is not submitted at all
    let value := match value with
      | none | some .null => Json.bool false
      | some value => value
    match toBoolean value with
    | none => false
    | some b => values.any fun
      | .bool item => item == b
      | _ => false
  | .selectString => value.any (isTextIn values)
  | .selectStringMulti =>
    match value with
    | some (.array items) => items.any (isTextIn values)
    | some value => isTextIn values value
    | none => false
  | .other => false

variable (options : Options) (values : Values)

def names : List String := options.map Prod.fst

/-- How far `is_visible` can still go. -/
def depth (name : String) (path : List String) : ℕ :=
  2 * ((names options).filter (· ∉ path)).length + if name ∈ path then 1 else 0

theorem depth_lt {options : Options} {name parent : String} {path : List String} (hname : name ∈ names options)
    (hparent : parent ∉ path) : depth options parent (name :: path) < depth options name path := by
  unfold depth
  by_cases hpath : name ∈ path
  · have hsame : (names options).filter (· ∉ name :: path) = (names options).filter (· ∉ path) := by
      refine List.filter_congr fun other _ => ?_
      rw [decide_eq_decide, List.mem_cons]
      exact not_congr (or_iff_right_of_imp fun heq => heq ▸ hpath)
    have hne : parent ∉ name :: path := by
      rw [List.mem_cons]
      rintro (rfl | h)
      · exact hparent hpath
      · exact hparent h
    rw [hsame, if_pos hpath, if_neg hne]
    omega
  · have hfewer : ((names options).filter (· ∉ name :: path)).length <
        ((names options).filter (· ∉ path)).length := by
      have hsplit : (names options).filter (· ∉ name :: path) =
          ((names options).filter (· ∉ path)).filter (· ≠ name) := by
        rw [List.filter_filter]
        refine List.filter_congr fun other _ => ?_
        simp [not_or]
      rw [hsplit, List.length_filter_lt_length_iff_exists]
      exact ⟨name, List.mem_filter.mpr ⟨hname, by simpa using hpath⟩, by simp⟩
    rw [if_neg hpath]
    split <;> omega

theorem mem_names_of_lookup {options : Options} {name : String} {option : OptionField}
    (h : options.lookup name = some option) : name ∈ names options := by
  obtain ⟨before, after, hoptions, -⟩ := List.lookup_eq_some_iff.mp h
  exact List.mem_map.mpr ⟨(name, option), by simp [hoptions], rfl⟩

theorem mem_names_of_rule {options : Options} {name : String} {rule : VisibleIf}
    (h : (options.lookup name).bind OptionField.visibleIf = some rule) : name ∈ names options := by
  obtain ⟨option, hoption, -⟩ := Option.bind_eq_some_iff.mp h
  exact mem_names_of_lookup hoption

/-- `is_visible`, with the results so far. -/
def isVisible (name : String) (path : List String) (visibility : List (String × Bool)) : Bool × List (String × Bool) :=
  match visibility.lookup name with
  | some shown => (shown, visibility)
  | none =>
    match hrule : (options.lookup name).bind OptionField.visibleIf with
    | none => (true, (name, true) :: visibility)
    | some rule =>
      match rule.field.bind fun parent => (options.lookup parent).map (parent, ·) with
      | none => (false, (name, false) :: visibility)
      | some (parent, option) =>
        if hpath : parent ∈ path then (false, (name, false) :: visibility)
        else
          have : depth options parent (name :: path) < depth options name path :=
            depth_lt (mem_names_of_rule hrule) hpath
          let (shown, visibility) := isVisible parent (name :: path) visibility
          let result := shown && optionValueMatches toBoolean option (values parent) rule.values
          (result, (name, result) :: visibility)
termination_by depth options name path
decreasing_by assumption

/-- One more option, with the hidden ones and the results so far. -/
def collect (found : List String × List (String × Bool)) (name : String) : List String × List (String × Bool) :=
  let (shown, visibility) := isVisible toBoolean options values name [name] found.2
  (if shown then found.1 else found.1 ++ [name], visibility)

/-- `get_hidden_options`. -/
def getHiddenOptions : List String := ((names options).foldl (collect toBoolean options values) ([], [])).1

/-- `strip_hidden_options`. -/
def stripHiddenOptions : Values := fun name =>
  if name ∈ getHiddenOptions toBoolean options values then none else values name

/-- The errors of `_validate_visible_if`: the option that a rule refers to, and the option of the rule. -/
inductive VisibleIfError
  | notFound (field : Option String) (name : String)
  | mustAppearEarlier (field name : String)
  | mustBeChoice (field name : String)
  | valuesNotValid (field name : String)
deriving DecidableEq

/-- `positions.get(key)`: the last of several. -/
def position (order : List String) (key : String) : Option ℕ :=
  ((List.range order.length).filter fun i => order[i]? = some key).getLast?

/-- `VISIBLE_IF_FIELD_TYPES`. -/
def visibleIfFieldTypes : List FieldType := [.boolean, .selectString, .selectStringMulti]

def valuesAreValid (parent : OptionField) (values : List Json) : Bool :=
  if parent.type = .boolean then values.all fun
    | .bool _ => true
    | _ => false
  else values.all fun
    | .string s => s ∈ parent.choices
    | _ => false

/-- `_validate_visible_if`, of one option. -/
def validateRule (order : List String) (entry : String × OptionField) : Except VisibleIfError Unit :=
  match entry.2.visibleIf with
  | none => .ok ()
  | some rule =>
    match rule.field with
    | none => .error (.notFound none entry.1)
    | some field =>
      match options.lookup field with
      | none => .error (.notFound field entry.1)
      | some parent =>
        match position order field, position order entry.1 with
        | some i, some j =>
          if j ≤ i then .error (.mustAppearEarlier field entry.1)
          else if parent.type ∉ visibleIfFieldTypes then .error (.mustBeChoice field entry.1)
          else if !valuesAreValid parent rule.values then .error (.valuesNotValid field entry.1)
          else .ok ()
        | _, _ => .error (.mustAppearEarlier field entry.1)

/-- `_validate_visible_if`. -/
def validateVisibleIf (order : List String) : Except VisibleIfError Unit := options.forM (validateRule options order)

end Code

/-! ## What is hidden -/

section Hidden

variable {toBoolean : Json → Option Bool} {options : Options} {values : Values}

/-- When an option is shown, by its rule. -/
def condition (toBoolean : Json → Option Bool) (options : Options) (values : Values) (name : String) :
    Condition String :=
  match (options.lookup name).bind OptionField.visibleIf with
  | none => .always
  | some rule =>
    match rule.field.bind fun parent => (options.lookup parent).map (parent, ·) with
    | none => .never
    | some (parent, option) => .follows parent (optionValueMatches toBoolean option (values parent) rule.values)

/-- The results so far are right. -/
def Sound (toBoolean : Json → Option Bool) (options : Options) (values : Values) (visibility : List (String × Bool)) :
    Prop :=
  ∀ name shown, visibility.lookup name = some shown → (shown = true ↔ Shown (condition toBoolean options values) name)

theorem Sound.cons {visibility : List (String × Bool)} (h : Sound toBoolean options values visibility) {name : String}
    {shown : Bool} (hshown : shown = true ↔ Shown (condition toBoolean options values) name) :
    Sound toBoolean options values ((name, shown) :: visibility) := by
  intro other result hlookup
  rw [List.lookup_cons] at hlookup
  split at hlookup
  · next heq =>
    obtain rfl := beq_iff_eq.mp heq
    obtain rfl := Option.some.inj hlookup
    exact hshown
  · exact h other result hlookup

/-- **The results so far and the path do not matter**: an option is found visible exactly if it is shown. -/
theorem isVisible_spec (name : String) (path : List String) (visibility : List (String × Bool))
    (hsound : Sound toBoolean options values visibility)
    (hpath : ∀ other ∈ path, ReflTransGen (Follows (condition toBoolean options values)) other name) :
    ((isVisible toBoolean options values name path visibility).1 = true ↔
        Shown (condition toBoolean options values) name) ∧
      Sound toBoolean options values (isVisible toBoolean options values name path visibility).2 := by
  rw [isVisible]
  split
  · next shown hlookup => exact ⟨hsound name shown hlookup, hsound⟩
  split
  · next hrule =>
    have halways : condition toBoolean options values name = .always := by
      unfold condition
      rw [hrule]
    have hshown : true = true ↔ Shown (condition toBoolean options values) name :=
      iff_of_true rfl (.always halways)
    exact ⟨hshown, hsound.cons hshown⟩
  next rule hrule =>
  split
  · next hparent =>
    have hnever : condition toBoolean options values name = .never := by
      unfold condition
      rw [hrule]
      dsimp only
      rw [hparent]
    have hshown : false = true ↔ Shown (condition toBoolean options values) name :=
      iff_of_false Bool.false_ne_true (not_shown_of_never hnever)
    exact ⟨hshown, hsound.cons hshown⟩
  next parent option hparent =>
  have hfollows : condition toBoolean options values name =
      .follows parent (optionValueMatches toBoolean option (values parent) rule.values) := by
    unfold condition
    rw [hrule]
    dsimp only
    rw [hparent]
  have hedge : Follows (condition toBoolean options values) name parent := ⟨_, hfollows⟩
  split
  · next hmem =>
    have hshown : false = true ↔ Shown (condition toBoolean options values) name := by
      refine iff_of_false Bool.false_ne_true fun h => ?_
      exact ((shown_iff_of_follows hfollows).mp h).1.not_cycle (TransGen.tail' (hpath parent hmem) hedge)
    exact ⟨hshown, hsound.cons hshown⟩
  next hmem =>
  have hless : depth options parent (name :: path) < depth options name path :=
    depth_lt (mem_names_of_rule hrule) hmem
  have ih := isVisible_spec parent (name :: path) visibility hsound fun other hother => by
    rcases List.mem_cons.mp hother with rfl | hother
    · exact .single hedge
    · exact (hpath other hother).tail hedge
  obtain ⟨hshown, hsound'⟩ := ih
  have hresult : ((isVisible toBoolean options values parent (name :: path) visibility).1 &&
      optionValueMatches toBoolean option (values parent) rule.values) = true ↔
        Shown (condition toBoolean options values) name := by
    rw [Bool.and_eq_true, hshown, shown_iff_of_follows hfollows]
  exact ⟨hresult, hsound'.cons hresult⟩
termination_by depth options name path
decreasing_by assumption

theorem mem_collect {name : String} : ∀ {l : List String} {found : List String × List (String × Bool)},
    Sound toBoolean options values found.2 →
      (name ∈ (l.foldl (collect toBoolean options values) found).1 ↔
        name ∈ found.1 ∨ name ∈ l ∧ ¬ Shown (condition toBoolean options values) name)
  | [], found, _ => by simp
  | first :: l, found, hsound => by
    obtain ⟨hshown, hsound'⟩ := isVisible_spec first [first] found.2 hsound fun other hother =>
      List.mem_singleton.mp hother ▸ .refl
    rw [List.foldl_cons]
    refine (mem_collect hsound').trans ?_
    have hfirst : name ∈ (collect toBoolean options values found first).1 ↔
        name ∈ found.1 ∨ name = first ∧ ¬ Shown (condition toBoolean options values) name := by
      unfold collect
      dsimp only
      split
      · next hvisible =>
        refine (or_iff_left ?_).symm
        rintro ⟨rfl, hnot⟩
        exact hnot (hshown.mp hvisible)
      · next hvisible =>
        rw [List.mem_append, List.mem_singleton]
        refine or_congr_right (and_iff_left_of_imp ?_).symm
        rintro rfl
        exact fun h => hvisible (hshown.mpr h)
    rw [hfirst, List.mem_cons, or_and_right, or_assoc]

theorem mem_getHiddenOptions {name : String} : name ∈ getHiddenOptions toBoolean options values ↔
    name ∈ names options ∧ ¬ Shown (condition toBoolean options values) name := by
  have hstart : Sound toBoolean options values [] := fun other shown h => absurd h.symm (Option.some_ne_none shown)
  exact (mem_collect hstart).trans (or_iff_right List.not_mem_nil)

theorem stripHiddenOptions_eq_some {name : String} {value : Json} :
    stripHiddenOptions toBoolean options values name = some value ↔
      name ∉ getHiddenOptions toBoolean options values ∧ values name = some value := by
  unfold stripHiddenOptions
  split
  · next h => exact iff_of_false (Option.some_ne_none value).symm fun h' => h'.1 h
  · next h => exact (and_iff_right h).symm

theorem stripHiddenOptions_of_shown {name : String} (h : Shown (condition toBoolean options values) name) :
    stripHiddenOptions toBoolean options values name = values name :=
  if_neg fun hmem => (mem_getHiddenOptions.mp hmem).2 h

/-- Without the values of the hidden options, the same options are shown. -/
theorem shown_strip {name : String} :
    Shown (condition toBoolean options (stripHiddenOptions toBoolean options values)) name ↔
      Shown (condition toBoolean options values) name := by
  refine shown_congr fun other => ?_
  unfold condition
  split
  · exact Or.inl rfl
  split
  · exact Or.inl rfl
  next parent option _ =>
  by_cases hparent : Shown (condition toBoolean options values) parent
  · rw [stripHiddenOptions_of_shown hparent]
    exact Or.inl rfl
  · exact Or.inr ⟨parent, _, _, rfl, rfl, hparent⟩

theorem mem_hidden_strip {name : String} :
    name ∈ getHiddenOptions toBoolean options (stripHiddenOptions toBoolean options values) ↔
      name ∈ getHiddenOptions toBoolean options values := by
  rw [mem_getHiddenOptions, mem_getHiddenOptions, shown_strip]

/-- A rule that was accepted refers to an option that stands earlier. -/
theorem earlier_of_validateRule {order : List String} {name : String} {option : OptionField} {rule : VisibleIf}
    (h : validateRule options order (name, option) = .ok ()) (hrule : option.visibleIf = some rule) :
    ∃ field parent i j, rule.field = some field ∧ options.lookup field = some parent ∧
      position order field = some i ∧ position order name = some j ∧ i < j := by
  unfold validateRule at h
  rw [hrule] at h
  dsimp only at h
  split at h
  · exact absurd h nofun
  next field hfield =>
  split at h
  · exact absurd h nofun
  next parent hparent =>
  split at h
  · next i j hi hj =>
    split at h
    · exact absurd h nofun
    · next hlt => exact ⟨field, parent, i, j, hfield, hparent, hi, hj, not_le.mp hlt⟩
  · exact absurd h nofun

/-- Where the rules were accepted, the options that one depends on stand earlier. -/
theorem follows_of_validate (toBoolean : Json → Option Bool) (values : Values) {order : List String}
    (h : validateVisibleIf options order = .ok ()) {name : String} {rule : VisibleIf}
    (hrule : (options.lookup name).bind OptionField.visibleIf = some rule) :
    ∃ parent satisfied i j, condition toBoolean options values name = .follows parent satisfied ∧
      position order parent = some i ∧ position order name = some j ∧ i < j := by
  obtain ⟨option, hoption, hvisible⟩ := Option.bind_eq_some_iff.mp hrule
  obtain ⟨before, after, hoptions, -⟩ := List.lookup_eq_some_iff.mp hoption
  have hentry := forM_eq_ok.mp h (name, option) (by simp [hoptions])
  obtain ⟨field, parent, i, j, hfield, hparent, hi, hj, hlt⟩ := earlier_of_validateRule hentry hvisible
  refine ⟨field, optionValueMatches toBoolean parent (values field) rule.values, i, j, ?_, hi, hj, hlt⟩
  unfold condition
  rw [hrule]
  dsimp only
  rw [hfield, Option.bind_some, hparent]
  rfl

theorem condition_of_no_rule {name : String} (h : (options.lookup name).bind OptionField.visibleIf = none) :
    condition toBoolean options values name = .always := by
  unfold condition
  rw [h]

/-- Accepted rules have no cycles. -/
theorem acc_of_validate {order : List String} (h : validateVisibleIf options order = .ok ()) :
    ∀ (n : ℕ) (name : String), (∀ j, position order name = some j → j < n) →
      Acc (fun a b => Follows (condition toBoolean options values) b a) name
  | n, name, hn => by
    refine .intro name fun parent hfollows => ?_
    cases hrule : (options.lookup name).bind OptionField.visibleIf with
    | none =>
      obtain ⟨_, hedge⟩ := hfollows
      exact absurd ((condition_of_no_rule hrule).symm.trans hedge) nofun
    | some rule =>
      obtain ⟨parent', satisfied, i, j, hcondition, hi, hj, hlt⟩ := follows_of_validate toBoolean values h hrule
      obtain rfl := hfollows.unique hcondition
      have hjn := hn j hj
      match n with
      | n + 1 =>
        refine acc_of_validate h n parent fun k hk => ?_
        obtain rfl := Option.some.inj (hi.symm.trans hk)
        omega

/-- **Which options are hidden**: those from which no chain of satisfied rules leads to an option without a rule,
in whatever order they are visited.  Where the rules were accepted, those with a rule on their chain that fails. -/
theorem hidden_iff (toBoolean : Json → Option Bool) (options : Options) (values : Values) (name : String) :
    (name ∈ getHiddenOptions toBoolean options values ↔
      name ∈ names options ∧ ¬ Shown (condition toBoolean options values) name) ∧
    ∀ order, validateVisibleIf options order = .ok () → (name ∈ getHiddenOptions toBoolean options values ↔
      name ∈ names options ∧ ∃ other parent, ReflTransGen (Follows (condition toBoolean options values)) name other ∧
        condition toBoolean options values other = .follows parent false) := by
  refine ⟨mem_getHiddenOptions, fun order horder => ?_⟩
  have hacc : Acc (fun a b => Follows (condition toBoolean options values) b a) name := by
    refine acc_of_validate horder ((position order name).getD 0 + 1) name fun j hj => ?_
    rw [hj]
    exact Nat.lt_succ_self j
  rw [mem_getHiddenOptions, not_shown_iff hacc]
  refine and_congr_right fun _ => ⟨?_, ?_⟩
  · rintro ⟨other, hchain, hnever | ⟨parent, hfails⟩⟩
    · cases hrule : (options.lookup other).bind OptionField.visibleIf with
      | none => exact absurd ((condition_of_no_rule hrule).symm.trans hnever) nofun
      | some rule =>
        obtain ⟨parent, satisfied, i, j, hcondition, -⟩ := follows_of_validate toBoolean values horder hrule
        exact absurd (hcondition.symm.trans hnever) nofun
    · exact ⟨other, parent, hchain, hfails⟩
  · rintro ⟨other, parent, hchain, hfails⟩
    exact ⟨other, hchain, Or.inr ⟨parent, hfails⟩⟩

end Hidden

/-! ## The values that a resource keeps -/

section Stored

variable (toBoolean : Json → Option Bool)

/-- `{**stored, **new}`. -/
def merge (stored new : Values) : Values := fun name => (new name).or (stored name)

/-- `apply_new_options`, and the update of the options of a resource. -/
def applyNewOptions (options : Options) (stored new : Values) : Values :=
  stripHiddenOptions toBoolean options (merge stored new)

/-- `copy_order_options_to_resource`. -/
def copyOrderOptions (options : Options) (attributes : Values) : Values :=
  stripHiddenOptions toBoolean options fun name => if name ∈ names options then attributes name else none

/-- The options of the offering of a resource, and the values that it keeps. -/
structure Resource where
  options : Options
  stored : Values

/-- A change of the values, and an edit of the offering. -/
inductive ResourceOp
  | update (new : Values)
  | configure (options : Options)

def step (resource : Resource) : ResourceOp → Resource
  | .update new => { resource with stored := applyNewOptions toBoolean resource.options resource.stored new }
  | .configure options => { resource with options := options }

/-- The value that a change submits. -/
def ResourceOp.submitted (name : String) : ResourceOp → Option Json
  | .update new => new name
  | .configure _ => none

/-- A change leaves the option visible. -/
def Shows (name : String) (resource : Resource) : ResourceOp → Prop
  | .update new => name ∉ getHiddenOptions toBoolean (step toBoolean resource (.update new)).options
      (step toBoolean resource (.update new)).stored
  | .configure _ => True

/-- A change leaves the option visible and does not submit it. -/
def Keeps (name : String) (resource : Resource) (op : ResourceOp) : Prop :=
  Shows toBoolean name resource op ∧ op.submitted name = none

variable {toBoolean}

theorem stored_step {name : String} {value : Json} (resource : Resource) (op : ResourceOp) :
    (step toBoolean resource op).stored name = some value ↔
      Shows toBoolean name resource op ∧
        (op.submitted name = some value ∨ op.submitted name = none ∧ resource.stored name = some value) := by
  cases op with
  | update new =>
    change stripHiddenOptions toBoolean resource.options (merge resource.stored new) name = some value ↔
      name ∉ getHiddenOptions toBoolean resource.options
        (stripHiddenOptions toBoolean resource.options (merge resource.stored new)) ∧ _
    rw [stripHiddenOptions_eq_some, mem_hidden_strip]
    exact and_congr_right fun _ => Option.or_eq_some_iff
  | configure options =>
    refine (and_iff_right trivial).symm.trans (and_congr_right fun _ => ?_)
    exact (or_iff_right (Option.some_ne_none value).symm).trans (and_iff_right rfl) |>.symm

/-- The values copied from an order are those of a change, submitted to a resource that has none. -/
theorem copyOrderOptions_eq_update (options : Options) (attributes : Values) :
    copyOrderOptions toBoolean options attributes = (step toBoolean ⟨options, fun _ => none⟩
      (.update fun name => if name ∈ names options then attributes name else none)).stored := by
  refine congrArg (stripHiddenOptions toBoolean options) (funext fun name => ?_)
  exact Option.or_none.symm

/-- **What a resource keeps of an option** is the last value that was submitted for it, unless a change since then has
hidden it. -/
theorem stored_run {name : String} {value : Json} : ∀ (ops : List ResourceOp) (resource : Resource),
    (run (step toBoolean) resource ops).stored name = some value ↔
      resource.stored name = some value ∧ Along (step toBoolean) (Keeps toBoolean name) resource ops ∨
        ∃ before op after, ops = before ++ op :: after ∧ op.submitted name = some value ∧
          Shows toBoolean name (run (step toBoolean) resource before) op ∧
            Along (step toBoolean) (Keeps toBoolean name) (step toBoolean (run (step toBoolean) resource before) op)
              after
  | [], resource => by
    refine (or_iff_left ?_).symm.trans (or_congr_left (and_iff_left trivial).symm)
    rintro ⟨before, op, after, hnil, -⟩
    simp at hnil
  | op :: ops, resource => by
    rw [run_cons, stored_run ops (step toBoolean resource op), stored_step, along_cons]
    constructor
    · rintro (⟨⟨hshows, hsubmitted | ⟨hnone, hstored⟩⟩, halong⟩ | ⟨before, op', after, rfl, hrest⟩)
      · exact Or.inr ⟨[], op, ops, rfl, hsubmitted, hshows, halong⟩
      · exact Or.inl ⟨hstored, ⟨hshows, hnone⟩, halong⟩
      · exact Or.inr ⟨op :: before, op', after, rfl, hrest⟩
    · rintro (⟨hstored, ⟨hshows, hnone⟩, halong⟩ | ⟨before, op', after, heq, hsubmitted, hshows, halong⟩)
      · exact Or.inl ⟨⟨hshows, Or.inr ⟨hnone, hstored⟩⟩, halong⟩
      · cases before with
        | nil =>
          obtain ⟨rfl, rfl⟩ := List.cons.inj heq
          exact Or.inl ⟨⟨hshows, Or.inl hsubmitted⟩, halong⟩
        | cons first before =>
          obtain ⟨rfl, rfl⟩ := List.cons.inj heq
          exact Or.inr ⟨before, op', after, rfl, hsubmitted, hshows, halong⟩

/-- After a change, no hidden option has a value. -/
def Tidy (toBoolean : Json → Option Bool) (resource : Resource) : ResourceOp → Prop
  | .update new => ∀ name ∈ getHiddenOptions toBoolean (step toBoolean resource (.update new)).options
      (step toBoolean resource (.update new)).stored, (step toBoolean resource (.update new)).stored name = none
  | .configure _ => True

theorem tidy_step (resource : Resource) (op : ResourceOp) : Tidy toBoolean resource op := by
  cases op with
  | update new =>
    intro name hhidden
    refine Option.eq_none_iff_forall_ne_some.mpr fun value hstored => ?_
    exact ((stored_step resource (.update new)).mp hstored).1 hhidden
  | configure options => trivial

/-- **The values that a resource keeps**, over every run of changes and of edits of its offering: of each option the
last value that was submitted, unless a change since then has hidden it; and no change leaves a value of a hidden
option. -/
theorem stored_iff (toBoolean : Json → Option Bool) (resource : Resource) (ops : List ResourceOp) :
    (∀ name value, (run (step toBoolean) resource ops).stored name = some value ↔
      resource.stored name = some value ∧ Along (step toBoolean) (Keeps toBoolean name) resource ops ∨
        ∃ before op after, ops = before ++ op :: after ∧ op.submitted name = some value ∧
          Shows toBoolean name (run (step toBoolean) resource before) op ∧
            Along (step toBoolean) (Keeps toBoolean name) (step toBoolean (run (step toBoolean) resource before) op)
              after) ∧
      Along (step toBoolean) (Tidy toBoolean) resource ops := by
  refine ⟨fun name value => stored_run ops resource, ?_⟩
  have hstep : ∀ resource op, True → True → True ∧ Tidy toBoolean resource op :=
    fun resource op _ _ => ⟨trivial, tidy_step resource op⟩
  exact @along_of_invariant _ _ _ (fun _ => True) (fun _ _ => True) _ hstep ops resource trivial
    (along_true ops resource)

end Stored

end Waldur.Marketplace.ConditionalOptions
