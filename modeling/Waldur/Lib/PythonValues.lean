import Mathlib
import Waldur.Lib.DateRange
import Waldur.Lib.Doubles
import Waldur.Lib.Json
import Waldur.Lib.PythonFractions
import Waldur.Lib.PythonText

/-!
# Lib.PythonValues — values of Python that are compared with each other

`None`, truth values, integers, floats, texts, dates, lists and dictionaries: `==`, `in` and iteration, and the numbers
that `int(text)` and `float(text)` read.  The values of JSON are among them, and compare in the same way
(`equals_ofJson`).  Values that are compared are built apart from each other, so that `nan` is never found.
-/

namespace Python

open PythonText Calendar Doubles
open Json (TypeError)

/-! ## Numbers -/

/-- What an integer, a float or a truth value counts as. -/
inductive Number
  | finite (x : ℚ)
  | infinite (negative : Bool)
  | nan
deriving DecidableEq, Repr

/-- `==`. -/
def Number.equals : Number → Number → Bool
  | .finite x, .finite y => x == y
  | .infinite a, .infinite b => a == b
  | _, _ => false

/-- `text.strip()`. -/
def stripBlanks (l : List Char) : List Char := strip isBlank l

/-- `int(text)`, in digits of any script; `none` is a `ValueError`. -/
def intOfText (s : String) : Option ℤ :=
  let (sign, l) := takeSign (stripBlanks s.toList)
  let (digits, l) := takeNumeral l
  if digits = [] ∨ l ≠ [] then none else (intOfDigits digits).map (sign * ·)

/-- The double nearest to a number, if there is one. -/
def roundToFloat (x : ℚ) : Number :=
  let y := toDouble x
  if 2 ^ 1024 ≤ |y| then .infinite (decide (y < 0)) else .finite y

/-- `float(text)`: the names of what is no number, or a numeral with decimals and an exponent; `none` is a
`ValueError`. -/
def floatOfText (s : String) : Option Number :=
  let (sign, l) := takeSign (stripBlanks s.toList)
  let name := l.map Char.toLower
  if name = "inf".toList ∨ name = "infinity".toList then some (.infinite (decide (sign < 0)))
  else if name = "nan".toList then some .nan
  else if '/' ∈ l then none
  else (readFraction s.toList).map roundToFloat

/-! ## Values -/

/-- A value; the fields of a dictionary are listed in one order. -/
inductive Value
  | none
  | bool (b : Bool)
  | int (n : ℤ)
  | float (x : Number)
  | string (s : String)
  | date (d : PyDate)
  | list (items : List Value)
  | dict (fields : List (String × Value))

namespace Value

/-- `True` and `False` are the numbers 1 and 0. -/
def numeric? : Value → Option Number
  | .bool b => some (.finite (if b then 1 else 0))
  | .int n => some (.finite n)
  | .float x => some x
  | _ => Option.none

mutual

/-- `==`. -/
def equals : Value → Value → Bool
  | .list xs, .list ys => equalsAll xs ys
  | .dict xs, .dict ys => equalsFields xs ys
  | .string s, .string t => s == t
  | .date d, .date e => d.date == e.date
  | .none, .none => true
  | a, b =>
    match a.numeric?, b.numeric? with
    | some x, some y => x.equals y
    | _, _ => false

def equalsAll : List Value → List Value → Bool
  | [], [] => true
  | x :: xs, y :: ys => equals x y && equalsAll xs ys
  | _, _ => false

def equalsFields : List (String × Value) → List (String × Value) → Bool
  | [], [] => true
  | (k, x) :: xs, (l, y) :: ys => k == l && equals x y && equalsFields xs ys
  | _, _ => false

end

/-- The items that `for` and `any` go through. -/
def iterate : Value → Except TypeError (List Value)
  | .list xs => .ok xs
  | .string s => .ok (s.toList.map fun c => .string (String.singleton c))
  | .dict fields => .ok (fields.map fun field => .string field.1)
  | _ => .error .notIterable

/-- `a in b`. -/
def isIn (a : Value) : Value → Except TypeError Bool
  | .list ys => .ok (ys.any (equals a))
  | .string t =>
    match a with
    | .string s => .ok (decide (s.toList <:+: t.toList))
    | _ => .error .notAString
  | .dict fields =>
    match a with
    | .string s => .ok (fields.any (·.1 == s))
    | .list _ | .dict _ => .error .unhashable
    | _ => .ok false
  | _ => .error .notAContainer

/-! ## JSON -/

mutual

/-- A value of a JSON column: a number without decimals is an integer. -/
def ofJson : Json → Value
  | .null => .none
  | .bool b => .bool b
  | .number x => if x.den = 1 then .int x.num else .float (.finite x)
  | .string s => .string s
  | .array items => .list (ofJsonAll items)
  | .object fields => .dict (ofJsonFields fields)

def ofJsonAll : List Json → List Value
  | [] => []
  | a :: items => ofJson a :: ofJsonAll items

def ofJsonFields : List (String × Json) → List (String × Value)
  | [] => []
  | (k, a) :: fields => (k, ofJson a) :: ofJsonFields fields

end

theorem ofJsonAll_eq_map (items : List Json) : ofJsonAll items = items.map ofJson := by
  induction items with
  | nil => rw [ofJsonAll, List.map_nil]
  | cons a items ih => rw [ofJsonAll, ih, List.map_cons]

theorem ofJsonFields_eq_map (fields : List (String × Json)) :
    ofJsonFields fields = fields.map fun field => (field.1, ofJson field.2) := by
  induction fields with
  | nil => rw [ofJsonFields, List.map_nil]
  | cons field fields ih => rw [ofJsonFields, ih, List.map_cons]

theorem ofJson_ne_date {a : Json} {d : PyDate} : ofJson a ≠ .date d := by
  cases a <;> simp [ofJson]
  split_ifs <;> simp

theorem array_of_ofJson {a : Json} {items : List Value} (h : ofJson a = .list items) : ∃ xs, a = .array xs := by
  cases a with
  | array xs => exact ⟨xs, rfl⟩
  | number x =>
    simp only [ofJson] at h
    split_ifs at h
  | _ => simp [ofJson] at h

@[simp] theorem ofJson_eq_none {a : Json} : ofJson a = .none ↔ a = .null := by
  cases a <;> simp [ofJson]
  split_ifs <;> simp

theorem numeric?_ofJson (a : Json) : (ofJson a).numeric? = a.numeric?.map Number.finite := by
  cases a with
  | number x =>
    simp only [ofJson, Json.numeric?, Option.map_some]
    split_ifs with hx
    · rw [numeric?, Rat.coe_int_num_of_den_eq_one hx]
    · rfl
  | _ => simp [ofJson, numeric?, Json.numeric?]

theorem equals_of_numeric {a b : Value} {x y : Number} (ha : a.numeric? = some x) (hb : b.numeric? = some y) :
    equals a b = x.equals y := by
  cases a <;> cases b <;> simp_all [numeric?, equals]

mutual

/-- **JSON values compare as the values they are.** -/
theorem equals_ofJson (a b : Json) : equals (ofJson a) (ofJson b) = Json.equals a b := by
  cases a <;> cases b
  case array.array xs ys => simpa only [ofJson, equals, Json.equals] using equalsAll_ofJson xs ys
  case object.object xs ys => simpa only [ofJson, equals, Json.equals] using equalsFields_ofJson xs ys
  case number.number x y =>
    have hx := numeric?_ofJson (.number x)
    have hy := numeric?_ofJson (.number y)
    rw [equals_of_numeric hx hy]
    simp [Json.equals, Json.numeric?, Number.equals]
  case number.bool x b =>
    rw [equals_of_numeric (numeric?_ofJson (.number x)) (numeric?_ofJson (.bool b))]
    simp [Json.equals, Json.numeric?, Number.equals]
  case bool.number b x =>
    rw [equals_of_numeric (numeric?_ofJson (.bool b)) (numeric?_ofJson (.number x))]
    simp [Json.equals, Json.numeric?, Number.equals]
  all_goals
    simp only [ofJson]
    try split_ifs
    all_goals simp [equals, Json.equals, numeric?, Json.numeric?, Number.equals]

theorem equalsAll_ofJson (xs ys : List Json) : equalsAll (ofJsonAll xs) (ofJsonAll ys) = Json.equalsAll xs ys := by
  cases xs <;> cases ys
  case cons.cons x xs y ys =>
    simp only [ofJsonAll, equalsAll, Json.equalsAll, equals_ofJson x y, equalsAll_ofJson xs ys]
  all_goals simp [ofJsonAll, equalsAll, Json.equalsAll]

theorem equalsFields_ofJson (xs ys : List (String × Json)) :
    equalsFields (ofJsonFields xs) (ofJsonFields ys) = Json.equalsFields xs ys := by
  cases xs <;> cases ys
  case cons.cons x xs y ys =>
    simp only [ofJsonFields, equalsFields, Json.equalsFields, equals_ofJson x.2 y.2, equalsFields_ofJson xs ys]
  all_goals simp [ofJsonFields, equalsFields, Json.equalsFields]

end

theorem any_equals_ofJson (a : Json) (items : List Json) :
    (items.map ofJson).any (equals (ofJson a)) = items.any (Json.equals a) := by
  simp only [List.any_map, Function.comp_def, equals_ofJson]

theorem iterate_ofJson (a : Json) : (ofJson a).iterate = a.iterate.map (·.map ofJson) := by
  cases a with
  | number x =>
    simp only [ofJson]
    split_ifs <;> rfl
  | array items => simp [ofJson, iterate, Json.iterate, ofJsonAll_eq_map, Except.map]
  | string s => simp [ofJson, iterate, Json.iterate, Except.map]
  | object fields => simp [ofJson, iterate, Json.iterate, ofJsonFields_eq_map, Except.map]
  | _ => simp [ofJson, iterate, Json.iterate, Except.map]

theorem isIn_ofJson (a b : Json) : (ofJson a).isIn (ofJson b) = a.isIn b := by
  cases b with
  | number x =>
    simp only [ofJson]
    split_ifs <;> rfl
  | array items => simp only [ofJson, isIn, Json.isIn, ofJsonAll_eq_map, any_equals_ofJson]
  | string t =>
    cases a with
    | number x =>
      simp only [ofJson]
      split_ifs <;> rfl
    | _ => simp [ofJson, isIn, Json.isIn]
  | object fields =>
    cases a with
    | number x =>
      simp only [ofJson]
      split_ifs <;> rfl
    | string s => simp [ofJson, isIn, Json.isIn, ofJsonFields_eq_map, List.any_map, Function.comp_def]
    | _ => simp [ofJson, isIn, Json.isIn]
  | _ => simp [ofJson, isIn, Json.isIn]

end Value

/-- `any(p(a) for a in items)`: the first true one ends it. -/
def anyOf {α : Type} (p : α → Except TypeError Bool) : List α → Except TypeError Bool
  | [] => .ok false
  | a :: items => do if ← p a then return true else anyOf p items

section AnyOf

variable {α : Type} {p : α → Except TypeError Bool} {q : α → Bool} {items : List α}

/-- Where nothing raises, `any` looks for a true one. -/
theorem anyOf_ok (h : ∀ a ∈ items, p a = .ok (q a)) : anyOf p items = .ok (items.any q) := by
  induction items with
  | nil => rfl
  | cons a items ih =>
    have hrest : anyOf p items = .ok (items.any q) := ih fun b hb => h b (List.mem_cons_of_mem a hb)
    rw [anyOf, h a List.mem_cons_self, hrest]
    cases hq : q a <;> simp [hq, bind, Except.bind, pure, Except.pure]

/-- `any` answers unless an item raises before one is true. -/
theorem anyOf_ok_iff (h : ∀ a, p a = .ok (q a) ∨ (∃ e, p a = .error e) ∧ q a = false) :
    anyOf p items = .ok (items.any q) ↔
      ¬ ∃ pre a post e, items = pre ++ a :: post ∧ (∀ x ∈ pre, q x = false) ∧ p a = .error e := by
  induction items with
  | nil => exact iff_of_true rfl (by rintro ⟨pre, a, post, e, heq, -, -⟩; simp at heq)
  | cons a items ih =>
    rcases h a with ha | ⟨⟨e, ha⟩, hq⟩
    · cases hq : q a with
      | true =>
        rw [hq] at ha
        refine iff_of_true (by rw [anyOf, ha, List.any_cons, hq]; rfl) ?_
        rintro ⟨pre, b, post, e, heq, hpre, hb⟩
        cases pre with
        | nil =>
          obtain ⟨rfl, -⟩ := List.cons.inj heq
          rw [ha] at hb
          cases hb
        | cons c pre =>
          obtain ⟨rfl, -⟩ := List.cons.inj heq
          rw [hpre a List.mem_cons_self] at hq
          cases hq
      | false =>
        rw [hq] at ha
        have hstep : anyOf p (a :: items) = anyOf p items := by rw [anyOf, ha]; rfl
        rw [hstep, List.any_cons, hq, Bool.false_or, ih, not_iff_not]
        constructor
        · rintro ⟨pre, b, post, e, rfl, hpre, hb⟩
          exact ⟨a :: pre, b, post, e, rfl, List.forall_mem_cons.mpr ⟨hq, hpre⟩, hb⟩
        · rintro ⟨pre, b, post, e, heq, hpre, hb⟩
          cases pre with
          | nil =>
            obtain ⟨rfl, -⟩ := List.cons.inj heq
            rw [ha] at hb
            cases hb
          | cons c pre =>
            obtain ⟨rfl, hitems⟩ := List.cons.inj heq
            exact ⟨pre, b, post, e, hitems, fun x hx => hpre x (List.mem_cons_of_mem a hx), hb⟩
    · have hraises : anyOf p (a :: items) = .error e := by rw [anyOf, ha]; rfl
      rw [hraises]
      refine iff_of_false (fun heq => by cases heq) (not_not.mpr ⟨[], a, items, e, rfl, ?_, ha⟩)
      exact fun x hx => absurd hx List.not_mem_nil

theorem anyOf_map {β : Type} (f : β → α) (items : List β) : anyOf p (items.map f) = anyOf (fun b => p (f b)) items := by
  induction items with
  | nil => rfl
  | cons b items ih => simp only [List.map_cons, anyOf, ih]

theorem anyOf_json (p : Json → Except TypeError Bool) (items : List Json) : anyOf p items = Json.anyOf p items := by
  induction items with
  | nil => rfl
  | cons a items ih => simp only [anyOf, Json.anyOf, ih]

end AnyOf

end Python
