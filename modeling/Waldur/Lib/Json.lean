import Mathlib

/-!
# Lib.Json — JSON values as Python reads them

Comparison, iteration and membership of the values that `json.loads` builds; what Python refuses raises
`TypeError`.  The fields of an object are listed in the one order that the database keeps.
-/

/-- A value of a JSON column. -/
inductive Json
  | null
  | bool (b : Bool)
  | number (x : ℚ)
  | string (s : String)
  | array (items : List Json)
  | object (fields : List (String × Json))
deriving Repr

namespace Json

/-- `True` and `False` are the numbers 1 and 0. -/
def numeric? : Json → Option ℚ
  | .bool b => some (if b then 1 else 0)
  | .number x => some x
  | _ => none

mutual

/-- `==`. -/
def equals : Json → Json → Bool
  | .array xs, .array ys => equalsAll xs ys
  | .object xs, .object ys => equalsFields xs ys
  | .string s, .string t => s == t
  | .null, .null => true
  | a, b =>
    match a.numeric?, b.numeric? with
    | some x, some y => x == y
    | _, _ => false

def equalsAll : List Json → List Json → Bool
  | [], [] => true
  | x :: xs, y :: ys => equals x y && equalsAll xs ys
  | _, _ => false

def equalsFields : List (String × Json) → List (String × Json) → Bool
  | [], [] => true
  | (k, x) :: xs, (l, y) :: ys => k == l && equals x y && equalsFields xs ys
  | _, _ => false

end

inductive TypeError
  | notIterable
  | notAContainer
  | notAString
  | unhashable
deriving DecidableEq, Repr

/-- The items that `for` and `any` go through. -/
def iterate : Json → Except TypeError (List Json)
  | .array xs => .ok xs
  | .string s => .ok (s.toList.map fun c => .string (String.singleton c))
  | .object fields => .ok (fields.map fun field => .string field.1)
  | _ => .error .notIterable

/-- `a in b`. -/
def isIn (a : Json) : Json → Except TypeError Bool
  | .array ys => .ok (ys.any (equals a))
  | .string t =>
    match a with
    | .string s => .ok (decide (s.toList <:+: t.toList))
    | _ => .error .notAString
  | .object fields =>
    match a with
    | .string s => .ok (fields.any (·.1 == s))
    | .array _ | .object _ => .error .unhashable
    | _ => .ok false
  | _ => .error .notAContainer

/-- `any(p(a) for a in items)`: the first true one ends it. -/
def anyOf (p : Json → Except TypeError Bool) : List Json → Except TypeError Bool
  | [] => .ok false
  | a :: items => do if ← p a then return true else anyOf p items

end Json
