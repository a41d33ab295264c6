import Mathlib.Algebra.Order.Ring.Rat

namespace KtKernel.Data

/-! What `json.load` gives, with Python's comparisons.

The float of infinities and NaN is `none`; an object lists each key once. -/

inductive Json where
  | null
  | bool (value : Bool)
  | int (value : Int)
  | float (value : Option ℚ)
  | string (text : List Char)
  | array (items : List Json)
  | object (fields : List (List Char × Json))

namespace Json

/-- `dict.get`, with `None` for an absent key. -/
def get (key : List Char) (fields : List (List Char × Json)) : Json :=
  (fields.lookup key).getD .null

def equalsInt (expected : Int) : Json → Bool
  | .int value => value == expected
  | .bool value => (if value then 1 else 0) == expected
  | .float (some value) => value == (expected : ℚ)
  | _ => false

def equalsText (expected : List Char) : Json → Bool
  | .string text => text == expected
  | _ => false

/-- An `int` that is no `bool`. -/
def asInt : Json → Option Int
  | .int value => some value
  | _ => none

@[simp]
theorem equalsInt_int (expected : Int) : (Json.int expected).equalsInt expected = true :=
  beq_self_eq_true expected

@[simp]
theorem equalsText_string (expected : List Char) : (Json.string expected).equalsText expected = true :=
  beq_self_eq_true expected

end Json

end KtKernel.Data
