import Mathlib.Data.List.Basic

/-!
# JSON values

The values that a JSON text is parsed to, and how their entries are read. An entry
that is missing is read as `null`, and so is any entry of what is no object.
-/

/-- A number: an unsigned or a negative integer of 64 bits, or the bits of a float. -/
inductive JsonNumber
  | posInt (n : UInt64)
  | negInt (n : Int64)
  | float (bits : UInt64)

/-- A JSON value. The keys of an object differ. -/
inductive Json
  | null
  | bool (b : Bool)
  | number (n : JsonNumber)
  | string (text : String)
  | array (values : List Json)
  | object (entries : List (String × Json))

namespace Json

/-- The entry with a key. -/
def get (json : Json) (key : String) : Json :=
  match json with
  | .object entries => (entries.lookup key).getD .null
  | _ => .null

/-- The value of an unsigned integer. -/
def asU64 : Json → Option UInt64
  | .number (.posInt n) => some n
  | _ => none

def asStr : Json → Option String
  | .string text => some text
  | _ => none

/-- An unsigned number is read as itself. -/
@[simp] theorem asU64_posInt (n : UInt64) : asU64 (.number (.posInt n)) = some n := rfl

/-- A string is read as itself. -/
@[simp] theorem asStr_string (text : String) : asStr (.string text) = some text := rfl

/-- The first entry with the key is found. -/
@[simp] theorem get_object_cons_self (key : String) (value : Json)
    (entries : List (String × Json)) : get (.object ((key, value) :: entries)) key = value := by
  rw [get, List.lookup_cons_self, Option.getD_some]

/-- Entries with other keys are passed over. -/
@[simp] theorem get_object_cons_of_ne {key other : String} (h : key ≠ other) (value : Json)
    (entries : List (String × Json)) :
    get (.object ((other, value) :: entries)) key = get (.object entries) key := by
  rw [get, List.lookup_cons, beq_false_of_ne h, get]

end Json
