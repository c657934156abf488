import ContextBroker.L1Data.Schema

/-!
# Values of `json.load`

A Python string is the list of its code points: a JSON escape may leave half of a
surrogate pair, which is no character. Of a float it matters whether it is 0, and
whether it is finite (`1e999` is not).
-/
namespace ContextBroker

abbrev PyStr := List Nat

/-- The string of a text. -/
def pyStr (t : Text) : PyStr := t.map Char.toNat

/-- It can be encoded as UTF-8. -/
def PyStr.encodable (s : PyStr) : Bool := s.all fun n => !(0xd800 ≤ n && n < 0xe000)

inductive JsonNumber where
  | int (n : Int)
  | float (zero finite : Bool)
  deriving DecidableEq, Repr

def JsonNumber.isTrue : JsonNumber → Bool
  | .int n => n != 0
  | .float zero _ => !zero

def JsonNumber.finite : JsonNumber → Bool
  | .int _ => true
  | .float _ finite => finite

inductive JsonValue where
  | null
  | bool (b : Bool)
  | number (n : JsonNumber)
  | str (s : PyStr)
  | arr (items : List JsonValue)
  | obj (fields : List (PyStr × JsonValue))

/-- `bool(value)` -/
def JsonValue.isTrue : JsonValue → Bool
  | .null => false
  | .bool b => b
  | .number n => n.isTrue
  | .str s => s != []
  | .arr items => !items.isEmpty
  | .obj fields => !fields.isEmpty

/-- The value of a key of a dict. -/
def lookupKey (fields : List (PyStr × JsonValue)) (key : String) : Option JsonValue :=
  fields.lookup (pyStr key.toList)

theorem encodable_pyStr (t : Text) : (pyStr t).encodable = true := by
  refine List.all_eq_true.mpr fun n hn => ?_
  obtain ⟨c, _, rfl⟩ := List.mem_map.mp hn
  have hvalid : c.toNat < 0xd800 ∨ 0xdfff < c.toNat ∧ c.toNat < 0x110000 := c.valid
  simp
  omega

end ContextBroker
