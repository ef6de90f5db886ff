import Mathlib

/-!
# JSON values

The values `serde_json::Value` has, with the accessors the services read them through. An object is the
list of its members; a lookup takes the first member of a name, so a value built by inserting members
whose names differ reads back what was inserted.
-/

namespace TrustInfrastructure.Lib

/-- A JSON number as `serde_json` holds one: an unsigned or a negative integer, or a double by its bits. -/
inductive Number where
  | posInt (n : Nat)
  | negInt (magnitude : Nat)
  | float (bits : Nat)
  deriving DecidableEq

inductive Value where
  | null
  | bool (b : Bool)
  | number (n : Number)
  | string (s : String)
  | array (items : List Value)
  | object (members : List (String × Value))

namespace Value

mutual

/-- Equality of values, decided by recursion on the first one. -/
def beq : Value → Value → Bool
  | .null, .null => true
  | .bool x, .bool y => x == y
  | .number x, .number y => x == y
  | .string x, .string y => x == y
  | .array xs, .array ys => beqItems xs ys
  | .object xs, .object ys => beqMembers xs ys
  | _, _ => false

def beqItems : List Value → List Value → Bool
  | [], [] => true
  | x :: xs, y :: ys => beq x y && beqItems xs ys
  | _, _ => false

def beqMembers : List (String × Value) → List (String × Value) → Bool
  | [], [] => true
  | (n, x) :: xs, (m, y) :: ys => n == m && (beq x y && beqMembers xs ys)
  | _, _ => false

end

mutual

theorem beq_iff : ∀ a b : Value, beq a b = true ↔ a = b
  | .null, b => by cases b <;> simp [beq]
  | .bool _, b => by cases b <;> simp [beq]
  | .number _, b => by cases b <;> simp [beq]
  | .string _, b => by cases b <;> simp [beq]
  | .array xs, b => by cases b <;> simp [beq, beqItems_iff xs]
  | .object xs, b => by cases b <;> simp [beq, beqMembers_iff xs]

theorem beqItems_iff : ∀ xs ys : List Value, beqItems xs ys = true ↔ xs = ys
  | [], ys => by cases ys <;> simp [beqItems]
  | x :: xs, ys => by cases ys <;> simp [beqItems, beq_iff x, beqItems_iff xs]

theorem beqMembers_iff : ∀ xs ys : List (String × Value), beqMembers xs ys = true ↔ xs = ys
  | [], ys => by cases ys <;> simp [beqMembers]
  | (n, x) :: xs, ys => by
    rcases ys with _ | ⟨⟨m, y⟩, ys⟩
    · simp [beqMembers]
    · simp [beqMembers, beq_iff x, beqMembers_iff xs, and_assoc]

end

instance : DecidableEq Value := fun a b => decidable_of_iff (beq a b = true) (beq_iff a b)

/-! ### Accessors -/

def asObject : Value → Option (List (String × Value))
  | .object members => some members
  | _ => none

def asArray : Value → Option (List Value)
  | .array items => some items
  | _ => none

def asStr : Value → Option String
  | .string s => some s
  | _ => none

def asU64 : Value → Option Nat
  | .number (.posInt n) => some n
  | _ => none

def isObject (v : Value) : Bool := v.asObject.isSome

end Value

/-- The member of an object named `name`. -/
def member (members : List (String × Value)) (name : String) : Option Value := members.lookup name

end TrustInfrastructure.Lib
