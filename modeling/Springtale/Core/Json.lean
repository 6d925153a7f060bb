import Mathlib.Data.Rat.Defs
import Mathlib.Data.List.Infix
import Mathlib.Data.List.Basic

/-! JSON values as `serde_json` reads them, with the dotted field paths of rule conditions. -/
namespace Springtale.Core

/-- A parsed value. Integers and floats never compare equal, as in `serde_json::Number`. -/
inductive Value where
  | null
  | bool (b : Bool)
  | int (n : Int)
  | float (x : Rat)
  | string (s : String)
  | array (items : List Value)
  | object (fields : List (String × Value))

namespace Value

mutual

def beq : Value → Value → Bool
  | .null, .null => true
  | .bool a, .bool b => a == b
  | .int a, .int b => a == b
  | .float a, .float b => a == b
  | .string a, .string b => a == b
  | .array as, .array bs => beqItems as bs
  | .object as, .object bs => beqFields as bs
  | _, _ => false

def beqItems : List Value → List Value → Bool
  | [], [] => true
  | a :: as, b :: bs => beq a b && beqItems as bs
  | _, _ => false

def beqFields : List (String × Value) → List (String × Value) → Bool
  | [], [] => true
  | (k, a) :: as, (l, b) :: bs => k == l && beq a b && beqFields as bs
  | _, _ => false

end

mutual

theorem beq_iff (a b : Value) : beq a b = true ↔ a = b := by
  cases a <;> cases b <;> simp [beq]
  case array.array as bs => exact beqItems_iff as bs
  case object.object as bs => exact beqFields_iff as bs

theorem beqItems_iff (as bs : List Value) : beqItems as bs = true ↔ as = bs := by
  cases as with
  | nil => cases bs <;> simp [beqItems]
  | cons a as =>
    cases bs with
    | nil => simp [beqItems]
    | cons b bs => simp [beqItems, beq_iff a b, beqItems_iff as bs]

theorem beqFields_iff (as bs : List (String × Value)) :
    beqFields as bs = true ↔ as = bs := by
  cases as with
  | nil => cases bs <;> simp [beqFields]
  | cons a as =>
    obtain ⟨k, a⟩ := a
    cases bs with
    | nil => simp [beqFields]
    | cons b bs =>
      obtain ⟨l, b⟩ := b
      simp [beqFields, beq_iff a b, beqFields_iff as bs]

end

instance : DecidableEq Value := fun a b => decidable_of_iff _ (beq_iff a b)

/-- `Map::get`; an object lists each key once. -/
def get (v : Value) (key : String) : Option Value :=
  match v with
  | .object fields => fields.lookup key
  | _ => none

def asStr : Value → Option String
  | .string s => some s
  | _ => none

@[simp] theorem get_object (fields : List (String × Value)) (key : String) :
    (object fields).get key = fields.lookup key := rfl

@[simp] theorem asStr_string (s : String) : (string s).asStr = some s := rfl

end Value

/-- `str::split` on one character: never empty, and a trailing separator yields a last "". -/
def splitChar (c : Char) : List Char → List (List Char)
  | [] => [[]]
  | x :: xs =>
    if x = c then [] :: splitChar c xs
    else match splitChar c xs with
      | [] => [[x]]
      | part :: parts => (x :: part) :: parts

/-- `str::parse::<usize>`: an optional plus sign, then at least one ASCII digit, within 64 bits. -/
def parseUsize (s : List Char) : Option Nat :=
  let digits := match s with
    | '+' :: rest => rest
    | s => s
  if digits = [] then none
  else
    let n := digits.foldl
      (fun acc c => acc.bind fun n => if c.isDigit then some (n * 10 + (c.toNat - 48)) else none)
      (some 0)
    n.filter (· ≤ 18446744073709551615)

/-- The loop of `resolve_field` over the parts of the path. -/
def resolveParts (current : Value) : List (List Char) → Option Value
  | [] => some current
  | part :: parts =>
    match current with
    | .object fields => (fields.lookup (String.ofList part)).bind (resolveParts · parts)
    | .array items => ((parseUsize part).bind (items[·]?)).bind (resolveParts · parts)
    | _ => none

def resolveField (payload : Value) (field : String) : Option Value :=
  resolveParts payload (splitChar '.' field.toList)

example : resolveField (.object [("trigger", .object [("tags", .array [.string "a", .int 3])])])
    "trigger.tags.1" = some (.int 3) := by decide

end Springtale.Core
