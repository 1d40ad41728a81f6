import BlockingCalls.Decimal.Shortest
import BlockingCalls.Json.Characters

/-!
# JSON values

Values as they are read from text. Integers and decimals are distinguished: an integer is exact, a decimal is the nearest
binary number. The members of an object have different names, in the order in which the names came first.
-/

namespace BlockingCalls.Json

inductive Value where
  | null
  | bool (b : Bool)
  | integer (n : Int)
  | decimal (number : Decimal.Binary64)
  | string (characters : Characters)
  | array (items : List Value)
  | object (members : List (Characters × Value))
  deriving Repr, Inhabited

namespace Value

def ofText (text : String) : Value :=
  .string (.whole text)

/-- The name by which messages call the sort of a value. -/
def typeName : Value → String
  | .null => "NoneType"
  | .bool _ => "bool"
  | .integer _ => "int"
  | .decimal _ => "float"
  | .string _ => "str"
  | .array _ => "list"
  | .object _ => "dict"

/-- Null, false, zero and everything empty count as nothing. -/
def isEmpty : Value → Bool
  | .null => true
  | .bool b => !b
  | .integer n => n == 0
  | .decimal number => number.isZero
  | .string characters => characters.isEmpty
  | .array items => items.isEmpty
  | .object members => members.isEmpty

/-- Does a value hold other values? -/
def isCompound : Value → Bool
  | .array _ => true
  | .object _ => true
  | _ => false

/-! ## Members -/

/-- Sets the value of a name. A name that is there already keeps its place. -/
def putMember (name : Characters) (value : Value) : List (Characters × Value) → List (Characters × Value)
  | [] => [(name, value)]
  | member :: rest =>
    if member.1 = name then (name, value) :: rest else member :: putMember name value rest

/-- An object with the given members; of several members of one name the last one counts. -/
def ofMembers (members : List (Characters × Value)) : Value :=
  .object (members.foldl (fun taken member => putMember member.1 member.2 taken) [])

/-- The value under a name. -/
def lookup (name : String) (members : List (Characters × Value)) : Option Value :=
  (members.find? (·.1 == .whole name)).map (·.2)

/-! ## Texts -/

mutual

/-- A value as it is shown inside another one: texts are quoted. -/
def shown : Value → String
  | .null => "None"
  | .bool true => "True"
  | .bool false => "False"
  | .integer n => toString n
  | .decimal number => number.text
  | .string characters => characters.quoted
  | .array items => "[" ++ String.intercalate ", " (shownItems items) ++ "]"
  | .object members => "\x7b" ++ String.intercalate ", " (shownMembers members) ++ "\x7d"

def shownItems : List Value → List String
  | [] => []
  | item :: rest => item.shown :: shownItems rest

def shownMembers : List (Characters × Value) → List String
  | [] => []
  | (name, value) :: rest => (name.quoted ++ ": " ++ value.shown) :: shownMembers rest

end

/-- The text that stands for a value in messages. -/
def text : Value → String
  | .string characters => characters.text
  | value => value.shown

end Value

end BlockingCalls.Json
