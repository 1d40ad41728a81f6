import BlockingCalls.Text.Utf8
import BlockingCalls.World.Basic

/-!
# Descriptions of worlds

A world is described by a JSON object with the members `cwd`, `files`, `http` and `deno`, each of which may be
missing. A text comes with its tree, which is that of every text that reads the same, in every language. A tree is an array
of rows in document order: depth, kind, first and last byte offset, then the field and the marks (`e` for an error, `m` for
a missing token), if there are any. What is not understood gives no world.

The client of a described world looks a page up by its key: a value that holds other values cannot be a key, and no other
value than a text is one.
-/

namespace BlockingCalls

open Json (Value)

namespace Json.Value

/-- A value, unless it is null. -/
def present? : Value → Option Value
  | .null => none
  | value => some value

/-- A member of an object; null counts as missing. -/
def member? (value : Value) (name : String) : Option Value :=
  match value with
  | .object members => (lookup name members).bind present?
  | _ => none

def string? : Value → Option String
  | .string (.whole text) => some text
  | _ => none

def integer? : Value → Option Int
  | .integer n => some n
  | _ => none

def natural? : Value → Option Nat
  | .integer (.ofNat n) => some n
  | _ => none

def items? : Value → Option (List Value)
  | .array items => some items
  | _ => none

/-- Reads a member, or takes a value where it is missing. -/
def memberOr {α : Type} (value : Value) (name : String) (missing : α) (read : Value → Option α) : Option α :=
  match value.member? name with
  | none => some missing
  | some value => read value

/-- The members of an object, which is empty where it is missing. -/
def membersOf (value : Value) (name : String) : Option (List (String × Value)) :=
  value.memberOr name [] fun
    | .object members => some (members.map fun m => (m.1.text, m.2))
    | _ => none

/-- Reads all members of an object. -/
def tableOf {α : Type} (value : Value) (name : String) (read : Value → Option α) : Option (Table α) := do
  Table.ofList <$> (← value.membersOf name).mapM fun m => (m.1, ·) <$> read m.2

end Json.Value

/-! ## Trees and texts -/

def Tree.Node.Row.ofJson? (value : Value) : Option Tree.Node.Row := do
  match ← value.items? with
  | depth :: kind :: start :: stop :: more =>
    let marks := ((more[1]?.bind (·.string?)).getD "").toList
    return {
      depth := ← depth.natural?, kind := ← kind.string?, start := ← start.natural?, stop := ← stop.natural?
      field := more.head?.bind (·.string?)
      hasError := marks.contains 'e', isMissing := marks.contains 'm' }
  | _ => none

def Tree.Node.ofJson? (value : Value) : Option Tree.Node := do
  ofRows? (← (← value.items?).mapM Row.ofJson?)

def textOf? (value : Value) : Option String :=
  value.memberOr "text" "" (·.string?)

/-- A text with its tree, if it comes with one. -/
def parsedText? (value : Value) : Option (Option (String × Tree.Node)) := do
  let text ← textOf? value
  value.memberOr "tree" none fun tree => (fun tree => some (text, tree)) <$> Tree.Node.ofJson? tree

/-- The tree of a file belongs to the text as it is read, with line feeds for all line ends. -/
def parsedFile? (value : Value) : Option (Option (String × Tree.Node)) := do
  return (← parsedText? value).map fun (text, tree) => (String.ofList (Text.readNewlines text.toList), tree)

/-! ## Entries -/

def hexValue (c : Char) : Nat :=
  if c.isDigit then c.toNat - 48 else c.toLower.toNat - 87

/-- The bytes that pairs of hexadecimal digits stand for. -/
def bytesOfHex : List Char → List UInt8
  | high :: low :: rest => UInt8.ofNat (hexValue high * 16 + hexValue low) :: bytesOfHex rest
  | _ => []

def Errno.ofJson? (value : Value) : Option Errno := do
  Errno.ofName? (← value.string?)

def FileEntry.ofJson? (value : Value) : Option FileEntry :=
  if let some message := value.member? "crash" then .crash <$> message.string?
  else if let some name := value.member? "errno" then .refused <$> Errno.ofJson? name
  else if let some hex := value.member? "hex" then hex.string?.map fun hex => .bytes (bytesOfHex hex.toList)
  else .text <$> textOf? value

def WebEntry.ofJson? (value : Value) : Option WebEntry :=
  if let some message := value.member? "crash" then .invalid <$> message.string?
  else if let some message := value.member? "error" then .unreachable <$> message.string?
  else if let some message := value.member? "status_error" then .badStatus <$> message.string?
  else do return .page (← textOf? value) (← value.memberOr "url" none fun url => some <$> url.string?)

def DenoEntry.ofJson? (value : Value) : Option DenoEntry :=
  if let some name := value.member? "errno" then .refused <$> Errno.ofJson? name
  else do
    return .finished (← value.memberOr "stdout" "" (·.string?)) (← value.memberOr "stderr" "" (·.string?))
      (← value.memberOr "code" 0 (·.integer?))

/-! ## Worlds -/

/-- How a table of pages answers a value that is no text. -/
def Refusal.ofKey (target : Value) : Refusal :=
  if target.isCompound then .unusable ("unhashable type: '" ++ target.typeName ++ "'")
  else .unreachable "404 Not Found"

def World.ofJson? (value : Value) : Option World := do
  let fileTrees ← (← value.membersOf "files").mapM fun m => parsedFile? m.2
  let pageTrees ← (← value.membersOf "http").mapM fun m => parsedText? m.2
  return {
    current := ← value.memberOr "cwd" "/work" (·.string?)
    files := ← value.tableOf "files" FileEntry.ofJson?
    web := ← value.tableOf "http" WebEntry.ofJson?
    refusal := Refusal.ofKey
    deno := ← value.tableOf "deno" DenoEntry.ofJson?
    trees := fun _ => .ofList ((fileTrees ++ pageTrees).filterMap id) }

/-- The world with a file in it that is described by its entry. -/
def World.putDescribed? (w : World) (path : String) (value : Value) : Option World := do
  let entry ← FileEntry.ofJson? value
  let tree ← parsedFile? value
  return { w.putFile path entry with trees := fun language => (w.trees language).putAll tree.toList }

end BlockingCalls
