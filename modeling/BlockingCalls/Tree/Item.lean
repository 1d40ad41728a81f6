import BlockingCalls.Text.Bytes
import BlockingCalls.Tree.Node

/-!
# What a node means

The analysis looks at named functions, anonymous functions, calls, imports and exports; every other node is only
walked through. `classify` decides once what a node means.
-/

namespace BlockingCalls

/-- The bare name of a function. Names are global: the analysis does not distinguish two functions of one name. -/
abbrev Name := String

namespace Tree

/-- What is called: `name(...)` or `object.name(...)`. The object is known where it is an identifier. -/
structure Callee where
  name : Name
  object : Option String := none
  isMember : Bool := false
  deriving Repr, BEq, DecidableEq

/-- A name brought in by an import: its name here and its name in the module it comes from. -/
structure Binding where
  localName : Name
  imported : Name
  deriving Repr, BEq, DecidableEq

/-- A name given out by an export: its name outside and its name here. -/
structure ExportSpecifier where
  exported : Name
  localName : Name
  deriving Repr, BEq, DecidableEq

/-- The meaning of a node. The body of a function is the node whose children belong to the function. -/
inductive Item where
  | function (name : Name) (isAsync : Bool) (body : Node)
  | anonymousFunction
  | call (callee : Option Callee)
  | importing (source : String) (bindings : List Binding)
  | exporting (source : Option String) (specifiers : List ExportSpecifier)
  | other
  deriving Repr

/-! ## Kinds of nodes -/

def functionDeclarations : List String :=
  ["function_declaration", "generator_function_declaration", "method_definition"]

def functionExpressions : List String :=
  ["arrow_function", "function_expression", "function", "generator_function"]

/-- Bindings whose value may be a function, each with the field that holds its name. -/
def valueBindings : List (String × String) :=
  [("variable_declarator", "name"), ("public_field_definition", "name"), ("field_definition", "property")]

def bindingNames : List String :=
  ["identifier", "property_identifier", "private_property_identifier"]

def memberNames : List String :=
  ["property_identifier", "private_property_identifier"]

/-! ## Text of nodes -/

def Node.text (source : String) (n : Node) : String :=
  Text.slice source n.start n.stop

def isQuote (c : Char) : Bool :=
  c == '"' || c == '\'' || c == '\x60'

/-- The text of a node without quotation marks at either end. -/
def Node.unquoted (source : String) (n : Node) : String :=
  String.ofList ((((n.text source).toList.dropWhile isQuote).reverse.dropWhile isQuote).reverse)

def Node.isAsync (n : Node) : Bool :=
  n.children.any (·.kind == "async")

/-! ## Calls, imports, exports -/

/-- What the function part of a call names, where the text determines it. -/
def calleeOf (source : String) (function : Node) : Option Callee :=
  if function.kind == "identifier" then
    some { name := function.text source }
  else if function.kind == "member_expression" then
    match function.child? "property" with
    | none => none
    | some property =>
      if memberNames.contains property.kind then
        let object := (function.child? "object").filter (·.kind == "identifier")
        some { name := property.text source, object := object.map (·.text source), isMember := true }
      else none
  else none

def bindingOf (source : String) (specifier : Node) : Option Binding :=
  match specifier.child? "name" with
  | none => none
  | some name =>
    let imported := name.unquoted source
    some { localName := ((specifier.child? "alias").map (·.text source)).getD imported, imported }

/-- The names an import brings in. An import of a whole module as one object brings in none. -/
def importBindings (source : String) (n : Node) : List Binding :=
  (n.children.filter (·.kind == "import_clause")).flatMap fun clause =>
    clause.children.flatMap fun child =>
      if child.kind == "identifier" then
        [{ localName := child.text source, imported := "default" }]
      else if child.kind == "named_imports" then
        (child.children.filter (·.kind == "import_specifier")).filterMap (bindingOf source)
      else []

/-- The names that a declaration introduces. -/
def declaredNames (source : String) (declaration : Node) : List Name :=
  match declaration.child? "name" with
  | some name => [name.text source]
  | none =>
    if declaration.kind == "lexical_declaration" || declaration.kind == "variable_declaration" then
      (declaration.children.filter (·.kind == "variable_declarator")).filterMap fun declarator =>
        ((declarator.child? "name").filter (·.kind == "identifier")).map (·.text source)
    else []

/-- The name that `export default` gives to a value: of an identifier or of a named function expression. -/
def defaultNames (source : String) (value : Node) : List Name :=
  if value.kind == "identifier" then [value.text source]
  else if functionExpressions.contains value.kind then
    ((value.child? "name").map (·.text source)).toList
  else []

def exportSpecifierOf (source : String) (specifier : Node) : Option ExportSpecifier :=
  match specifier.child? "name" with
  | none => none
  | some name =>
    let localName := name.unquoted source
    some { exported := ((specifier.child? "alias").map (·.unquoted source)).getD localName, localName }

/-- The names given out by the declaration or the value of an export. -/
def exportedDeclaration (source : String) (n : Node) : List ExportSpecifier :=
  let isDefault := n.children.any (·.kind == "default")
  match n.child? "declaration" with
  | some declaration =>
    (declaredNames source declaration).map fun name =>
      { exported := if isDefault then "default" else name, localName := name }
  | none =>
    if isDefault then
      ((n.child? "value").toList.flatMap (defaultNames source)).map fun name =>
        { exported := "default", localName := name }
    else []

def exportedClauses (source : String) (n : Node) : List ExportSpecifier :=
  (n.children.filter (·.kind == "export_clause")).flatMap fun clause =>
    (clause.children.filter (·.kind == "export_specifier")).filterMap (exportSpecifierOf source)

/-! ## Classification -/

/-- A function that carries its own name, if it has one; `readName` reads the text of the name. -/
def classifyFunction (n : Node) (readName : Node → Name) : Item :=
  match n.child? "name" with
  | some name => .function (readName name) n.isAsync n
  | none => .anonymousFunction

/-- A binding is a function where its value is one; the name is that of the binding, whatever the value is called. -/
def classifyBinding (source : String) (n : Node) (nameField : String) : Item :=
  match n.child? nameField, n.child? "value" with
  | some name, some value =>
    if functionExpressions.contains value.kind && bindingNames.contains name.kind then
      .function (name.text source) value.isAsync value
    else .other
  | _, _ => .other

/-- The meaning of a node in its source text. -/
def classify (source : String) (n : Node) : Item :=
  if functionDeclarations.contains n.kind then
    classifyFunction n (·.unquoted source)
  else
    match valueBindings.lookup n.kind with
    | some nameField => classifyBinding source n nameField
    | none =>
      if functionExpressions.contains n.kind then
        classifyFunction n (·.text source)
      else if n.kind == "call_expression" then
        .call ((n.child? "function").bind (calleeOf source))
      else if n.kind == "import_statement" then
        match n.child? "source" with
        | some from_ => .importing (from_.unquoted source) (importBindings source n)
        | none => .other
      else if n.kind == "export_statement" then
        .exporting ((n.child? "source").map (·.unquoted source))
          (exportedDeclaration source n ++ exportedClauses source n)
      else .other

/-! ## Where a function continues -/

/-- The body of a declared function is the node itself. -/
theorem classifyFunction_body {n : Node} {readName : Node → Name} {name : Name} {isAsync : Bool} {body : Node}
    (h : classifyFunction n readName = .function name isAsync body) : body = n := by
  unfold classifyFunction at h
  split at h
  · cases h
    rfl
  · cases h

/-- The body of a function that is bound to a name is a child of the binding. -/
theorem classifyBinding_body {source : String} {n : Node} {field : String} {name : Name} {isAsync : Bool}
    {body : Node} (h : classifyBinding source n field = .function name isAsync body) : body ∈ n.children := by
  unfold classifyBinding at h
  split at h
  · rename_i value _ hvalue
    split at h
    · cases h
      exact Node.child?_mem hvalue
    · cases h
  · cases h

/-- The body of a named function is the node itself or one of its children. -/
theorem classify_body {source : String} {n : Node} {name : Name} {isAsync : Bool} {body : Node}
    (h : classify source n = .function name isAsync body) : body = n ∨ body ∈ n.children := by
  unfold classify at h
  split at h
  · exact .inl (classifyFunction_body h)
  · split at h
    · exact .inr (classifyBinding_body h)
    · split at h
      · exact .inl (classifyFunction_body h)
      · split at h
        · cases h
        · split at h
          · split at h <;> cases h
          · split at h <;> cases h

end Tree

end BlockingCalls
