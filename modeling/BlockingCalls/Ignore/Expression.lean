import BlockingCalls.Ignore.Glob
import BlockingCalls.Text.Place

/-!
# Globs as regular expressions

A glob can be written as a regular expression. A range between brackets whose ends are in the wrong order is reported by
its place there.
-/

namespace BlockingCalls.Ignore

/-! ## The written form -/

/-- Characters that are marks of regular expressions. -/
def expressionMarks : List Char :=
  ['(', ')', '[', ']', '\x7b', '\x7d', '?', '*', '+', '-', '|', '^', '$', '\\', '.', '&', '~', '#', ' ', '\t', '\n',
   '\r', '\x0b', '\x0c']

/-- A character that stands for itself. -/
def writtenChar (c : Char) : List Char :=
  if expressionMarks.contains c then ['\\', c] else [c]

/-- A character between brackets. -/
def writtenMember (c : Char) : List Char :=
  if c = '\\' then ['\\', '\\'] else [c]

def Piece.written : Piece → List Char
  | .char c => writtenChar c
  | .anyChar => ['[', '^', '/', ']']
  | .anyRun => ['[', '^', '/', ']', '*']
  | .anySegment => ['[', '^', '/', ']', '+']
  | .oneOf negated body => '[' :: (if negated then ['^'] else []) ++ body.flatMap writtenMember ++ [']']
  | .leadingDirectories => ['(', '?', ':', '.', '+', '/', ')', '?']
  | .innerDirectories => ['(', '?', ':', '/', '.', '+', ')', '?']

/-- The expression of a glob; what it ends with is left out. -/
def writtenGlob (pieces : List Piece) : List Char :=
  '^' :: pieces.flatMap (·.written)

/-! ## Ranges that run backwards -/

/-- A range whose first character comes after its last one, and how many characters stand before it. -/
structure BackwardRange where
  position : Nat
  first : Char
  last : Char
  deriving Repr, BEq, DecidableEq

/-- The first such range of a bracket expression whose members start at a position. -/
def backwardIn (position : Nat) : List Char → Option BackwardRange
  | [] => none
  | a :: '-' :: b :: rest =>
    if b < a then some ⟨position, a, b⟩
    else backwardIn (position + (writtenMember a).length + 1 + (writtenMember b).length) rest
  | a :: rest => backwardIn (position + (writtenMember a).length) rest

def Piece.backward (position : Nat) : Piece → Option BackwardRange
  | .oneOf negated body => backwardIn (position + (if negated then 2 else 1)) body
  | _ => none

/-- The first such range of some pieces that start at a position. -/
def backwardFrom (position : Nat) : List Piece → Option BackwardRange
  | [] => none
  | piece :: rest => piece.backward position <|> backwardFrom (position + piece.written.length) rest

/-- The first such range of a glob. -/
def backwardRange (pieces : List Piece) : Option BackwardRange :=
  backwardFrom 1 pieces

/-! ## Messages -/

/-- Where a range stands. The line is given only where there are several. -/
def placeText (expression : List Char) (position : Nat) : String :=
  let place := Text.Place.at expression position
  " at position " ++ toString position ++
    (if expression.contains '\n' then
      " (line " ++ toString place.line ++ ", column " ++ toString place.column ++ ")"
    else "")

def BackwardRange.message (expression : List Char) (r : BackwardRange) : String :=
  "bad character range " ++ String.ofList (writtenMember r.first ++ '-' :: writtenMember r.last) ++
    placeText expression r.position

end BlockingCalls.Ignore
