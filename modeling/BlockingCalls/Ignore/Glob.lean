/-!
# Globs

A glob is a list of pieces, and each piece says which rests of a text it can leave. A glob matches where some choice
of rests reaches its ending. The dots of directory wildcards do not cross a line end; bracket expressions may match
a slash.
-/

namespace BlockingCalls.Ignore

inductive Piece where
  | char (c : Char)
  /-- One character other than a slash. -/
  | anyChar
  /-- Any number of characters other than slashes. -/
  | anyRun
  /-- A whole segment that is not empty. -/
  | anySegment
  /-- One character of those between brackets, or of all others. -/
  | oneOf (negated : Bool) (body : List Char)
  /-- Any directories at the front, each with its slash. -/
  | leadingDirectories
  /-- Any directories between two segments. -/
  | innerDirectories
  deriving Repr, BEq, DecidableEq

/-- What may follow the pieces of a glob. -/
inductive Ending where
  /-- The path continues below what the glob names. -/
  | below
  /-- The path ends with what the glob names or continues below it. -/
  | here
  deriving Repr, BEq, DecidableEq

/-- The rests after any number of characters other than slashes. -/
def runRests : List Char → List (List Char)
  | [] => [[]]
  | c :: rest => if c = '/' then [c :: rest] else (c :: rest) :: runRests rest

/-- The rests behind some slash on the same line. -/
def rootedRests : List Char → List (List Char)
  | [] => []
  | c :: rest =>
    if c = '\n' then []
    else if c = '/' then rest :: rootedRests rest
    else rootedRests rest

/-- The rests after any number of characters on the same line. -/
def lineRests : List Char → List (List Char)
  | [] => [[]]
  | c :: rest => if c = '\n' then [c :: rest] else (c :: rest) :: lineRests rest

/-- The ranges between brackets; a hyphen at either end is a character. -/
def rangesOf : List Char → List (Char × Char)
  | [] => []
  | a :: '-' :: b :: rest => (a, b) :: rangesOf rest
  | a :: rest => (a, a) :: rangesOf rest

def inRanges (ranges : List (Char × Char)) (c : Char) : Bool :=
  ranges.any fun range => decide (range.1 ≤ c ∧ c ≤ range.2)

/-- The rests that a piece can leave of a text. -/
def Piece.rests : Piece → List Char → List (List Char)
  | .char c, d :: rest => if d = c then [rest] else []
  | .anyChar, d :: rest => if d = '/' then [] else [rest]
  | .anyRun, cs => runRests cs
  | .anySegment, d :: rest => if d = '/' then [] else runRests rest
  | .oneOf negated body, d :: rest => if inRanges (rangesOf body) d != negated then [rest] else []
  | .leadingDirectories, d :: rest => (d :: rest) :: (if d = '\n' then [] else rootedRests rest)
  | .leadingDirectories, [] => [[]]
  | .innerDirectories, '/' :: d :: rest => ('/' :: d :: rest) :: (if d = '\n' then [] else lineRests rest)
  | .innerDirectories, cs => [cs]
  | _, [] => []

/-- An ending is reached at the end of the text, before a last line end, or at a slash. -/
def Ending.accepts : Ending → List Char → Bool
  | .below, rest => rest.head? == some '/'
  | .here, rest => rest.isEmpty || rest == ['\n'] || rest.head? == some '/'

/-- Does a path match the pieces and the ending from its start? -/
def matchesFrom : List Piece → Ending → List Char → Bool
  | [], ending, path => ending.accepts path
  | piece :: pieces, ending, path => (piece.rests path).any (matchesFrom pieces ending)

end BlockingCalls.Ignore
