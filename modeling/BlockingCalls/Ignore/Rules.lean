import BlockingCalls.Ignore.Expression
import BlockingCalls.Text.Blank
import BlockingCalls.Text.Quoted
import BlockingCalls.Text.Segments

/-!
# Ignore rules

Rules are read from lines. A blank line, a comment and a lone slash say nothing; `!` turns a rule around; a slash at
the end asks for a directory; a slash elsewhere binds the rule to the root, and a rule without one holds in every
directory. The last rule that matches a path decides.
-/

namespace BlockingCalls.Ignore

open Text (splitOn)

/-- Why a line is refused. -/
inductive InvalidPattern where
  /-- The line is no pattern at all. -/
  | malformed (line : String)
  /-- A range between brackets runs backwards in the expression of the line. -/
  | backwardRange (expression : List Char) (range : BackwardRange)
  deriving Repr, BEq, DecidableEq

def InvalidPattern.message : InvalidPattern → String
  | .malformed line => "Invalid git pattern: " ++ Text.quoted line
  | .backwardRange expression range => range.message expression

inductive Matcher where
  /-- Every path with some character on a line. -/
  | everything
  /-- Every path inside some directory. -/
  | anyDirectory
  | glob (pieces : List Piece) (ending : Ending)
  deriving Repr, BEq, DecidableEq

structure Rule where
  ignores : Bool
  matcher : Matcher
  deriving Repr, BEq, DecidableEq

abbrev Rules := List Rule

/-! ## Segments -/

/-- Why a segment gives no pieces. -/
inductive SegmentFault where
  | danglingEscape
  | unclosedBracket
  deriving Repr, BEq, DecidableEq

/-- The mark that turns a bracket expression around. -/
def cutNegation : List Char → Bool × List Char
  | '!' :: rest => (true, rest)
  | '^' :: rest => (true, rest)
  | cs => (false, cs)

/-- A closing bracket at the front of a bracket expression, which belongs to it. -/
def cutFront : List Char → List Char × List Char
  | ']' :: rest => ([']'], rest)
  | cs => ([], cs)

/-- Is a bracket expression turned around, what does it hold, and what follows it? `none` where it does not close. -/
def cutBrackets (cs : List Char) : Option (Bool × List Char × List Char) :=
  let negation := cutNegation cs
  let front := cutFront negation.2
  match front.2.dropWhile (· != ']') with
  | [] => none
  | _ :: rest => some (negation.1, front.1 ++ front.2.takeWhile (· != ']'), rest)

theorem length_cutNegation (cs : List Char) : (cutNegation cs).2.length ≤ cs.length := by
  unfold cutNegation
  split <;> simp

theorem length_cutFront (cs : List Char) : (cutFront cs).2.length ≤ cs.length := by
  unfold cutFront
  split <;> simp

/-- A set of characters takes at least one character of the rule. -/
theorem length_cutBrackets {cs body rest : List Char} {negated : Bool}
    (h : cutBrackets cs = some (negated, body, rest)) : rest.length < cs.length := by
  have hnegation := length_cutNegation cs
  have hfront := length_cutFront (cutNegation cs).2
  have hdrop := (List.dropWhile_sublist (· != ']') (l := (cutFront (cutNegation cs).2).2)).length_le
  simp only [cutBrackets] at h
  split at h
  · cases h
  · next d rest' hd =>
    rw [hd, List.length_cons] at hdrop
    simp only [Option.some.injEq, Prod.mk.injEq] at h
    rw [← h.2.2]
    omega

/-- The pieces of one segment. -/
def segmentPieces : List Char → Except SegmentFault (List Piece)
  | [] => .ok []
  | '\\' :: [] => .error .danglingEscape
  | '\\' :: c :: rest => (segmentPieces rest).map (.char c :: ·)
  | '*' :: rest => (segmentPieces rest).map (.anyRun :: ·)
  | '?' :: rest => (segmentPieces rest).map (.anyChar :: ·)
  | '[' :: rest =>
    match _h : cutBrackets rest with
    | none => .error .unclosedBracket
    | some (negated, body, rest') => (segmentPieces rest').map (.oneOf negated body :: ·)
  | c :: rest => (segmentPieces rest).map (.char c :: ·)
termination_by cs => cs.length
decreasing_by
  all_goals simp_wf
  all_goals (try have := length_cutBrackets _h)
  all_goals omega

/-! ## Lines -/

def doubleStar : List Char :=
  ['*', '*']

/-- Neighbouring `**` count as one. -/
def collapseStars : List (List Char) → List (List Char)
  | [] => []
  | segment :: rest =>
    match collapseStars rest with
    | next :: others =>
      if segment = doubleStar ∧ next = doubleStar then next :: others else segment :: next :: others
    | [] => [segment]

/-- A pattern bound to the root loses its leading slash; one that holds everywhere starts with `**`. A slash at the end
becomes `**` below the directory. `none` where nothing is left. -/
def rootedSegments (segments : List (List Char)) : Option (List (List Char)) :=
  let rooted :=
    match segments with
    | [] :: rest => rest
    | [name] => if name = doubleStar then [name] else [doubleStar, name]
    | [name, []] => if name = doubleStar then [name, []] else [doubleStar, name, []]
    | segments => segments
  match rooted.getLast? with
  | none => none
  | some [] => some (collapseStars (rooted.dropLast ++ [doubleStar]))
  | some _ => some (collapseStars rooted)

/-- The pieces of the segments behind the first one, each with its slash, and the ending. -/
def laterPieces : List (List Char) → Bool → Except SegmentFault (List Piece × Ending)
  | [], _ => .ok ([], .here)
  | segment :: rest, needSlash =>
    if segment = doubleStar then
      if rest.isEmpty then .ok ([], .below)
      else (laterPieces rest true).map fun (pieces, ending) => (.innerDirectories :: pieces, ending)
    else do
      let own ← if segment = ['*'] then pure [.anySegment] else segmentPieces segment
      let (pieces, ending) ← laterPieces rest true
      return ((if needSlash then [.char '/'] else []) ++ own ++ pieces, ending)

/-- The matcher of a pattern in segments. -/
def matcherOf (segments : List (List Char)) (isDirectory : Bool) : Except SegmentFault Matcher :=
  if segments = [doubleStar] then .ok (if isDirectory then .anyDirectory else .everything)
  else if segments = [doubleStar, ['*']] then .ok .everything
  else if segments = [doubleStar, ['*'], doubleStar] then .ok .anyDirectory
  else
    match segments with
    | first :: rest =>
      if first = doubleStar then
        (laterPieces rest false).map fun (pieces, ending) => .glob (.leadingDirectories :: pieces) ending
      else (laterPieces segments false).map fun (pieces, ending) => .glob pieces ending
    | [] => .ok (.glob [] .here)

/-- A matcher all of whose ranges are in order. -/
def checkRanges : Matcher → Except InvalidPattern Matcher
  | .glob pieces ending =>
    match backwardRange pieces with
    | some range => .error (.backwardRange (writtenGlob pieces) range)
    | none => .ok (.glob pieces ending)
  | matcher => .ok matcher

/-- The rule of a line; `none` where the line says nothing. A bracket that does not close makes it say nothing. -/
def ruleOf (line : String) : Except InvalidPattern (Option Rule) :=
  let cs := line.toList
  let pattern := if [' ', '\\'].isPrefixOf cs.reverse then cs else Text.trimEnd Text.isBlank cs
  if pattern.isEmpty || pattern.head? == some '#' || pattern == ['/'] then .ok none
  else
    let (ignores, pattern) :=
      match pattern with
      | '!' :: rest => (false, rest)
      | pattern => (true, pattern)
    let segments := splitOn '/' pattern
    match rootedSegments segments with
    | none => .error (.malformed line)
    | some rooted =>
      match matcherOf rooted (segments.getLast? == some []) with
      | .ok matcher => (checkRanges matcher).map fun matcher => some { ignores, matcher }
      | .error .danglingEscape => .error (.malformed line)
      | .error .unclosedBracket => .ok none

/-- The rules of some lines. -/
def rulesOf (lines : List String) : Except InvalidPattern Rules :=
  (lines.mapM ruleOf).map fun rules => rules.filterMap id

/-! ## Matching -/

def Matcher.accepts : Matcher → List Char → Bool
  | .everything, path => path.any (· != '\n')
  | .anyDirectory, path => path.contains '/'
  | .glob pieces ending, path => matchesFrom pieces ending path

/-- A leading slash, or else a leading `./`, does not count. -/
def relativePath : List Char → List Char
  | '/' :: rest => rest
  | '.' :: '/' :: rest => rest
  | path => path

/-- Is a path ignored? The last rule that matches decides; where none does, it is not. -/
def Rules.ignore (rules : Rules) (path : String) : Bool :=
  let path := relativePath path.toList
  ((rules.reverse.find? (·.matcher.accepts path)).map (·.ignores)).getD false

end BlockingCalls.Ignore
