import BlockingCalls.Text.Segments

/-!
# Paths

Lexical operations on slash-separated paths: nothing here looks at a file system. A path is rooted by its leading
slashes; exactly two of them are kept apart from one, and three or more count as one.
-/

namespace BlockingCalls.Path

open Text (splitOn joinWith)

/-- How many slashes a path keeps at its front. -/
def rootSlashes : List Char → Nat
  | '/' :: '/' :: '/' :: _ => 1
  | '/' :: '/' :: _ => 2
  | '/' :: _ => 1
  | _ => 0

def isAbsolute (path : String) : Bool :=
  path.toList.head? == some '/'

/-- Takes one more segment: empty ones and `.` vanish, `..` takes the last one back. What `..` cannot take back is
kept in a path without root and dropped below a root. The segments taken so far stand in reverse. -/
def takeSegment (rooted : Bool) (taken : List (List Char)) (segment : List Char) : List (List Char) :=
  if segment = [] ∨ segment = ['.'] then taken
  else if segment = ['.', '.'] then
    match taken with
    | [] => if rooted then [] else [segment]
    | last :: before => if last = ['.', '.'] then segment :: taken else before
  else segment :: taken

/-- Root slashes and segments put together; the empty path is written `.`. -/
def assemble (slashes : Nat) (segments : List (List Char)) : String :=
  match List.replicate slashes '/' ++ joinWith '/' segments with
  | [] => "."
  | cs => String.ofList cs

/-- The normal form: no empty segment, no `.`, and `..` only at the front of a path without root. -/
def normalize (path : String) : String :=
  let cs := path.toList
  let slashes := rootSlashes cs
  assemble slashes (((splitOn '/' cs).foldl (takeSegment (slashes != 0)) []).reverse)

/-- The form under which a file is looked up: no empty segment and no `.`, while `..` stays. -/
def lookupForm (path : String) : String :=
  let cs := path.toList
  assemble (rootSlashes cs) ((splitOn '/' cs).filter fun segment => segment != [] && segment != ['.'])

/-- A path below another one, unless it is absolute itself. -/
def join (base path : String) : String :=
  if isAbsolute path then path
  else if base.isEmpty || base.toList.getLast? == some '/' then base ++ path
  else base ++ "/" ++ path

/-- What precedes the last segment, without the slashes between them. -/
def directory (path : String) : String :=
  let head := Text.throughLast '/' path.toList
  if head.all (· == '/') then String.ofList head
  else String.ofList ((head.reverse.dropWhile (· == '/')).reverse)

/-- The normal form of a path seen from a current directory. -/
def absolute (current path : String) : String :=
  normalize (if isAbsolute path then path else join current path)

/-- The last dot of the last segment and what follows it; dots at the front of the segment do not count. -/
def extension (path : List Char) : List Char :=
  let name := Text.afterLast '/' path
  if (name.dropWhile (· == '.')).contains '.' then '.' :: Text.afterLast '.' name else []

end BlockingCalls.Path
