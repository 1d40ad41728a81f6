import BlockingCalls.Text.Segments
import BlockingCalls.Url.Address

/-!
# URLs and references

Taking a URL apart, putting it together, and resolving a reference against a base URL. Resolution drops empty inner
segments, ignores `..` at the root, and applies to schemes with a hierarchy only: against any other base the
reference stands for itself.
-/

namespace BlockingCalls.Url

open Text (splitOn joinWith)

/-- A URL in parts, without the marks between them. -/
structure Parts where
  scheme : List Char := []
  authority : List Char := []
  path : List Char := []
  params : List Char := []
  query : List Char := []
  fragment : List Char := []
  deriving Repr, BEq, DecidableEq

/-- Schemes whose URLs have an authority and a path of segments. No scheme at all is one of them. -/
def hierarchicalSchemes : List String :=
  ["", "ftp", "http", "gopher", "nntp", "imap", "wais", "file", "https", "shttp", "mms", "prospero", "rtsp", "rtspu",
   "sftp", "svn", "svn+ssh", "ws", "wss"]

/-- Schemes that divide parameters from the last segment by a semicolon. -/
def parameterSchemes : List String :=
  ["", "ftp", "hdl", "prospero", "http", "imap", "https", "shttp", "rtsp", "rtspu", "sip", "sips", "mms", "sftp",
   "tel"]

/-- Schemes that are written with `//` even where the authority is empty. -/
def authoritySchemes : List String :=
  ["ftp", "http", "gopher", "nntp", "telnet", "imap", "wais", "file", "mms", "https", "shttp", "snews", "prospero",
   "rtsp", "rtspu", "rsync", "svn", "svn+ssh", "sftp", "nfs", "git", "git+ssh", "ws", "wss"]

def hasScheme (schemes : List String) (scheme : List Char) : Bool :=
  schemes.contains (String.ofList scheme)

/-! ## Taking apart -/

/-- Control characters and blanks at the front do not count, nor do tabs and line ends anywhere. -/
def readable (cs : List Char) : List Char :=
  (cs.dropWhile fun c => decide (c.toNat ≤ 0x20)).filter fun c => c != '\t' && c != '\r' && c != '\n'

def isSchemeChar (c : Char) : Bool :=
  c.isAlphanum || c == '+' || c == '-' || c == '.'

/-- The scheme, in lower case, and what follows its colon; the given scheme where the text has none. -/
def cutScheme (default cs : List Char) : List Char × List Char :=
  match Text.cutFirst ':' cs with
  | (scheme, some rest) =>
    if scheme.head?.any Char.isAlpha && scheme.all isSchemeChar then (scheme.map Char.toLower, rest) else (default, cs)
  | (_, none) => (default, cs)

def endsAuthority (c : Char) : Bool :=
  c == '/' || c == '?' || c == '#'

/-- The authority behind `//`, and the rest. -/
def cutAuthority : List Char → List Char × List Char
  | '/' :: '/' :: rest => (rest.takeWhile (!endsAuthority ·), rest.dropWhile (!endsAuthority ·))
  | cs => ([], cs)

/-- Characters whose compatibility form holds one of `/ ? # @ :`, which would move the end of the authority. -/
def disguisedMarks : List Nat :=
  [0x2047, 0x2048, 0x2049, 0x2100, 0x2101, 0x2105, 0x2106, 0x2A74, 0xFE13, 0xFE16, 0xFE55, 0xFE56, 0xFE5F, 0xFE6B,
   0xFF03, 0xFF0F, 0xFF1A, 0xFF1F, 0xFF20]

def checkAuthority (authority : List Char) : Except Fault Unit := do
  if authority.contains '[' != authority.contains ']' then
    throw .misplacedBrackets
  if authority.contains '[' then
    checkBracketed authority
  if authority.any fun c => disguisedMarks.contains c.toNat then
    throw (.unsafeAuthority (String.ofList authority))

/-- Parameters stand behind the first semicolon of the last segment. -/
def cutParams (path : List Char) : List Char × List Char :=
  let (name, params) := Text.cutFirst ';' (Text.afterLast '/' path)
  (Text.throughLast '/' path ++ name, params.getD [])

/-- A reference in parts; it has the given scheme where it has none of its own. -/
def parseReference (default reference : List Char) : Except Fault Parts := do
  let (scheme, rest) := cutScheme default (readable reference)
  let (authority, rest) := cutAuthority rest
  checkAuthority authority
  let (rest, fragment) := Text.cutFirst '#' rest
  let (path, query) := Text.cutFirst '?' rest
  let (path, params) := if hasScheme parameterSchemes scheme then cutParams path else (path, [])
  return { scheme, authority, path, params, query := query.getD [], fragment := fragment.getD [] }

/-- A URL in parts. -/
def parse (url : List Char) : Except Fault Parts :=
  parseReference [] url

/-! ## Putting together -/

/-- A part with the mark before it; nothing where the part is empty. -/
def marked (mark : Char) (part : List Char) : List Char :=
  if part.isEmpty then [] else mark :: part

/-- The authority and the path, with the slashes that divide them. -/
def renderLocation (p : Parts) : List Char :=
  let path := p.path ++ marked ';' p.params
  if !p.authority.isEmpty || (hasScheme authoritySchemes p.scheme && !(['/', '/'].isPrefixOf path)) then
    let path := if path.isEmpty || path.head? == some '/' then path else '/' :: path
    '/' :: '/' :: p.authority ++ path
  else path

def render (p : Parts) : List Char :=
  (if p.scheme.isEmpty then [] else p.scheme ++ [':']) ++ renderLocation p ++ marked '?' p.query ++
    marked '#' p.fragment

/-! ## Resolving references -/

/-- Drops empty segments that are neither first nor last. -/
def dropEmptyInner : List (List Char) → List (List Char)
  | [] => []
  | [segment] => [segment]
  | first :: rest => first :: (rest.dropLast.filter (!·.isEmpty) ++ rest.getLast?.toList)

/-- Takes one more segment; `.` vanishes and `..` takes the last one back. The segments stand in reverse. -/
def resolveSegment (taken : List (List Char)) (segment : List Char) : List (List Char) :=
  if segment = ['.', '.'] then taken.tail
  else if segment = ['.'] then taken
  else segment :: taken

/-- The segments of a path as seen from the path of a base. -/
def segmentsFrom (base path : List Char) : List (List Char) :=
  if path.head? == some '/' then splitOn '/' path
  else
    let folders := splitOn '/' base
    let folders := if folders.getLast? == some [] then folders else folders.dropLast
    dropEmptyInner (folders ++ splitOn '/' path)

def joinPath (base path : List Char) : List Char :=
  let segments := segmentsFrom base path
  let resolved := (segments.foldl resolveSegment []).reverse
  let resolved :=
    if segments.getLast? == some ['.'] || segments.getLast? == some ['.', '.'] then resolved ++ [[]] else resolved
  match joinWith '/' resolved with
  | [] => ['/']
  | cs => cs

/-- A reference resolved against the parts of its base, where both have one hierarchical scheme. -/
def joinParts (base reference : Parts) : Parts :=
  if !reference.authority.isEmpty then reference
  else if reference.path.isEmpty && reference.params.isEmpty then
    { reference with
      authority := base.authority, path := base.path, params := base.params
      query := if reference.query.isEmpty then base.query else reference.query }
  else { reference with authority := base.authority, path := joinPath base.path reference.path }

/-- The URL that a reference stands for at a base. -/
def join (base reference : String) : Except Fault String := do
  if base.isEmpty then return reference
  if reference.isEmpty then return base
  let b ← parse base.toList
  let r ← parseReference b.scheme reference.toList
  if r.scheme != b.scheme || !hasScheme hierarchicalSchemes r.scheme then return reference
  return String.ofList (render (joinParts b r))

end BlockingCalls.Url
