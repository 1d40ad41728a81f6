import BlockingCalls.Json.Value
import BlockingCalls.Path
import BlockingCalls.Table
import BlockingCalls.Tree.Language
import BlockingCalls.Tree.Node
import BlockingCalls.World.Errno

/-!
# The world outside

The environment of an analysis, as data: the file system, the HTTP client, the `deno` program, and the parser, which has
a grammar for each language and makes one syntax tree of a text with each of them.

The environment is a function of what it is asked for. It does not change while an analysis runs, and it does not depend
on who asks: the client that waits and the concurrent client are served from one table of pages. That the two clients get
the same answers is an assumption on the world, and every comparison of the two readers rests on it.
-/

namespace BlockingCalls

/-- The result of reading a file. -/
inductive FileEntry where
  | text (text : String)
  | bytes (bytes : List UInt8)
  | refused (errno : Errno)
  /-- Reading breaks down in a way that is no error of the operating system. -/
  | crash (message : String)
  deriving Repr

/-- The result of a request to the HTTP client. -/
inductive WebEntry where
  /-- A page, with the URL of the final response after redirects. -/
  | page (text : String) (location : Option String)
  | unreachable (message : String)
  | badStatus (message : String)
  /-- The URL is not one that can be fetched at all. -/
  | invalid (message : String)
  /-- The client cannot make a request of the value at all. -/
  | unusable (message : String)
  deriving Repr

/-- How the HTTP client refuses a value that is no text: it never answers one with a page. -/
inductive Refusal where
  | unreachable (message : String)
  | unusable (message : String)
  deriving Repr

def Refusal.entry : Refusal → WebEntry
  | .unreachable message => .unreachable message
  | .unusable message => .unusable message

/-- The result of running `deno info` on a specifier. -/
inductive DenoEntry where
  | finished (output errors : String) (code : Int)
  | refused (errno : Errno)
  deriving Repr

structure World where
  current : String := "/work"
  files : Table FileEntry := {}
  /-- The responses to URLs, for both clients. -/
  web : Table WebEntry := {}
  /-- The responses to values that are no texts, for both clients. -/
  refusal : Json.Value → Refusal := fun _ => .unreachable "404 Not Found"
  deno : Table DenoEntry := {}
  /-- The syntax trees that the grammar of a language makes of texts. -/
  trees : Tree.Language → Table Tree.Node := fun _ => {}

namespace World

/-- Paths that differ in empty segments and `.` only name one file. -/
def file (w : World) (path : String) : FileEntry :=
  (w.files.get? (Path.lookupForm path)).getD (.refused .notFound)

/-- Pages are found by texts only; any other value is refused. -/
def page (w : World) : Json.Value → WebEntry
  | .string (.whole url) => (w.web.get? url).getD (.unreachable "404 Not Found")
  | target => (w.refusal target).entry

def answer (w : World) (specifier : String) : DenoEntry :=
  (w.deno.get? specifier).getD (.refused .notFound)

/-- The tree of a text in a language; a text that has none parses to a program without statements. -/
def treeOf (w : World) (language : Tree.Language) (text : String) : Tree.Node :=
  ((w.trees language).get? text).getD { kind := "program", start := 0, stop := text.utf8ByteSize }

def putFile (w : World) (path : String) (entry : FileEntry) : World :=
  { w with files := w.files.put path entry }

end World

/-- Something asked of the world. -/
inductive Request where
  | file (path : String)
  | fetch (target : Json.Value)
  /-- A command of `deno`, and the text of the file it is run on. -/
  | deno (command : List String) (entry : String)
  deriving Repr

end BlockingCalls
