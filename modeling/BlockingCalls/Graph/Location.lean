import BlockingCalls.Table
import BlockingCalls.Text.Bytes
import BlockingCalls.Tree.Item

/-!
# Places in source files

A location is a module, a line and a column. Lines and columns of a text are counted from one. The location table says
where a function is declared; of several declarations of one name the last one recorded counts.
-/

namespace BlockingCalls

/-- A local path or the URL of a remote module. -/
abbrev ModuleId := String

structure Location where
  file : ModuleId
  line : Int
  column : Int
  deriving Repr, BEq, DecidableEq

namespace Location

def render (l : Location) : String :=
  l.file ++ ":" ++ toString l.line ++ ":" ++ toString l.column

/-- The location of a byte offset in the text of a module. -/
def ofOffset (file : ModuleId) (text : String) (offset : Nat) : Location :=
  let position := Text.positionAt text offset
  { file, line := position.row + 1, column := position.column + 1 }

end Location

/-- Where each function is declared. -/
abbrev Locations := Table Location

end BlockingCalls
