/-!
# Places in text

A place is given by the characters before it, and by its line and column, both counted from one.
-/

namespace BlockingCalls.Text

structure Place where
  position : Nat
  line : Nat
  column : Nat
  deriving Repr, BEq, DecidableEq

/-- The place of a position in a text. -/
def Place.at (text : List Char) (position : Nat) : Place :=
  let before := text.take position
  { position
    line := before.count '\n' + 1
    column := (before.reverse.takeWhile (· != '\n')).length + 1 }

end BlockingCalls.Text
