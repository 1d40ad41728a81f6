import BlockingCalls.Text.Quoted

/-!
# The characters of JSON texts

An escape in a JSON text can stand for one half of a surrogate pair. A half on its own is a code point but no character,
so a text that holds one is kept as its code points. Such a text differs from every other.
-/

namespace BlockingCalls.Json

def isHighHalf (point : Nat) : Bool :=
  decide (0xD800 ≤ point ∧ point < 0xDC00)

def isLowHalf (point : Nat) : Bool :=
  decide (0xDC00 ≤ point ∧ point < 0xE000)

/-- The code point of a whole pair. -/
def joinHalves (high low : Nat) : Nat :=
  0x10000 + (high - 0xD800) * 0x400 + (low - 0xDC00)

inductive Characters where
  | whole (text : String)
  /-- Code points, some of them halves of pairs. -/
  | broken (points : List Nat)
  deriving Repr, BEq, DecidableEq

namespace Characters

def isHalf (point : Nat) : Bool :=
  isHighHalf point || isLowHalf point

def ofPoints (points : List Nat) : Characters :=
  if points.any isHalf then .broken points else .whole (String.ofList (points.map Char.ofNat))

/-- A code point as a character; the replacement character stands for a half. -/
def charOf (point : Nat) : Char :=
  if isHalf point then Char.ofNat 0xFFFD else Char.ofNat point

def text : Characters → String
  | .whole text => text
  | .broken points => String.ofList (points.map charOf)

def isEmpty : Characters → Bool
  | .whole text => text.isEmpty
  | .broken points => points.isEmpty

/-- How one code point is written between the given quotes. -/
def escapePoint (quote : Char) (point : Nat) : List Char :=
  if isHalf point then '\\' :: 'u' :: Text.hexDigits 4 point else Text.escapeChar quote (Char.ofNat point)

/-- The text between quotes; halves are written by their numbers. -/
def quoted : Characters → String
  | .whole text => Text.quoted text
  | .broken points =>
    let quote := Text.quoteFor (points.map charOf)
    String.ofList (quote :: points.flatMap (escapePoint quote) ++ [quote])

end Characters

end BlockingCalls.Json
