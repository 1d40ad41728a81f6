import BlockingCalls.Decimal.Digits
import BlockingCalls.Json.Value
import BlockingCalls.Text.Place

/-!
# Reading JSON

Reads one value from a text and reports the first fault with its place. Besides the standard, `NaN`, `Infinity` and
`-Infinity` are numbers. A number ends where it can end, so that `1.` is a number with text behind it. Integers with too
many digits are not read; they are reported without their place. Values may be nested to any depth.
-/

namespace BlockingCalls.Json

inductive Problem where
  | expectingValue
  | expectingName
  | expectingColon
  | expectingComma
  | extraData
  | unterminatedString
  | controlCharacter
  | badEscape
  | badUnicodeEscape
  | byteOrderMark
  deriving Repr, BEq, DecidableEq

def Problem.message : Problem → String
  | .expectingValue => "Expecting value"
  | .expectingName => "Expecting property name enclosed in double quotes"
  | .expectingColon => "Expecting ':' delimiter"
  | .expectingComma => "Expecting ',' delimiter"
  | .extraData => "Extra data"
  | .unterminatedString => "Unterminated string starting at"
  | .controlCharacter => "Invalid control character at"
  | .badEscape => "Invalid \\escape"
  | .badUnicodeEscape => "Invalid \\uXXXX escape"
  | .byteOrderMark => "Unexpected UTF-8 BOM (decode using utf-8-sig)"

/-- Why the reader stops. -/
inductive Stop where
  /-- The text is wrong, with so many characters left. -/
  | malformed (problem : Problem) (remaining : Nat)
  /-- An integer has so many digits, which are more than are converted. -/
  | tooManyDigits (count : Nat)
  deriving Repr, BEq, DecidableEq

inductive Fault where
  | malformed (problem : Problem) (place : Text.Place)
  | tooManyDigits (count : Nat)
  deriving Repr, BEq, DecidableEq

/-- The text for an integer with too many digits. -/
def tooManyDigitsText (count : Nat) : String :=
  "Exceeds the limit (" ++ toString Decimal.digitLimit ++ " digits) for integer string conversion: value has " ++
    toString count ++ " digits; use sys.set_int_max_str_digits() to increase the limit"

def Fault.message : Fault → String
  | .malformed problem place =>
    problem.message ++ ": line " ++ toString place.line ++ " column " ++ toString place.column ++ " (char " ++
      toString place.position ++ ")"
  | .tooManyDigits count => tooManyDigitsText count

def Fault.at (text : List Char) : Stop → Fault
  | .malformed problem remaining => .malformed problem (.at text (text.length - remaining))
  | .tooManyDigits count => .tooManyDigits count

def isBlank (c : Char) : Bool :=
  c == ' ' || c == '\t' || c == '\n' || c == '\r'

def skipBlanks (cs : List Char) : List Char :=
  cs.dropWhile isBlank

/-! ## Strings -/

def hexValue? (c : Char) : Option Nat :=
  if c.isDigit then some (c.toNat - 48)
  else if 'a' ≤ c ∧ c ≤ 'f' then some (c.toNat - 87)
  else if 'A' ≤ c ∧ c ≤ 'F' then some (c.toNat - 55)
  else none

def hexNumber? (cs : List Char) : Option Nat :=
  cs.foldl (fun n c => do return 16 * (← n) + (← hexValue? c)) (some 0)

def escapes : List (Char × Char) :=
  [('"', '"'), ('\\', '\\'), ('/', '/'), ('b', '\x08'), ('f', '\x0c'), ('n', '\n'), ('r', '\r'), ('t', '\t')]

/-- The low half of a pair, if the text continues with its escape and does not end there. -/
def lowHalf (cs : List Char) : Except Stop (Option Nat) :=
  match cs with
  | '\\' :: 'u' :: rest =>
    if rest.length < 5 then .ok none
    else
      match hexNumber? (rest.take 4) with
      | none => .error (.malformed .badUnicodeEscape (rest.length + 1))
      | some n => .ok (if isLowHalf n then some n else none)
  | _ => .ok none

/-- The code point of an escape `\u`, and how much text behind the mark it takes. -/
def unicodeEscape (cs : List Char) : Except Stop (Nat × Nat) :=
  if cs.length < 5 then .error (.malformed .badUnicodeEscape (cs.length + 1))
  else
    match hexNumber? (cs.take 4) with
    | none => .error (.malformed .badUnicodeEscape (cs.length + 1))
    | some high =>
      if isHighHalf high then
        match lowHalf (cs.drop 4) with
        | .error stop => .error stop
        | .ok (some low) => .ok (joinHalves high low, 10)
        | .ok none => .ok (high, 4)
      else .ok (high, 4)

/-- Reads the code points of a string behind its opening quote. `opening` is the number of characters left at that
quote. -/
def readString (opening : Nat) : List Char → Except Stop (List Nat × List Char)
  | [] => .error (.malformed .unterminatedString opening)
  | '"' :: rest => .ok ([], rest)
  | '\\' :: [] => .error (.malformed .unterminatedString opening)
  | '\\' :: 'u' :: rest =>
    match unicodeEscape rest with
    | .error stop => .error stop
    | .ok (point, width) => (readString opening (rest.drop width)).map fun (ps, rest) => (point :: ps, rest)
  | '\\' :: e :: rest =>
    match escapes.lookup e with
    | none => .error (.malformed .badEscape (rest.length + 2))
    | some c => (readString opening rest).map fun (ps, rest) => (c.toNat :: ps, rest)
  | c :: rest =>
    if c.toNat < 0x20 then .error (.malformed .controlCharacter (rest.length + 1))
    else (readString opening rest).map fun (ps, rest) => (c.toNat :: ps, rest)
termination_by cs => cs.length
decreasing_by
  all_goals simp only [List.length_drop, List.length_cons]
  all_goals omega

/-! ## Numbers -/

/-- The digits before the point: one zero, or a digit from one to nine and any others. -/
def cutInteger : List Char → Option (List Char × List Char)
  | '0' :: rest => some (['0'], rest)
  | c :: rest =>
    if c.isDigit then some (c :: rest.takeWhile Char.isDigit, rest.dropWhile Char.isDigit) else none
  | [] => none

/-- A point with at least one digit behind it. -/
def cutFraction : List Char → List Char × List Char
  | '.' :: rest =>
    if rest.head?.any Char.isDigit then ('.' :: rest.takeWhile Char.isDigit, rest.dropWhile Char.isDigit)
    else ([], '.' :: rest)
  | cs => ([], cs)

/-- An exponent with at least one digit. -/
def cutExponent : List Char → List Char × List Char
  | [] => ([], [])
  | mark :: rest =>
    if mark == 'e' || mark == 'E' then
      let sign := if rest.head? == some '-' || rest.head? == some '+' then rest.take 1 else []
      let digits := (rest.drop sign.length).takeWhile Char.isDigit
      if digits.isEmpty then ([], mark :: rest)
      else (mark :: sign ++ digits, (rest.drop sign.length).dropWhile Char.isDigit)
    else ([], mark :: rest)

/-- The number that an exponent stands for. -/
def exponentOf (cs : List Char) : Int :=
  match cs.drop 1 with
  | '-' :: digits => -(Decimal.ofDigits digits : Int)
  | '+' :: digits => Decimal.ofDigits digits
  | digits => Decimal.ofDigits digits

def integerOf (isNegative : Bool) (digits : List Char) : Except Stop Value :=
  if Decimal.digitLimit < digits.length then .error (.tooManyDigits digits.length)
  else
    let magnitude : Int := Decimal.ofDigits digits
    .ok (.integer (if isNegative then -magnitude else magnitude))

/-- A decimal in parts; the fraction starts with its point. -/
def decimalOf (isNegative : Bool) (digits fraction exponent : List Char) : Value :=
  let places := fraction.drop 1
  .decimal (.ofDecimal isNegative (Decimal.ofDigits (digits ++ places)) (exponentOf exponent - places.length))

def readNumber (cs : List Char) : Except Stop (Value × List Char) :=
  let isNegative := cs.head? == some '-'
  match cutInteger (if isNegative then cs.drop 1 else cs) with
  | none => .error (.malformed .expectingValue cs.length)
  | some (digits, rest) =>
    let (fraction, rest) := cutFraction rest
    let (exponent, rest) := cutExponent rest
    if fraction.isEmpty && exponent.isEmpty then (integerOf isNegative digits).map fun value => (value, rest)
    else .ok (decimalOf isNegative digits fraction exponent, rest)

/-! ## Values -/

def words : List (String × Value) :=
  [("null", .null), ("true", .bool true), ("false", .bool false), ("NaN", .decimal .notANumber),
   ("Infinity", .decimal (.infinite false)), ("-Infinity", .decimal (.infinite true))]

/-- A value that holds no other values. -/
def readScalar (cs : List Char) : Except Stop (Value × List Char) :=
  match cs with
  | '"' :: rest => (readString cs.length rest).map fun (points, rest) => (.string (.ofPoints points), rest)
  | _ =>
    match words.find? fun word => word.1.toList.isPrefixOf cs with
    | some word => .ok (word.2, cs.drop word.1.length)
    | none => readNumber cs

mutual

/-- Reads a value. The first argument bounds the nesting and the number of items; twice the length of the text is
enough. -/
def readValue : Nat → List Char → Except Stop (Value × List Char)
  | 0, cs => .error (.malformed .expectingValue cs.length)
  | bound + 1, '[' :: rest =>
    match skipBlanks rest with
    | ']' :: rest => .ok (.array [], rest)
    | cs => (readItems bound cs).map fun (items, rest) => (.array items, rest)
  | bound + 1, '\x7b' :: rest =>
    match skipBlanks rest with
    | '\x7d' :: rest => .ok (.object [], rest)
    | cs => (readMembers bound cs).map fun (members, rest) => (.ofMembers members, rest)
  | _ + 1, cs => readScalar cs

/-- Reads the items of an array up to its end. -/
def readItems : Nat → List Char → Except Stop (List Value × List Char)
  | 0, cs => .error (.malformed .expectingValue cs.length)
  | bound + 1, cs =>
    match readValue bound cs with
    | .error stop => .error stop
    | .ok (item, rest) =>
      match skipBlanks rest with
      | ']' :: rest => .ok ([item], rest)
      | ',' :: rest => (readItems bound (skipBlanks rest)).map fun (items, rest) => (item :: items, rest)
      | rest => .error (.malformed .expectingComma rest.length)

/-- Reads the members of an object up to its end. -/
def readMembers : Nat → List Char → Except Stop (List (Characters × Value) × List Char)
  | 0, cs => .error (.malformed .expectingName cs.length)
  | bound + 1, cs =>
    match cs with
    | '"' :: rest =>
      match readString cs.length rest with
      | .error stop => .error stop
      | .ok (name, rest) =>
        match skipBlanks rest with
        | ':' :: rest =>
          match readValue bound (skipBlanks rest) with
          | .error stop => .error stop
          | .ok (value, rest) =>
            let member := (Characters.ofPoints name, value)
            match skipBlanks rest with
            | '\x7d' :: rest => .ok ([member], rest)
            | ',' :: rest =>
              (readMembers bound (skipBlanks rest)).map fun (members, rest) => (member :: members, rest)
            | rest => .error (.malformed .expectingComma rest.length)
        | rest => .error (.malformed .expectingColon rest.length)
    | cs => .error (.malformed .expectingName cs.length)

end

/-- Reads a text that holds one value and nothing else. -/
def read (text : String) : Except Fault Value :=
  let cs := text.toList
  let fail := fun stop => Except.error (Fault.at cs stop)
  if cs.head? == some (Char.ofNat 0xFEFF) then fail (.malformed .byteOrderMark cs.length)
  else
    match readValue (2 * cs.length + 2) (skipBlanks cs) with
    | .error stop => fail stop
    | .ok (value, rest) =>
      match skipBlanks rest with
      | [] => .ok value
      | rest => fail (.malformed .extraData rest.length)

end BlockingCalls.Json
