import BlockingCalls.Decimal.Binary64
import BlockingCalls.Decimal.Digits
import BlockingCalls.Text.Blank
import BlockingCalls.Text.Segments

/-!
# Reading the values of settings

A setting is a text. Switches take a handful of words in any case; integers may have blanks around them, a sign,
leading zeros, a fraction of zeros and single underscores between digits; decimals have blanks around them or
underscores between digits, but not both.
-/

namespace BlockingCalls.Settings

/-- Why a text is not the value of a setting. -/
inductive Problem where
  | notASwitch
  | notAnInteger
  /-- An integer with more digits than are read. -/
  | tooManyDigits
  | notADecimal
  deriving Repr, BEq, DecidableEq

def readSwitch (text : String) : Except Problem Bool :=
  let word := String.ofList (text.toList.map Char.toLower)
  if ["0", "f", "n", "no", "off", "false"].contains word then .ok false
  else if ["1", "t", "y", "on", "yes", "true"].contains word then .ok true
  else .error .notASwitch

/-! ## Underscores -/

/-- Does an underscore stand at an end of the text or next to another one? The text is taken to continue from `before`. -/
def misplacedUnderscore (before : Char) : List Char → Bool
  | [] => before == '_'
  | c :: rest => (before == '_' && c == '_') || misplacedUnderscore c rest

/-- The text without its underscores, if each of them stands alone and inside the text. -/
def withoutUnderscores (cs : List Char) : Option (List Char) :=
  if misplacedUnderscore '_' cs then none else some (cs.filter (· != '_'))

/-! ## Integers -/

def isNonzeroDigit (c : Char) : Bool :=
  decide ('1' ≤ c ∧ c ≤ '9')

/-- What follows zeros: the number without them; `before` is the character before. A fraction keeps its zero, and a
minus sign may stand behind zeros. -/
def behindZeros (before : Char) : List Char → Option (List Char)
  | [] => some [before]
  | c :: rest =>
    if c == '0' || c == '_' then behindZeros c rest
    else if c == '.' then some (before :: c :: rest)
    else if isNonzeroDigit c || c == '-' then some (c :: rest)
    else none

/-- A number without leading zeros. It starts with a digit. -/
def dropLeadingZeros : List Char → Option (List Char)
  | [] => none
  | c :: rest =>
    if c == '0' then behindZeros c rest
    else if isNonzeroDigit c then some (c :: rest)
    else none

/-- A number without a fraction of zeros. -/
def dropZeroFraction (cs : List Char) : List Char :=
  match Text.cutFirst '.' cs with
  | (whole, some fraction) => if !fraction.isEmpty && fraction.all (· == '0') then whole else cs
  | (_, none) => cs

/-- A plus sign is dropped, unless a minus sign follows. -/
def dropPlus : List Char → Option (List Char)
  | '+' :: '-' :: _ => none
  | '+' :: rest => some rest
  | cs => some cs

/-- A minus sign, if there is one, and the text behind it. -/
def cutMinus : List Char → List Char × List Char
  | '-' :: rest => (['-'], rest)
  | cs => ([], cs)

/-- Digits, with no leading zero where there are several. -/
def readNatural : List Char → Option Nat
  | [] => none
  | c :: rest =>
    if (c :: rest).all Char.isDigit && (c != '0' || rest.isEmpty) then some (Decimal.ofDigits (c :: rest)) else none

/-- A natural with a minus sign or without, of no more digits than are read. -/
def readSigned (cs : List Char) : Option Int := do
  let (sign, digits) := cutMinus cs
  let n ← readNatural digits
  if Decimal.digitLimit < digits.length then none
  else return if sign.isEmpty then n else -(n : Int)

/-- The number in its plainest form: without a plus sign, leading zeros, a fraction and underscores. -/
def plainInteger (cs : List Char) : Option (List Char) := do
  let (sign, cs) := cutMinus (← dropPlus cs)
  let cs := dropZeroFraction (← dropLeadingZeros cs)
  return sign ++ (withoutUnderscores cs).getD cs

/-- Does a text begin with more digits than are read? The first of them is no zero. -/
def isOverlong (cs : List Char) : Bool :=
  let digits := (cutMinus cs).2.takeWhile Char.isDigit
  digits.head? != some '0' && decide (Decimal.digitLimit < digits.length)

/-- Too many digits are reported as such only where the text itself begins with them; behind blanks, or in a text that has to
be brought into its plainest form first, they are a fault like any other. -/
def readInteger (text : String) : Except Problem Int :=
  if isOverlong text.toList then .error .tooManyDigits
  else
    let number := (plainInteger (Text.trimBoth Text.isWhiteSpace text.toList)).bind readSigned
    number.elim (.error .notAnInteger) .ok

/-! ## Decimals -/

/-- A sign and the text behind it. -/
def cutSign : List Char → Bool × List Char
  | '-' :: rest => (true, rest)
  | '+' :: rest => (false, rest)
  | cs => (false, cs)

/-- The exponent behind a coefficient: nothing, or `e` with a signed number. -/
def readExponent : List Char → Option Int
  | [] => some 0
  | c :: rest =>
    if c == 'e' || c == 'E' then
      let (isNegative, digits) := cutSign rest
      if !digits.isEmpty && digits.all Char.isDigit then
        some (if isNegative then -(Decimal.ofDigits digits : Int) else Decimal.ofDigits digits)
      else none
    else none

/-- Digits with or without a point, at least one of them, and an exponent. -/
def readUnsigned (isNegative : Bool) (cs : List Char) : Option Decimal.Binary64 := do
  let whole := cs.takeWhile Char.isDigit
  let behind := cs.dropWhile Char.isDigit
  let (fraction, behind) :=
    match behind with
    | '.' :: rest => (rest.takeWhile Char.isDigit, rest.dropWhile Char.isDigit)
    | _ => ([], behind)
  let exponent ← readExponent behind
  if (whole ++ fraction).isEmpty then none
  else return .ofDecimal isNegative (Decimal.ofDigits (whole ++ fraction)) (exponent - fraction.length)

/-- A decimal, or a word for infinity or for no number. -/
def readPlainDecimal (cs : List Char) : Option Decimal.Binary64 :=
  let (isNegative, rest) := cutSign cs
  let word := String.ofList (rest.map Char.toLower)
  if word == "inf" || word == "infinity" then some (.infinite isNegative)
  else if word == "nan" then some .notANumber
  else readUnsigned isNegative rest

def readDecimal (text : String) : Except Problem Decimal.Binary64 :=
  let number :=
    readPlainDecimal (Text.trimBoth Text.isWhiteSpace text.toList) <|>
      (withoutUnderscores text.toList).bind readPlainDecimal
  number.elim (.error .notADecimal) .ok

end BlockingCalls.Settings
