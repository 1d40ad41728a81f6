import BlockingCalls.Text.Quoted

/-!
# Strict UTF-8

Bytes are read as UTF-8 without repair. The first fault ends the reading; it covers the longest part of a sequence
that could still have become a character, and at least one byte.
-/

namespace BlockingCalls.Text

inductive Utf8Reason where
  | invalidStart
  | invalidContinuation
  | endOfData
  deriving Repr, BEq, DecidableEq

def Utf8Reason.message : Utf8Reason → String
  | .invalidStart => "invalid start byte"
  | .invalidContinuation => "invalid continuation byte"
  | .endOfData => "unexpected end of data"

/-- Where reading stopped: the first byte, its offset, and how many bytes the fault covers. -/
structure Utf8Fault where
  byte : UInt8
  position : Nat
  length : Nat
  reason : Utf8Reason
  deriving Repr, BEq, DecidableEq

def Utf8Fault.message (f : Utf8Fault) : String :=
  let where_ :=
    if f.length ≤ 1 then
      "byte 0x" ++ String.ofList (hexDigits 2 f.byte.toNat) ++ " in position " ++ toString f.position
    else "bytes in position " ++ toString f.position ++ "-" ++ toString (f.position + f.length - 1)
  "'utf-8' codec can't decode " ++ where_ ++ ": " ++ f.reason.message

/-- What the first byte of a sequence asks for: how many bytes follow, the least and the greatest next byte, and the
bits it brings. -/
structure Utf8Lead where
  owed : Nat
  low : UInt8 := 0x80
  high : UInt8 := 0xBF
  bits : Nat

def utf8Lead? (b : UInt8) : Option Utf8Lead :=
  if b < 0x80 then some { owed := 0, bits := b.toNat }
  else if b < 0xC2 then none
  else if b < 0xE0 then some { owed := 1, bits := b.toNat - 0xC0 }
  else if b < 0xF0 then
    some { owed := 2, bits := b.toNat - 0xE0, low := if b = 0xE0 then 0xA0 else 0x80
           high := if b = 0xED then 0x9F else 0xBF }
  else if b < 0xF5 then
    some { owed := 3, bits := b.toNat - 0xF0, low := if b = 0xF0 then 0x90 else 0x80
           high := if b = 0xF4 then 0x8F else 0xBF }
  else none

/-- Reads the bytes owed. A fault comes with the number of bytes that were read before it. -/
def utf8Tail : Nat → UInt8 → UInt8 → Nat → List UInt8 → Except (Nat × Utf8Reason) Nat
  | 0, _, _, bits, _ => .ok bits
  | _ + 1, _, _, _, [] => .error (0, .endOfData)
  | owed + 1, low, high, bits, b :: rest =>
    if low ≤ b ∧ b ≤ high then
      match utf8Tail owed 0x80 0xBF (bits * 64 + (b.toNat - 0x80)) rest with
      | .ok bits => .ok bits
      | .error (read, reason) => .error (read + 1, reason)
    else .error (0, .invalidContinuation)

/-- Reads bytes that start at the given offset. -/
def decodeUtf8From (position : Nat) : List UInt8 → Except Utf8Fault (List Char)
  | [] => .ok []
  | b :: rest =>
    match utf8Lead? b with
    | none => .error { byte := b, position, length := 1, reason := .invalidStart }
    | some lead =>
      match utf8Tail lead.owed lead.low lead.high lead.bits rest with
      | .error (read, reason) => .error { byte := b, position, length := read + 1, reason }
      | .ok bits => (decodeUtf8From (position + 1 + lead.owed) (rest.drop lead.owed)).map (Char.ofNat bits :: ·)
termination_by bytes => bytes.length
decreasing_by
  simp only [List.length_drop, List.length_cons]
  omega

def decodeUtf8 (bytes : List UInt8) : Except Utf8Fault (List Char) :=
  decodeUtf8From 0 bytes

/-- Line ends are read as line feeds, whether they are written so, as a carriage return, or as both. -/
def readNewlines : List Char → List Char
  | [] => []
  | '\r' :: '\n' :: rest => '\n' :: readNewlines rest
  | '\r' :: rest => '\n' :: readNewlines rest
  | c :: rest => c :: readNewlines rest

end BlockingCalls.Text
