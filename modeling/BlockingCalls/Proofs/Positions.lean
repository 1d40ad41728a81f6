import BlockingCalls.Proofs.Segments
import BlockingCalls.Text.Bytes
import Mathlib.Data.List.DropRight
import Mathlib.Data.List.TakeWhile
import Mathlib.Data.Prod.Lex

/-!
# Positions grow with offsets

The row and the column of an offset are computed from the characters before it. They are functions of the bytes of the text
as well: the row is the number of line feeds among the bytes before the offset, the column is the distance of the offset
from the last of them (`bytePosition`). In UTF-8 no other character contains the byte of a line feed, so that an offset
inside a character makes no difference, nor does a carriage return or an offset behind the end of the text.

In this form monotonicity is immediate: a larger offset has at least as many line feeds before it, and if it has as many,
its row begins at the same offset.

## Results

* `lineFeed_mem_utf8EncodeChar_iff` — only a line feed contains the byte of a line feed.
* `positionAt_eq_bytePosition`      — positions are determined by the bytes.
* `bytePosition_mono`               — positions are monotone in offsets.
-/

namespace BlockingCalls.Text

-- ---------------------------------------------------------------------------
-- The bytes of a text
-- ---------------------------------------------------------------------------

/-- The bytes of characters in UTF-8. -/
def bytesOf (cs : List Char) : List UInt8 :=
  cs.flatMap String.utf8EncodeChar

theorem toList_toUTF8 (text : String) : text.toUTF8.data.toList = bytesOf text.toList := by
  rw [String.toUTF8_eq_toByteArray, ← String.utf8Encode_toList, List.utf8Encode, List.data_toByteArray,
    List.toList_toArray, bytesOf]

theorem bytesOf_cons (c : Char) (cs : List Char) : bytesOf (c :: cs) = String.utf8EncodeChar c ++ bytesOf cs :=
  List.flatMap_cons

theorem bytesOf_append (front back : List Char) : bytesOf (front ++ back) = bytesOf front ++ bytesOf back :=
  List.flatMap_append

theorem length_bytesOf (cs : List Char) : (bytesOf cs).length = byteLength cs := by
  induction cs with
  | nil => rfl
  | cons c rest ih => rw [bytesOf_cons, List.length_append, ih, String.length_utf8EncodeChar, byteLength_cons]

/-- The byte of a line feed. -/
def lineFeed : UInt8 := 10

/-- **Only a line feed contains the byte of a line feed**: in a character of several bytes all are above those of ASCII.
-/
theorem lineFeed_mem_utf8EncodeChar_iff {c : Char} : lineFeed ∈ String.utf8EncodeChar c ↔ c = '\n' := by
  have hbyte : ∀ v : Nat, lineFeed = UInt8.ofNat v ↔ v % 256 = 10 := by
    intro v
    rw [lineFeed, ← UInt8.toNat_inj, UInt8.toNat_ofNat']
    exact eq_comm
  have hchar : c = '\n' ↔ c.val.toNat = 10 := by
    rw [← Char.val_inj, ← UInt32.toNat_inj]
    rfl
  rw [hchar]
  unfold String.utf8EncodeChar
  simp only
  -- the bytes of a character that takes several are all above those of ASCII
  split
  · rw [List.mem_singleton, hbyte]
    omega
  · split
    · simp only [List.mem_cons, List.not_mem_nil, or_false, hbyte]
      omega
    · split
      · simp only [List.mem_cons, List.not_mem_nil, or_false, hbyte]
        omega
      · simp only [List.mem_cons, List.not_mem_nil, or_false, hbyte]
        omega

theorem lineFeed_not_mem_bytesOf {cs : List Char} (h : '\n' ∉ cs) : lineFeed ∉ bytesOf cs := by
  intro hmem
  obtain ⟨c, hc, hbyte⟩ := List.mem_flatMap.mp hmem
  exact h (lineFeed_mem_utf8EncodeChar_iff.mp hbyte ▸ hc)

/-- Line feeds may be counted in the bytes. -/
theorem count_lineFeed_bytesOf (cs : List Char) : (bytesOf cs).count lineFeed = cs.count '\n' := by
  induction cs with
  | nil => rfl
  | cons c rest ih =>
    rw [bytesOf_cons, List.count_append, ih, List.count_cons]
    by_cases hc : c = '\n'
    · subst hc
      have hone : (String.utf8EncodeChar '\n').count lineFeed = 1 := by decide
      rw [hone, beq_self_eq_true, if_pos rfl, Nat.add_comm]
    · have hnone : (String.utf8EncodeChar c).count lineFeed = 0 :=
        List.count_eq_zero.mpr fun hmem => hc (lineFeed_mem_utf8EncodeChar_iff.mp hmem)
      rw [hnone, beq_false_of_ne hc, if_neg Bool.false_ne_true, Nat.zero_add, Nat.add_zero]

-- ---------------------------------------------------------------------------
-- Positions in bytes
-- ---------------------------------------------------------------------------

/-- The offset behind the last line feed of some bytes, zero where there is none. -/
def lineStart (bytes : List UInt8) : Nat :=
  (bytes.rdropWhile (· != lineFeed)).length

/-- The position of an offset: the line feeds among the bytes before it, and how far it lies behind the last of them. -/
def bytePosition (bytes : List UInt8) (offset : Nat) : Position where
  row := (bytes.take offset).count lineFeed
  column := offset - lineStart (bytes.take offset)

/-- A row continues where no line feed follows. -/
theorem lineStart_append {front back : List UInt8} (h : lineFeed ∉ back) : lineStart (front ++ back) = lineStart front := by
  unfold lineStart List.rdropWhile
  rw [List.reverse_append, List.dropWhile_append_of_pos]
  intro byte hbyte
  rw [bne_iff_ne]
  rintro rfl
  exact h (List.mem_reverse.mp hbyte)

theorem lineStart_concat (front : List UInt8) : lineStart (front ++ [lineFeed]) = front.length + 1 := by
  rw [lineStart, List.rdropWhile_concat_neg _ _ _ (by simp), List.length_append, List.length_singleton]

/-- The bytes before an offset are among those of the characters that begin before it. -/
theorem take_bytesOf (offset : Nat) (cs : List Char) :
    (bytesOf cs).take offset = (bytesOf (takeBytes offset cs)).take offset := by
  induction cs generalizing offset with
  | nil => rfl
  | cons c rest ih =>
    rw [takeBytes]
    split
    · next h => rw [h, List.take_zero, List.take_zero]
    · rw [bytesOf_cons, bytesOf_cons, List.take_append, List.take_append, String.length_utf8EncodeChar, ih]

/-- The bytes before an offset: those through the last line feed, followed by some without one. -/
theorem take_bytesOf_eq_append (offset : Nat) (cs : List Char) :
    ∃ behind, lineFeed ∉ behind ∧
      (bytesOf cs).take offset = bytesOf (throughLast '\n' (takeBytes offset cs)) ++ behind := by
  have hle := byteLength_throughLast_takeBytes_le offset cs
  refine ⟨(bytesOf (afterLast '\n' (takeBytes offset cs))).take
    (offset - byteLength (throughLast '\n' (takeBytes offset cs))), ?_, ?_⟩
  · exact fun hmem => lineFeed_not_mem_bytesOf (not_mem_afterLast _ _) (List.mem_of_mem_take hmem)
  · rw [take_bytesOf]
    conv =>
      lhs
      rw [← throughLast_append_afterLast '\n' (takeBytes offset cs), bytesOf_append, List.take_append, length_bytesOf]
    rw [List.take_of_length_le (length_bytesOf _ ▸ hle)]

/-- The offset behind the last line feed, in bytes. -/
theorem lineStart_bytesOf_throughLast (cs : List Char) :
    lineStart (bytesOf (throughLast '\n' cs)) = byteLength (throughLast '\n' cs) := by
  rcases throughLast_eq_nil_or '\n' cs with hnil | ⟨front, hfront⟩
  · rw [hnil]
    rfl
  · have hbyte : bytesOf ['\n'] = [lineFeed] := by decide
    rw [← length_bytesOf, hfront, bytesOf_append, hbyte, lineStart_concat, List.length_append, List.length_singleton]

/-- **Positions are determined by the bytes of the text.** -/
theorem positionAt_eq_bytePosition (text : String) (offset : Nat) :
    positionAt text offset = bytePosition text.toUTF8.data.toList offset := by
  obtain ⟨behind, hbehind, htake⟩ := take_bytesOf_eq_append offset text.toList
  have hrow : (takeBytes offset text.toList).count '\n' = (throughLast '\n' (takeBytes offset text.toList)).count '\n' := by
    conv =>
      lhs
      rw [← throughLast_append_afterLast '\n' (takeBytes offset text.toList), List.count_append]
    rw [List.count_eq_zero.mpr (not_mem_afterLast _ _), Nat.add_zero]
  unfold positionAt bytePosition
  simp only
  rw [toList_toUTF8, htake, lineStart_append hbehind, lineStart_bytesOf_throughLast, List.count_append,
    List.count_eq_zero.mpr hbehind, count_lineFeed_bytesOf, hrow, Nat.add_zero]

/-- **Positions are monotone in offsets**, in the lexicographic order of rows and columns. -/
theorem bytePosition_mono (bytes : List UInt8) {a b : Nat} (h : a ≤ b) :
    toLex ((bytePosition bytes a).row, (bytePosition bytes a).column) ≤
      toLex ((bytePosition bytes b).row, (bytePosition bytes b).column) := by
  obtain ⟨between, hbetween⟩ := List.take_prefix_take_left (l := bytes) h
  rw [Prod.Lex.toLex_le_toLex]
  unfold bytePosition
  simp only
  rw [← hbetween, List.count_append]
  by_cases hfeed : lineFeed ∈ between
  · -- a line feed in between: the row is larger
    have := List.count_pos_iff.mpr hfeed
    omega
  · -- none in between: the row is the same, and begins at the same offset
    have := List.count_eq_zero.mpr hfeed
    rw [lineStart_append hfeed]
    omega

end BlockingCalls.Text
