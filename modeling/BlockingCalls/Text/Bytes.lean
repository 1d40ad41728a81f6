import BlockingCalls.Text.Segments

/-!
# Byte offsets in text

Syntax trees count in bytes of the UTF-8 form. This module cuts text at byte offsets and turns an offset into a
row and a column. A row starts after a line feed and after nothing else; columns count bytes.

* `byteLength_throughLast_takeBytes_le` — the row of an offset starts at the offset or before it, so that no column is
  cut short.
-/

namespace BlockingCalls.Text

/-- The characters that start before the given byte offset. -/
def takeBytes : Nat → List Char → List Char
  | _, [] => []
  | n, c :: rest => if n = 0 then [] else c :: takeBytes (n - c.utf8Size) rest

/-- The characters that start at the given byte offset or behind it. -/
def dropBytes : Nat → List Char → List Char
  | _, [] => []
  | n, c :: rest => if n = 0 then c :: rest else dropBytes (n - c.utf8Size) rest

/-- The text between two byte offsets, the second one excluded. -/
def slice (text : String) (start stop : Nat) : String :=
  String.ofList (takeBytes (stop - start) (dropBytes start text.toList))

/-- The bytes that a text takes. -/
def byteLength (cs : List Char) : Nat :=
  (cs.map Char.utf8Size).foldr (· + ·) 0

/-- Row and column, both counted from zero. -/
structure Position where
  row : Nat := 0
  column : Nat := 0
  deriving Repr, BEq, DecidableEq

/-- The position of a byte offset. The line feeds before it are counted, and then the bytes behind the last of them;
an offset inside a character or behind the end of the text counts like any other. -/
def positionAt (text : String) (offset : Nat) : Position :=
  let before := takeBytes offset text.toList
  { row := before.count '\n'
    column := offset - byteLength (throughLast '\n' before) }

@[simp]
theorem byteLength_nil : byteLength [] = 0 :=
  rfl

@[simp]
theorem byteLength_cons (c : Char) (cs : List Char) : byteLength (c :: cs) = c.utf8Size + byteLength cs :=
  rfl

@[simp]
theorem byteLength_append (front back : List Char) :
    byteLength (front ++ back) = byteLength front + byteLength back := by
  induction front with
  | nil => simp
  | cons c front ih => rw [List.cons_append, byteLength_cons, ih, byteLength_cons, Nat.add_assoc]

/-- Only the last character of those that start before an offset can reach over it. -/
theorem byteLength_lt_of_append_eq_takeBytes {offset : Nat} {cs front : List Char} {c : Char} {back : List Char}
    (h : front ++ c :: back = takeBytes offset cs) : byteLength front < offset := by
  induction cs generalizing offset front with
  | nil => simp [takeBytes] at h
  | cons d rest ih =>
    rw [takeBytes] at h
    split at h
    · simp at h
    · next hne =>
      cases front with
      | nil => simpa using Nat.pos_of_ne_zero hne
      | cons e front =>
        rw [List.cons_append, List.cons.injEq] at h
        have := ih h.2
        rw [byteLength_cons, h.1]
        omega

/-- The line of an offset begins at the offset or before it. -/
theorem byteLength_throughLast_takeBytes_le (offset : Nat) (cs : List Char) :
    byteLength (throughLast '\n' (takeBytes offset cs)) ≤ offset := by
  have hsplit := throughLast_append_afterLast '\n' (takeBytes offset cs)
  rcases throughLast_eq_nil_or '\n' (takeBytes offset cs) with h | ⟨front, h⟩
  · simp [h]
  · rw [h, List.append_assoc, List.singleton_append] at hsplit
    have hlt := byteLength_lt_of_append_eq_takeBytes hsplit
    have hone : '\n'.utf8Size = 1 := by decide
    simpa [h, hone] using Nat.succ_le_of_lt hlt

end BlockingCalls.Text
