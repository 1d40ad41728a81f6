/-!
# Text in segments

Cutting text at every occurrence of a separator, and putting the pieces together again.

* `joinWith_splitOn` — cutting and joining gives the text back.
-/

namespace BlockingCalls.Text

/-- The pieces between separators; there is always at least one. -/
def splitOn (separator : Char) : List Char → List (List Char)
  | [] => [[]]
  | c :: rest =>
    if c = separator then [] :: splitOn separator rest
    else
      match splitOn separator rest with
      | [] => [[c]]
      | piece :: pieces => (c :: piece) :: pieces

def joinWith (separator : Char) : List (List Char) → List Char
  | [] => []
  | [piece] => piece
  | piece :: pieces => piece ++ separator :: joinWith separator pieces

/-- The text before the first separator and, where there is one, the text behind it. -/
def cutFirst (separator : Char) (cs : List Char) : List Char × Option (List Char) :=
  (cs.takeWhile (· != separator), (cs.dropWhile (· != separator)).tail?)

/-- The text behind the last separator, or all of it. -/
def afterLast (separator : Char) (cs : List Char) : List Char :=
  (cs.reverse.takeWhile (· != separator)).reverse

/-- The text up to and including the last separator. -/
def throughLast (separator : Char) (cs : List Char) : List Char :=
  (cs.reverse.dropWhile (· != separator)).reverse

theorem splitOn_ne_nil (separator : Char) (cs : List Char) : splitOn separator cs ≠ [] := by
  cases cs with
  | nil => simp [splitOn]
  | cons c rest =>
    simp only [splitOn]
    split
    · simp
    · split <;> simp

theorem joinWith_cons (separator : Char) (piece : List Char) {pieces : List (List Char)} (h : pieces ≠ []) :
    joinWith separator (piece :: pieces) = piece ++ separator :: joinWith separator pieces := by
  cases pieces with
  | nil => exact absurd rfl h
  | cons _ _ => rfl

/-- Joining the pieces of a text restores it. -/
theorem joinWith_splitOn (separator : Char) (cs : List Char) : joinWith separator (splitOn separator cs) = cs := by
  induction cs with
  | nil => rfl
  | cons c rest ih =>
    simp only [splitOn]
    split
    · next h => rw [joinWith_cons _ _ (splitOn_ne_nil _ _), ih, h]; rfl
    · split
      · next h => exact absurd h (splitOn_ne_nil _ _)
      · next piece pieces h =>
        rw [h] at ih
        cases pieces with
        | nil => simpa [joinWith] using ih
        | cons _ _ => simpa [joinWith] using ih

/-- A text is what it has up to the last separator and after it. -/
theorem throughLast_append_afterLast (separator : Char) (cs : List Char) :
    throughLast separator cs ++ afterLast separator cs = cs := by
  unfold throughLast afterLast
  rw [← List.reverse_append, List.takeWhile_append_dropWhile, List.reverse_reverse]

theorem throughLast_eq_nil_or (separator : Char) (cs : List Char) :
    throughLast separator cs = [] ∨ ∃ front, throughLast separator cs = front ++ [separator] := by
  unfold throughLast
  cases h : cs.reverse.dropWhile (· != separator) with
  | nil => exact .inl rfl
  | cons c rest =>
    have hc : (c != separator) = false := by
      simpa [h] using List.head?_dropWhile_not (· != separator) cs.reverse
    have hc : c = separator := by simpa using hc
    exact .inr ⟨rest.reverse, by simp [hc]⟩

end BlockingCalls.Text
