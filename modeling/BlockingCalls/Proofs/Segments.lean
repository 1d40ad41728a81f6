import BlockingCalls.Text.Segments
import Mathlib.Data.List.Basic
import Mathlib.Data.List.TakeWhile

/-!
# Cutting and joining

The cuts of a concatenated text at a separator: a separator in the middle divides the pieces into those of the front and
those of the rest, and a part without a separator is one piece or belongs to one. Paths and URLs are both taken apart by
these cuts.

## Results

* `splitOn_append_cons`      — the pieces on both sides of a separator are cut independently.
* `mem_dropLast_splitOn_iff` — a piece is not the last one if a separator follows it.
* `getLast?_splitOn`         — the last piece is what stands behind the last separator.
* `cutFirst_append_cons`     — the first separator divides a text if the front has none.
-/

namespace BlockingCalls.Text

variable {separator : Char}

-- ---------------------------------------------------------------------------
-- Pieces
-- ---------------------------------------------------------------------------

/-- The test that the cuts make, for text without a separator. -/
theorem bne_separator {cs : List Char} (h : separator ∉ cs) : ∀ c ∈ cs, (c != separator) = true := by
  intro c hc
  rw [bne_iff_ne]
  rintro rfl
  exact h hc

/-- No piece has a separator. -/
theorem not_mem_of_mem_splitOn {cs piece : List Char} (h : piece ∈ splitOn separator cs) : separator ∉ piece := by
  induction cs generalizing piece with
  | nil =>
    rw [splitOn, List.mem_singleton] at h
    simp [h]
  | cons c rest ih =>
    rw [splitOn] at h
    split at h
    · -- the text begins with a separator, behind an empty piece
      rcases List.mem_cons.mp h with rfl | h
      · simp
      · exact ih h
    · -- the text begins with another character, which belongs to its first piece
      rename_i hc
      split at h
      · rw [List.mem_singleton.mp h]
        simpa using Ne.symm hc
      · rename_i first pieces heq
        rcases List.mem_cons.mp h with rfl | h
        · have hfirst : separator ∉ first := ih (heq ▸ List.mem_cons_self)
          simp [Ne.symm hc, hfirst]
        · exact ih (heq ▸ List.mem_cons_of_mem _ h)

/-- Text without a separator becomes part of the first piece of what follows. -/
theorem splitOn_append {front : List Char} (h : separator ∉ front) (rest : List Char) :
    splitOn separator (front ++ rest) = (splitOn separator rest).modifyHead (front ++ ·) := by
  induction front with
  | nil => cases hrest : splitOn separator rest <;> simp [hrest]
  | cons c front ih =>
    rw [List.mem_cons, not_or] at h
    rw [List.cons_append, splitOn, if_neg (Ne.symm h.1), ih h.2]
    cases hrest : splitOn separator rest with
    | nil => exact absurd hrest (splitOn_ne_nil _ _)
    | cons piece pieces => simp

/-- Pieces that are each followed by a separator are cut off one by one. -/
theorem splitOn_flatMap_append {pieces : List (List Char)} (h : ∀ piece ∈ pieces, separator ∉ piece)
    (rest : List Char) :
    splitOn separator (pieces.flatMap (· ++ [separator]) ++ rest) = pieces ++ splitOn separator rest := by
  induction pieces with
  | nil => rfl
  | cons piece pieces ih =>
    rw [List.forall_mem_cons] at h
    rw [List.flatMap_cons, List.append_assoc, List.append_assoc, splitOn_append h.1, List.singleton_append, splitOn,
      if_pos rfl, ih h.2]
    simp

/-- Joining pieces in two parts: those of the first part are each followed by a separator. -/
theorem joinWith_append (pieces : List (List Char)) (piece : List Char) (rest : List (List Char)) :
    joinWith separator (pieces ++ piece :: rest) =
      pieces.flatMap (· ++ [separator]) ++ joinWith separator (piece :: rest) := by
  induction pieces with
  | nil => rfl
  | cons first pieces ih =>
    rw [List.cons_append, joinWith_cons _ _ (by simp), ih]
    simp

/-- Text in front of the first piece stands in front of the whole. -/
theorem joinWith_append_head (front piece : List Char) (rest : List (List Char)) :
    joinWith separator ((front ++ piece) :: rest) = front ++ joinWith separator (piece :: rest) := by
  cases rest with
  | nil => rfl
  | cons next rest => simp [joinWith]

theorem splitOn_of_not_mem {cs : List Char} (h : separator ∉ cs) : splitOn separator cs = [cs] := by
  have hsplit := splitOn_append h []
  rw [List.append_nil] at hsplit
  simpa [splitOn] using hsplit

/-- **The pieces on both sides of a separator are cut independently.** -/
theorem splitOn_append_cons (front rest : List Char) :
    splitOn separator (front ++ separator :: rest) = splitOn separator front ++ splitOn separator rest := by
  induction front with
  | nil => simp [splitOn]
  | cons c front ih =>
    rw [List.cons_append, splitOn, splitOn, ih]
    split
    · rfl
    · cases hfront : splitOn separator front with
      | nil => exact absurd hfront (splitOn_ne_nil _ _)
      | cons piece pieces => rfl

/-- The characters of a piece are characters of the text. -/
theorem mem_of_mem_splitOn {cs piece : List Char} {c : Char} (hpiece : piece ∈ splitOn separator cs) (hc : c ∈ piece) :
    c ∈ cs := by
  induction cs generalizing piece with
  | nil =>
    rw [splitOn, List.mem_singleton] at hpiece
    rw [hpiece] at hc
    exact hc
  | cons first rest ih =>
    rw [splitOn] at hpiece
    split at hpiece
    · rcases List.mem_cons.mp hpiece with rfl | hpiece
      · cases hc
      · exact List.mem_cons_of_mem _ (ih hpiece hc)
    · split at hpiece
      · rw [List.mem_singleton] at hpiece
        rw [hpiece, List.mem_singleton] at hc
        rw [hc]
        exact List.mem_cons_self
      · rename_i head pieces heq
        rcases List.mem_cons.mp hpiece with rfl | hpiece
        · rcases List.mem_cons.mp hc with rfl | hc
          · exact List.mem_cons_self
          · exact List.mem_cons_of_mem _ (ih (heq ▸ List.mem_cons_self) hc)
        · exact List.mem_cons_of_mem _ (ih (heq ▸ List.mem_cons_of_mem _ hpiece) hc)

/-- Joined pieces begin with the first piece, unless that is empty. -/
theorem head?_joinWith {piece : List Char} (h : piece ≠ []) (rest : List (List Char)) :
    (joinWith separator (piece :: rest)).head? = piece.head? := by
  cases rest with
  | nil => rfl
  | cons next rest =>
    rw [joinWith, List.head?_append_of_ne_nil _ h]
    exact List.cons_ne_nil _ _

theorem head?_joinWith_ne {piece : List Char} (hne : piece ≠ []) (h : separator ∉ piece) (rest : List (List Char)) :
    (joinWith separator (piece :: rest)).head? ≠ some separator := by
  rw [head?_joinWith hne]
  exact fun hhead => h (List.mem_of_mem_head? hhead)

/-- The characters of joined pieces are those of the pieces and the separator. -/
theorem mem_joinWith {pieces : List (List Char)} {c : Char} (h : c ∈ joinWith separator pieces) :
    c = separator ∨ ∃ piece ∈ pieces, c ∈ piece := by
  induction pieces with
  | nil => cases h
  | cons piece pieces ih =>
    by_cases hnil : pieces = []
    · subst hnil
      exact .inr ⟨piece, List.mem_cons_self, h⟩
    · rw [joinWith_cons _ _ hnil, List.mem_append, List.mem_cons] at h
      rcases h with h | h | h
      · exact .inr ⟨piece, List.mem_cons_self, h⟩
      · exact .inl h
      · exact (ih h).imp_right fun ⟨other, hother, hc⟩ => ⟨other, List.mem_cons_of_mem _ hother, hc⟩

/-- **Cutting is inverse to joining**, for pieces without a separator. -/
theorem splitOn_joinWith {pieces : List (List Char)} (h : ∀ piece ∈ pieces, separator ∉ piece) (hne : pieces ≠ []) :
    splitOn separator (joinWith separator pieces) = pieces := by
  obtain ⟨init, last, rfl⟩ := (List.eq_nil_or_concat' pieces).resolve_left hne
  have hinit : ∀ piece ∈ init, separator ∉ piece := fun piece hpiece => h piece (by simp [hpiece])
  rw [joinWith_append, splitOn_flatMap_append hinit, joinWith, splitOn_of_not_mem (h last (by simp))]

-- ---------------------------------------------------------------------------
-- Pieces before the last one
-- ---------------------------------------------------------------------------

/-- The empty text, or one that ends with a separator. -/
def EndsPiece (separator : Char) (front : List Char) : Prop :=
  front = [] ∨ ∃ before, front = before ++ [separator]

theorem endsPiece_flatMap (pieces : List (List Char)) : EndsPiece separator (pieces.flatMap (· ++ [separator])) := by
  rcases List.eq_nil_or_concat' pieces with rfl | ⟨init, last, rfl⟩
  · exact .inl rfl
  · exact .inr ⟨init.flatMap (· ++ [separator]) ++ last, by simp⟩

/-- A piece is not the last one if and only if a separator follows it. -/
theorem mem_dropLast_splitOn_iff {piece cs : List Char} (h : separator ∉ piece) :
    piece ∈ (splitOn separator cs).dropLast ↔
      ∃ front rest, EndsPiece separator front ∧ cs = front ++ (piece ++ separator :: rest) := by
  constructor
  · -- join the pieces before it and those behind it again
    intro hmem
    obtain ⟨init, last, hsplit⟩ := (List.eq_nil_or_concat' (splitOn separator cs)).resolve_left (splitOn_ne_nil _ _)
    rw [hsplit, List.dropLast_concat] at hmem
    obtain ⟨before, behind, rfl⟩ := List.append_of_mem hmem
    refine ⟨before.flatMap (· ++ [separator]), joinWith separator (behind ++ [last]), endsPiece_flatMap _, ?_⟩
    calc cs = joinWith separator (splitOn separator cs) := (joinWith_splitOn _ _).symm
      _ = joinWith separator (before ++ piece :: (behind ++ [last])) := by rw [hsplit, List.append_assoc, List.cons_append]
      _ = _ := by rw [joinWith_append, joinWith_cons _ _ (by simp)]
  · -- cut at the separators around it
    rintro ⟨front, rest, hfront, rfl⟩
    have hrest : (piece :: splitOn separator rest).dropLast = piece :: (splitOn separator rest).dropLast :=
      List.dropLast_cons_of_ne_nil (splitOn_ne_nil _ _)
    rcases hfront with rfl | ⟨before, rfl⟩
    · rw [List.nil_append, splitOn_append_cons, splitOn_of_not_mem h, List.singleton_append, hrest]
      exact List.mem_cons_self
    · rw [List.append_assoc, List.singleton_append, splitOn_append_cons, splitOn_append_cons, splitOn_of_not_mem h,
        List.singleton_append, List.dropLast_append_of_ne_nil (List.cons_ne_nil _ _), hrest]
      exact List.mem_append_right _ List.mem_cons_self

-- ---------------------------------------------------------------------------
-- The last separator
-- ---------------------------------------------------------------------------

theorem not_mem_afterLast (separator : Char) (cs : List Char) : separator ∉ afterLast separator cs := by
  intro hmem
  have hne := List.mem_takeWhile_imp (List.mem_reverse.mp hmem)
  exact bne_iff_ne.mp hne rfl

theorem afterLast_of_not_mem {cs : List Char} (h : separator ∉ cs) : afterLast separator cs = cs := by
  have hall : ∀ c ∈ cs.reverse, (c != separator) = true := bne_separator (by simpa using h)
  rw [afterLast, List.takeWhile_eq_self_iff.mpr hall, List.reverse_reverse]

/-- What follows a separator and has none is behind the last one. -/
theorem afterLast_append_cons (front : List Char) {last : List Char} (h : separator ∉ last) :
    afterLast separator (front ++ separator :: last) = last := by
  have hall : ∀ c ∈ last.reverse, (c != separator) = true := bne_separator (by simpa using h)
  rw [afterLast, List.reverse_append, List.reverse_cons, List.append_assoc, List.takeWhile_append_of_pos hall]
  simp

/-- A text with a separator ends in what stands behind the last one. -/
theorem exists_eq_append_cons {cs : List Char} (h : separator ∈ cs) :
    ∃ front, throughLast separator cs = front ++ [separator] ∧ cs = front ++ separator :: afterLast separator cs := by
  have hparts := throughLast_append_afterLast separator cs
  rcases throughLast_eq_nil_or separator cs with hnil | ⟨front, hfront⟩
  · rw [hnil, List.nil_append] at hparts
    rw [← hparts] at h
    exact absurd h (not_mem_afterLast _ _)
  · refine ⟨front, hfront, ?_⟩
    rw [hfront, List.append_assoc] at hparts
    exact hparts.symm

/-- **The last piece is what stands behind the last separator.** -/
theorem getLast?_splitOn (separator : Char) (cs : List Char) :
    (splitOn separator cs).getLast? = some (afterLast separator cs) := by
  by_cases h : separator ∈ cs
  · obtain ⟨front, _, hcs⟩ := exists_eq_append_cons h
    have hlast := not_mem_afterLast separator cs
    generalize afterLast separator cs = last at hcs hlast
    rw [hcs, splitOn_append_cons, splitOn_of_not_mem hlast, List.getLast?_concat]
  · rw [splitOn_of_not_mem h, afterLast_of_not_mem h, List.getLast?_singleton]

/-- The last of joined pieces is behind the last separator. -/
theorem afterLast_joinWith (pieces : List (List Char)) {last : List Char} (h : separator ∉ last) :
    afterLast separator (joinWith separator (pieces ++ [last])) = last := by
  rw [joinWith_append]
  rcases List.eq_nil_or_concat' pieces with rfl | ⟨init, piece, rfl⟩
  · exact afterLast_of_not_mem h
  · have hcut := afterLast_append_cons (init.flatMap (· ++ [separator]) ++ piece) h
    simpa [joinWith] using hcut

/-- Text without a separator belongs to what stands behind the last one. -/
theorem afterLast_append (front : List Char) {more : List Char} (h : separator ∉ more) :
    afterLast separator (front ++ more) = afterLast separator front ++ more ∧
      throughLast separator (front ++ more) = throughLast separator front := by
  have hall : ∀ c ∈ more.reverse, (c != separator) = true := bne_separator (by simpa using h)
  constructor
  · rw [afterLast, List.reverse_append, List.takeWhile_append_of_pos hall, List.reverse_append, List.reverse_reverse]
    rfl
  · rw [throughLast, List.reverse_append, List.dropWhile_append_of_pos hall]
    rfl

/-- Nothing follows a text that is cut behind its last separator. -/
theorem afterLast_throughLast (cs : List Char) : afterLast separator (throughLast separator cs) = [] := by
  rcases throughLast_eq_nil_or separator cs with hnil | ⟨front, hfront⟩
  · rw [hnil]
    rfl
  · rw [hfront]
    exact afterLast_append_cons front List.not_mem_nil

/-- Text in front makes no difference to what stands behind the last separator, where there is one. -/
theorem afterLast_append_of_mem (front : List Char) {cs : List Char} (h : separator ∈ cs) :
    afterLast separator (front ++ cs) = afterLast separator cs := by
  obtain ⟨before, _, hcs⟩ := exists_eq_append_cons h
  have hlast := not_mem_afterLast separator cs
  generalize afterLast separator cs = last at hcs hlast
  rw [hcs, ← List.append_assoc, afterLast_append_cons _ hlast]

/-- Nor does a separator in front. -/
theorem afterLast_cons_self (cs : List Char) : afterLast separator (separator :: cs) = afterLast separator cs := by
  by_cases h : separator ∈ cs
  · exact afterLast_append_of_mem [separator] h
  · rw [afterLast_of_not_mem h]
    exact afterLast_append_cons [] h

-- ---------------------------------------------------------------------------
-- The first separator
-- ---------------------------------------------------------------------------

theorem cutFirst_of_not_mem {cs : List Char} (h : separator ∉ cs) : cutFirst separator cs = (cs, none) := by
  rw [cutFirst, List.takeWhile_eq_self_iff.mpr (bne_separator h), List.dropWhile_eq_nil_iff.mpr (bne_separator h)]
  rfl

theorem cutFirst_append_cons {front : List Char} (h : separator ∉ front) (rest : List Char) :
    cutFirst separator (front ++ separator :: rest) = (front, some rest) := by
  rw [cutFirst, List.takeWhile_append_of_pos (bne_separator h), List.dropWhile_append_of_pos (bne_separator h)]
  simp

/-- A text is what stands before its first separator, or this with the separator and what stands behind it. -/
theorem cutFirst_cases (separator : Char) (cs : List Char) :
    (separator ∉ cs ∧ cutFirst separator cs = (cs, none)) ∨
      ∃ front rest, separator ∉ front ∧ cs = front ++ separator :: rest ∧ cutFirst separator cs = (front, some rest) := by
  by_cases h : separator ∈ cs
  · obtain ⟨front, rest, rfl, hfront⟩ := List.eq_append_cons_of_mem h
    exact .inr ⟨front, rest, hfront, rfl, cutFirst_append_cons hfront rest⟩
  · exact .inl ⟨h, cutFirst_of_not_mem h⟩

/-- No separator stands before the first one. -/
theorem not_mem_cutFirst (separator : Char) (cs : List Char) : separator ∉ (cutFirst separator cs).1 := by
  rcases cutFirst_cases separator cs with ⟨h, hcut⟩ | ⟨front, rest, hfront, _, hcut⟩
  · rw [hcut]
    exact h
  · rw [hcut]
    exact hfront

/-- The characters of both parts are characters of the text. -/
theorem mem_of_mem_cutFirst {cs : List Char} {c : Char}
    (h : c ∈ (cutFirst separator cs).1 ∨ c ∈ (cutFirst separator cs).2.getD []) : c ∈ cs := by
  rcases cutFirst_cases separator cs with ⟨_, hcut⟩ | ⟨front, rest, _, rfl, hcut⟩
  · rw [hcut] at h
    exact h.resolve_right List.not_mem_nil
  · rw [hcut] at h
    exact List.mem_append.mpr (h.imp_right (List.mem_cons_of_mem _))

end BlockingCalls.Text
