import BlockingCalls.Proofs.Segments
import BlockingCalls.Specifier
import Mathlib.Data.List.Basic

/-!
# Normal paths and the files they name

A path in normal form is root slashes followed by proper segments: none is empty, none is `.`, none contains a slash. A
file is looked up under a coarser form, which drops empty segments and `.` only, so in general infinitely many paths name
one file. But the target of a relative import is a normal path, with the default extension appended where it had none, and
such a path can be recovered from the form under which it is looked up (`lookupForm_append`).

## Results

* `normalize_eq_assemble`   — a normal form consists of proper segments.
* `lookupForm_append`       — the look-up form of a normal path with text appended.
* `mem_naming`              — at most five targets of relative imports name one file.
-/

namespace BlockingCalls

namespace Path

open Text (splitOn joinWith)

-- ---------------------------------------------------------------------------
-- Normal forms
-- ---------------------------------------------------------------------------

/-- A segment that a normal path can have. -/
structure Proper (segment : List Char) : Prop where
  ne_nil : segment ≠ []
  ne_dot : segment ≠ ['.']
  no_slash : '/' ∉ segment

/-- Taking a segment keeps all taken segments proper. -/
theorem proper_takeSegment {rooted : Bool} {taken : List (List Char)} {segment : List Char}
    (htaken : ∀ s ∈ taken, Proper s) (hsegment : '/' ∉ segment) :
    ∀ s ∈ takeSegment rooted taken segment, Proper s := by
  intro s hs
  unfold takeSegment at hs
  split at hs
  · -- an empty segment or `.` is dropped
    exact htaken s hs
  · rename_i hkeep
    rw [not_or] at hkeep
    have hproper : Proper segment := ⟨hkeep.1, hkeep.2, hsegment⟩
    split at hs
    · -- `..`: it takes a segment back, or is kept where there is none to take back
      split at hs
      · split at hs
        · cases hs
        · rw [List.mem_singleton.mp hs]
          exact hproper
      · split at hs
        · rcases List.mem_cons.mp hs with rfl | hs
          · exact hproper
          · exact htaken s hs
        · exact htaken s (List.mem_cons_of_mem _ hs)
    · rcases List.mem_cons.mp hs with rfl | hs
      · exact hproper
      · exact htaken s hs

/-- So does taking several segments. -/
theorem proper_foldl_takeSegment {rooted : Bool} {taken segments : List (List Char)}
    (htaken : ∀ s ∈ taken, Proper s) (hsegments : ∀ s ∈ segments, '/' ∉ s) :
    ∀ s ∈ segments.foldl (takeSegment rooted) taken, Proper s := by
  induction segments generalizing taken with
  | nil => exact htaken
  | cons segment rest ih =>
    rw [List.forall_mem_cons] at hsegments
    exact ih (proper_takeSegment htaken hsegments.1) hsegments.2

theorem rootSlashes_le (cs : List Char) : rootSlashes cs ≤ 2 := by
  unfold rootSlashes
  split <;> omega

/-- **A normal form consists of at most two slashes and proper segments.** -/
theorem normalize_eq_assemble (path : String) :
    ∃ slashes segments, slashes ≤ 2 ∧ (∀ s ∈ segments, Proper s) ∧ normalize path = assemble slashes segments := by
  refine ⟨rootSlashes path.toList, _, rootSlashes_le _, ?_, rfl⟩
  intro s hs
  rw [List.mem_reverse] at hs
  refine proper_foldl_takeSegment ?_ (fun _ => Text.not_mem_of_mem_splitOn) s hs
  simp

-- ---------------------------------------------------------------------------
-- Looking up normal paths
-- ---------------------------------------------------------------------------

/-- The root of a path that is written out. -/
theorem rootSlashes_replicate_append {slashes : Nat} (hslashes : slashes ≤ 2) {c : Char} (hc : c ≠ '/')
    (rest : List Char) : rootSlashes (List.replicate slashes '/' ++ c :: rest) = slashes := by
  obtain rfl | rfl | rfl : slashes = 0 ∨ slashes = 1 ∨ slashes = 2 := by omega
  · simp [rootSlashes, hc]
  · simp [rootSlashes, hc]
  · simp [rootSlashes, hc]

/-- The segments that count when a file is looked up. -/
def counts (segment : List Char) : Bool :=
  segment != [] && segment != ['.']

theorem counts_of_proper {segment : List Char} (h : Proper segment) : counts segment = true := by
  simp [counts, h.ne_nil, h.ne_dot]

/-- The effect of looking up on text at the end of a path: the first piece belongs to the last segment of the path and
stays, the others count or not. -/
def tailForm (cs : List Char) : List Char :=
  match splitOn '/' cs with
  | [] => []
  | first :: rest => joinWith '/' (first :: rest.filter counts)

section Written

/-! The segments of a path are `init` and then `last`. As text, each segment but the last is followed by a slash, and so
are the empty segments that stand for the root. -/

variable {slashes : Nat} {init : List (List Char)} {last : List Char}

/-- A path with at least one segment, as text. -/
theorem assemble_eq {piece : List Char} (hpiece : piece ≠ []) (rest : List (List Char)) :
    assemble slashes (init ++ piece :: rest) =
      String.ofList (List.replicate slashes '/' ++ (init.flatMap (· ++ ['/']) ++ joinWith '/' (piece :: rest))) := by
  unfold assemble
  rw [Text.joinWith_append]
  split
  · rename_i hnil
    cases rest <;> simp [joinWith, hpiece] at hnil
  · rfl

/-- The same with text appended. -/
theorem toList_assemble_append (hlast : Proper last) (text : String) :
    (assemble slashes (init ++ [last]) ++ text).toList =
      List.replicate slashes '/' ++ (init.flatMap (· ++ ['/']) ++ (last ++ text.toList)) := by
  rw [assemble_eq hlast.ne_nil]
  simp [joinWith]

/-- The first character behind the root slashes is no slash. -/
theorem rootSlashes_assemble_append (hslashes : slashes ≤ 2) (hinit : ∀ s ∈ init, Proper s) (hlast : Proper last)
    (text : String) : rootSlashes (assemble slashes (init ++ [last]) ++ text).toList = slashes := by
  -- behind the root there is the first character of a proper segment
  have hfirst : ∃ c more, c ≠ '/' ∧ init.flatMap (· ++ ['/']) ++ (last ++ text.toList) = c :: more := by
    cases init with
    | nil =>
      obtain ⟨c, more, rfl⟩ := List.exists_cons_of_ne_nil hlast.ne_nil
      exact ⟨c, more ++ text.toList, fun h => hlast.no_slash (by simp [h]), rfl⟩
    | cons first init =>
      have hproper : Proper first := hinit first (by simp)
      obtain ⟨c, more, rfl⟩ := List.exists_cons_of_ne_nil hproper.ne_nil
      exact ⟨c, _, fun h => hproper.no_slash (by simp [h]), rfl⟩
  obtain ⟨c, more, hc, hmore⟩ := hfirst
  rw [toList_assemble_append hlast, hmore, rootSlashes_replicate_append hslashes hc]

/-- The pieces of such a path: empty ones for the root, the segments, and those of the appended text. -/
theorem splitOn_assemble_append (hinit : ∀ s ∈ init, Proper s) (hlast : Proper last) (text : String) :
    splitOn '/' (assemble slashes (init ++ [last]) ++ text).toList =
      List.replicate slashes [] ++ (init ++ (splitOn '/' text.toList).modifyHead (last ++ ·)) := by
  have hslash : List.replicate slashes '/' = (List.replicate slashes ([] : List Char)).flatMap (· ++ ['/']) := by
    induction slashes with
    | zero => rfl
    | succ n ih => simpa [List.replicate_succ] using ih
  rw [toList_assemble_append hlast, hslash, Text.splitOn_flatMap_append (by simp),
    Text.splitOn_flatMap_append fun s hs => (hinit s hs).no_slash, Text.splitOn_append hlast.no_slash]

/-- A proper segment counts whatever is appended to it. -/
theorem counts_append (hlast : Proper last) (more : List Char) : counts (last ++ more) = true := by
  have hne : last ++ more ≠ [] := by simp [hlast.ne_nil]
  have hne_dot : last ++ more ≠ ['.'] := by
    intro h
    rcases List.append_eq_singleton_iff.mp h with ⟨hnil, _⟩ | ⟨hdot, _⟩
    · exact hlast.ne_nil hnil
    · exact hlast.ne_dot hdot
  simp only [counts, bne_iff_ne, ne_eq, hne, hne_dot, not_false_eq_true, Bool.and_eq_true, and_self]

end Written

/-- **Looking up a normal path with text appended changes nothing but the text.** -/
theorem lookupForm_append {slashes : Nat} (hslashes : slashes ≤ 2) {segments : List (List Char)}
    (hproper : ∀ s ∈ segments, Proper s) (hne : segments ≠ []) (text : String) :
    lookupForm (assemble slashes segments ++ text) =
      assemble slashes segments ++ String.ofList (tailForm text.toList) := by
  obtain ⟨init, last, rfl⟩ := (List.eq_nil_or_concat' segments).resolve_left hne
  have hinit : ∀ s ∈ init, Proper s := fun s hs => hproper s (by simp [hs])
  have hlast : Proper last := hproper last (by simp)
  obtain ⟨first, rest, hsplit⟩ := List.exists_cons_of_ne_nil (Text.splitOn_ne_nil '/' text.toList)
  have hpieces := @splitOn_assemble_append slashes init last hinit hlast text
  rw [hsplit, List.modifyHead_cons] at hpieces
  -- the empty segments of the root do not count, those of the path do
  have hfilter : (List.replicate slashes [] ++ (init ++ (last ++ first) :: rest)).filter counts =
      init ++ (last ++ first) :: rest.filter counts := by
    rw [List.filter_append, List.filter_append, List.filter_cons_of_pos (counts_append hlast first),
      List.filter_eq_self.mpr fun s hs => counts_of_proper (hinit s hs),
      List.filter_eq_nil_iff.mpr (by simp [counts])]
    rfl
  have hform : lookupForm (assemble slashes (init ++ [last]) ++ text) =
      assemble slashes (init ++ (last ++ first) :: rest.filter counts) := by
    unfold lookupForm
    simp only
    rw [rootSlashes_assemble_append hslashes hinit hlast, hpieces]
    exact congrArg _ hfilter
  have hne_nil : last ++ first ≠ [] := by simp [hlast.ne_nil]
  rw [hform, assemble_eq hne_nil, assemble_eq hlast.ne_nil, tailForm, hsplit, Text.joinWith_append_head,
    ← String.ofList_append]
  simp [joinWith]

-- ---------------------------------------------------------------------------
-- Paths of relative imports
-- ---------------------------------------------------------------------------

/-- The paths of relative imports that can name the file of a key: the key itself, the path of which the key is the form
with the default extension, and the three normal paths without a segment. -/
def naming (extension key : String) : List String :=
  [key, String.ofList (key.toList.take (key.length - (tailForm extension.toList).length)) ++ extension,
    "." ++ extension, "/" ++ extension, "//" ++ extension]

/-- The normal paths without a segment, completed. -/
theorem withExtension_assemble_nil {config : Config} {slashes : Nat} (hslashes : slashes ≤ 2) :
    Resolver.withExtension config (assemble slashes []) ∈
      ["." ++ config.defaultExtension, "/" ++ config.defaultExtension, "//" ++ config.defaultExtension] := by
  obtain rfl | rfl | rfl : slashes = 0 ∨ slashes = 1 ∨ slashes = 2 := by omega
  · exact .head _
  · exact .tail _ (.head _)
  · exact .tail _ (.tail _ (.head _))

/-- **The target of a relative import is among the paths that name its file.** -/
theorem mem_naming (config : Config) (path : String) :
    Resolver.withExtension config (normalize path) ∈
      naming config.defaultExtension (lookupForm (Resolver.withExtension config (normalize path))) := by
  obtain ⟨slashes, segments, hslashes, hproper, heq⟩ := normalize_eq_assemble path
  rw [heq]
  by_cases hne : segments = []
  · subst hne
    exact .tail _ (.tail _ (withExtension_assemble_nil hslashes))
  · have hform := lookupForm_append hslashes hproper hne
    unfold Resolver.withExtension
    split
    · -- the extension was appended: cutting off what it has become gives the path back
      rw [hform]
      refine .tail _ (List.mem_cons.mpr (.inl ?_))
      rw [String.toList_append, String.length_append, String.toList_ofList, String.length_ofList, Nat.add_sub_cancel,
        ← String.length_toList, List.take_left, String.ofList_toList]
    · -- the path has an extension, and is looked up as it is
      have hself := hform ""
      rw [String.append_empty] at hself
      rw [hself]
      refine List.mem_cons.mpr (.inl ?_)
      simp [tailForm, splitOn, joinWith]

end Path

end BlockingCalls
