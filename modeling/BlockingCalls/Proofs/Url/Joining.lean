import BlockingCalls.Proofs.Url.Parts

/-!
# References that start with a dot

A reference that starts with a dot has no scheme and no authority of its own, so relative to a URL of the web it resolves to
a URL of the same scheme and authority. Its path is evaluated segment by segment. Empty inner segments are removed before
the dots are evaluated, and a `..` above the root is ignored, or removes the root itself; in each case the path is rendered
with one slash in front. The last segment of the result is the last one of the reference or empty, so that it has no
semicolon.

## Results

* `joinPath_eq`          — the segments of a resolved path.
* `rooted_joinPath`      — a resolved path is one that a URL of the web can have.
* `join_dot`             — the result of joining a reference that starts with a dot to a URL of the web.
-/

namespace BlockingCalls.Url

open Text (cutFirst afterLast throughLast splitOn joinWith)

-- ---------------------------------------------------------------------------
-- Segments
-- ---------------------------------------------------------------------------

/-- The segment has no slash, and no characters but those of the base and the path. -/
def Drawn (base path segment : List Char) : Prop :=
  '/' ∉ segment ∧ ∀ c ∈ segment, c ∈ base ∨ c ∈ path

/-- Empty segments are removed, except for the first and the last one. -/
theorem dropEmptyInner_concat (first : List Char) (inner : List (List Char)) (last : List Char) :
    dropEmptyInner (first :: (inner ++ [last])) = first :: inner.filter (!·.isEmpty) ++ [last] := by
  cases inner with
  | nil => rfl
  | cons second inner =>
    show first :: (((second :: inner) ++ [last]).dropLast.filter (!·.isEmpty) ++
      ((second :: inner) ++ [last]).getLast?.toList) = _
    rw [List.dropLast_concat, List.getLast?_concat]
    rfl

/-- The last segment for a relative path is that of the path itself, and of the others only the first can be empty. -/
theorem segmentsFrom_eq (base : List Char) {path : List Char} (h : path.head? ≠ some '/') :
    ∃ init, segmentsFrom base path = init ++ [afterLast '/' path] ∧ (∀ s ∈ init.tail, s ≠ []) ∧
      ∀ s ∈ init, Drawn base path s := by
  obtain ⟨pieces, hpieces⟩ := List.getLast?_eq_some_iff.mp (Text.getLast?_splitOn '/' path)
  -- the segments before the last one come from the base or from the path
  have hdrawn : ∀ s ∈ (if (splitOn '/' base).getLast? == some [] then splitOn '/' base else (splitOn '/' base).dropLast)
      ++ pieces, Drawn base path s := by
    intro s hs
    rcases List.mem_append.mp hs with hs | hs
    · have hs : s ∈ splitOn '/' base := by
        split at hs
        · exact hs
        · exact List.dropLast_subset _ hs
      exact ⟨Text.not_mem_of_mem_splitOn hs, fun c hc => .inl (Text.mem_of_mem_splitOn hs hc)⟩
    · have hs : s ∈ splitOn '/' path := hpieces ▸ List.mem_append_left _ hs
      exact ⟨Text.not_mem_of_mem_splitOn hs, fun c hc => .inr (Text.mem_of_mem_splitOn hs hc)⟩
  have hsegments : segmentsFrom base path = dropEmptyInner
      ((if (splitOn '/' base).getLast? == some [] then splitOn '/' base else (splitOn '/' base).dropLast) ++ pieces ++
        [afterLast '/' path]) := by
    rw [segmentsFrom, if_neg (by simpa using h), List.append_assoc, ← hpieces]
  generalize (if (splitOn '/' base).getLast? == some [] then splitOn '/' base else (splitOn '/' base).dropLast) ++ pieces
    = all at hdrawn hsegments
  cases all with
  | nil => exact ⟨[], hsegments, by simp, by simp⟩
  | cons first inner =>
    rw [List.cons_append, dropEmptyInner_concat] at hsegments
    refine ⟨_, hsegments, ?_, ?_⟩
    · intro s hs
      simpa using (List.mem_filter.mp hs).2
    · intro s hs
      refine hdrawn s ?_
      rcases List.mem_cons.mp hs with rfl | hs
      · exact List.mem_cons_self
      · exact List.mem_cons_of_mem _ (List.mem_filter.mp hs).1

-- ---------------------------------------------------------------------------
-- Evaluating dots
-- ---------------------------------------------------------------------------

/-- Invariant of the evaluation. The segments taken so far are kept in reverse: only the first one taken can be empty.
-/
structure Taken (base path : List Char) (taken : List (List Char)) : Prop where
  inner : ∀ s ∈ taken.dropLast, s ≠ []
  drawn : ∀ s ∈ taken, Drawn base path s

namespace Taken

variable {base path : List Char} {taken : List (List Char)}

/-- A `..` removes the segment taken last. -/
theorem tail (h : Taken base path taken) : Taken base path taken.tail where
  inner s hs := by
    rw [← List.tail_dropLast] at hs
    exact h.inner s (List.mem_of_mem_tail hs)
  drawn s hs := h.drawn s (List.mem_of_mem_tail hs)

/-- A segment that is not empty, or is the first one, is taken. -/
theorem cons (h : Taken base path taken) {segment : List Char} (hdrawn : Drawn base path segment)
    (hempty : segment = [] → taken = []) : Taken base path (segment :: taken) where
  inner s hs := by
    cases taken with
    | nil => cases hs
    | cons last before =>
      rcases List.mem_cons.mp hs with rfl | hs
      · exact fun hnil => List.cons_ne_nil _ _ (hempty hnil)
      · exact h.inner s hs
  drawn := List.forall_mem_cons.mpr ⟨hdrawn, h.drawn⟩

/-- One step of the evaluation keeps the invariant, by the three kinds of segments. -/
theorem resolveSegment (h : Taken base path taken) {segment : List Char} (hdrawn : Drawn base path segment)
    (hempty : segment = [] → taken = []) : Taken base path (resolveSegment taken segment) := by
  unfold Url.resolveSegment
  split
  · exact h.tail
  · split
    · exact h
    · exact h.cons hdrawn hempty

/-- So does the evaluation of all segments. By induction on the segments. -/
theorem foldl (h : Taken base path taken) {segments : List (List Char)} (hdrawn : ∀ s ∈ segments, Drawn base path s)
    (hinner : ∀ s ∈ segments, s ≠ []) : Taken base path (segments.foldl Url.resolveSegment taken) := by
  induction segments generalizing taken with
  | nil => exact h
  | cons segment rest ih =>
    rw [List.forall_mem_cons] at hdrawn hinner
    exact ih (h.resolveSegment hdrawn.1 fun hnil => absurd hnil hinner.1) hdrawn.2 hinner.2

end Taken

/-- The segments of a resolved path: the last one is that of the reference or empty, and of the others only the first can be
empty. -/
structure Evaluated (base path : List Char) (front : List (List Char)) (last : List Char) : Prop where
  last_eq : last = [] ∨ last = afterLast '/' path
  inner : ∀ s ∈ front.tail, s ≠ []
  drawn : ∀ s ∈ front, Drawn base path s
  drawn_last : Drawn base path last

/-- The segments taken, in order, are those of a resolved path. -/
theorem Taken.evaluated {base path : List Char} {taken : List (List Char)} (h : Taken base path taken) {last : List Char}
    (hlast : last = [] ∨ last = afterLast '/' path) : Evaluated base path taken.reverse last where
  last_eq := hlast
  inner s hs := by
    rw [List.tail_reverse, List.mem_reverse] at hs
    exact h.inner s hs
  drawn s hs := h.drawn s (List.mem_reverse.mp hs)
  drawn_last := by
    rcases hlast with rfl | rfl
    · exact ⟨List.not_mem_nil, fun c hc => absurd hc List.not_mem_nil⟩
    · refine ⟨Text.not_mem_afterLast _ _, fun c hc => .inr ?_⟩
      rw [← Text.throughLast_append_afterLast '/' path]
      exact List.mem_append_right _ hc

/-- An empty path is replaced by the root. -/
def orRoot (path : List Char) : List Char :=
  if path.isEmpty then ['/'] else path

/-- The path for given segments: the last one decides if there is a slash at the end. -/
theorem joinPath_of_segments {base path : List Char} {init : List (List Char)} {last : List Char}
    (h : segmentsFrom base path = init ++ [last]) :
    joinPath base path = orRoot (joinWith '/'
      ((resolveSegment (init.foldl resolveSegment []) last).reverse ++
        if last = ['.'] ∨ last = ['.', '.'] then [[]] else [])) := by
  have hlast : (some last == some ['.'] || some last == some ['.', '.']) = true ↔ last = ['.'] ∨ last = ['.', '.'] := by
    simp
  unfold joinPath
  simp only [h, List.foldl_append, List.foldl_cons, List.foldl_nil, List.getLast?_concat, hlast]
  split
  all_goals
    rename_i heq
    split at heq <;> simp_all [orRoot]

/-- The segments of a resolved path. -/
theorem joinPath_eq (base : List Char) {path : List Char} (h : path.head? ≠ some '/') :
    ∃ front last, joinPath base path = orRoot (joinWith '/' (front ++ [last])) ∧ Evaluated base path front last := by
  obtain ⟨init, hsegments, hinner, hdrawn⟩ := segmentsFrom_eq base h
  have htaken : Taken base path (init.foldl resolveSegment []) := by
    have hnil : Taken base path [] := ⟨by simp, by simp⟩
    cases init with
    | nil => exact hnil
    | cons first inner =>
      rw [List.forall_mem_cons] at hdrawn
      exact (hnil.resolveSegment hdrawn.1 fun _ => rfl).foldl hdrawn.2 hinner
  rw [joinPath_of_segments hsegments]
  by_cases hdots : afterLast '/' path = ['.', '.']
  · -- `..` at the end removes a segment, and leaves a slash at the end
    refine ⟨_, [], ?_, htaken.tail.evaluated (.inl rfl)⟩
    rw [if_pos (.inr hdots), resolveSegment, if_pos hdots]
  · by_cases hdot : afterLast '/' path = ['.']
    · -- `.` at the end only leaves the slash
      refine ⟨_, [], ?_, htaken.evaluated (.inl rfl)⟩
      rw [if_pos (.inl hdot), resolveSegment, if_neg hdots, if_pos hdot]
    · -- any other last segment is taken
      refine ⟨_, afterLast '/' path, ?_, htaken.evaluated (.inr rfl)⟩
      rw [if_neg (not_or.mpr ⟨hdot, hdots⟩), resolveSegment, if_neg hdots, if_neg hdot, List.append_nil,
        List.reverse_cons]

-- ---------------------------------------------------------------------------
-- Resolved paths
-- ---------------------------------------------------------------------------

theorem rooted_orRoot (path : List Char) : rooted (orRoot path) = rooted path := by
  cases path <;> rfl

theorem head?_ne_slash {segment : List Char} (h : '/' ∉ segment) : segment.head? ≠ some '/' :=
  fun hhead => h (List.mem_of_mem_head? hhead)

/-- A resolved path has one slash in front. -/
theorem Evaluated.single {base path : List Char} {front : List (List Char)} {last : List Char}
    (h : Evaluated base path front last) : ¬ ['/', '/'] <+: rooted (joinWith '/' (front ++ [last])) := by
  have hsecond : ∀ cs : List Char, cs.head? ≠ some '/' → ¬ ['/', '/'] <+: '/' :: cs := by
    rintro cs hcs ⟨more, hmore⟩
    rw [List.cons_append, List.cons.injEq] at hmore
    rw [← hmore.2] at hcs
    exact hcs rfl
  have hroot : ∀ cs : List Char, cs.head? ≠ some '/' → ¬ ['/', '/'] <+: rooted cs := by
    intro cs hcs
    rw [rooted, if_neg (by simpa using hcs)]
    exact hsecond cs hcs
  cases front with
  | nil => exact hroot last (head?_ne_slash h.drawn_last.1)
  | cons first inner =>
    by_cases hfirst : first = []
    · -- the root: the next segment is the last one, or not empty
      subst hfirst
      have hnext : (joinWith '/' (inner ++ [last])).head? ≠ some '/' := by
        cases inner with
        | nil => exact head?_ne_slash h.drawn_last.1
        | cons next inner =>
          rw [List.cons_append, Text.head?_joinWith (h.inner next List.mem_cons_self)]
          exact head?_ne_slash (h.drawn next (by simp)).1
      rw [List.cons_append, Text.joinWith_cons _ _ (by simp), List.nil_append, rooted_of_head rfl]
      exact hsecond _ hnext
    · -- the first segment is not empty and gets the slash
      refine hroot _ ?_
      rw [List.cons_append, Text.head?_joinWith hfirst]
      exact head?_ne_slash (h.drawn first List.mem_cons_self).1

/-- **A resolved path is one that a URL of the web can have.** -/
theorem rooted_joinPath (base : List Char) {path : List Char} (h : path.head? ≠ some '/') :
    joinPath base path ≠ [] ∧ (rooted (joinPath base path)).head? = some '/' ∧
      ¬ ['/', '/'] <+: rooted (joinPath base path) ∧
      (afterLast '/' (rooted (joinPath base path)) = [] ∨
        afterLast '/' (rooted (joinPath base path)) = afterLast '/' path) ∧
      ∀ c ∈ rooted (joinPath base path), c = '/' ∨ c ∈ base ∨ c ∈ path := by
  obtain ⟨front, last, hjoin, heval⟩ := joinPath_eq base h
  have hlast := Text.afterLast_joinWith front heval.drawn_last.1
  have hchars : ∀ c ∈ joinWith '/' (front ++ [last]), c = '/' ∨ c ∈ base ∨ c ∈ path := by
    intro c hc
    refine (Text.mem_joinWith hc).imp_right fun ⟨piece, hpiece, hc⟩ => ?_
    rcases List.mem_append.mp hpiece with hpiece | hpiece
    · exact (heval.drawn piece hpiece).2 c hc
    · rw [List.mem_singleton.mp hpiece] at hc
      exact heval.drawn_last.2 c hc
  rw [hjoin, rooted_orRoot]
  refine ⟨?_, ?_, heval.single, ?_, ?_⟩
  · -- it is not empty
    unfold orRoot
    split <;> simp_all
  · -- it starts with a slash
    unfold rooted
    split <;> simp_all
  · -- its last segment is that of the reference, or empty
    have hrooted : afterLast '/' (rooted (joinWith '/' (front ++ [last]))) = last := by
      unfold rooted
      split
      · exact hlast
      · rw [Text.afterLast_cons_self, hlast]
    rw [hrooted]
    exact heval.last_eq
  · -- its characters are slashes and those of the two paths
    intro c hc
    unfold rooted at hc
    split at hc
    · exact hchars c hc
    · exact (List.mem_cons.mp hc).elim .inl (hchars c)

-- ---------------------------------------------------------------------------
-- References
-- ---------------------------------------------------------------------------

/-- A reference that starts with a dot has neither a scheme nor an authority. -/
theorem parseReference_dot {reference : List Char} (h : reference.head? = some '.') (default : List Char) :
    parseReference default reference = .ok (behind default [] (unbreak reference)) ∧
      (unbreak reference).head? = some '.' := by
  obtain ⟨rest, rfl⟩ := List.head?_eq_some_iff.mp h
  have hdot : unbreak ('.' :: rest) = '.' :: unbreak rest := rfl
  have hscheme : cutScheme default ('.' :: unbreak rest) = (default, '.' :: unbreak rest) := by
    have hcut : (cutFirst ':' ('.' :: unbreak rest)).1.head? = some '.' := rfl
    unfold cutScheme
    split
    · rename_i scheme behind hsplit
      rw [hsplit] at hcut
      simp only at hcut
      rw [hcut]
      rfl
    · rfl
  refine ⟨?_, rfl⟩
  rw [parseReference_eq, readable_cons (by decide), hdot, hscheme]
  rfl

/-- A cut at a separator that is not in front keeps the first character. -/
theorem head?_cutFirst {separator : Char} {cs : List Char} (h : cs.head? ≠ some separator) :
    (cutFirst separator cs).1.head? = cs.head? := by
  show (cs.takeWhile (· != separator)).head? = cs.head?
  rw [List.head?_takeWhile]
  cases cs with
  | nil => rfl
  | cons c rest =>
    have hc : (c != separator) = true := by simpa using h
    simp [Option.filter, hc]

/-- So does cutting parameters off. -/
theorem head?_cutParams {path : List Char} (h : path.head? ≠ some ';') : (cutParams path).1.head? = path.head? := by
  show (throughLast '/' path ++ (cutFirst ';' (afterLast '/' path)).1).head? = path.head?
  have hpath := Text.throughLast_append_afterLast '/' path
  by_cases hnil : throughLast '/' path = []
  · rw [hnil, List.nil_append] at hpath ⊢
    rw [head?_cutFirst (by rw [hpath]; exact h), hpath]
  · rw [List.head?_append_of_ne_nil _ hnil, ← List.head?_append_of_ne_nil _ hnil, hpath]

/-- The path of a reference that starts with a dot starts with it. -/
theorem head?_path_behind {scheme : List Char} (hscheme : hasScheme parameterSchemes scheme = true)
    (authority : List Char) {rest : List Char} (h : rest.head? = some '.') :
    (behind scheme authority rest).path.head? = some '.' := by
  have hfragment : (cutFirst '#' rest).1.head? = some '.' := by
    rw [head?_cutFirst (by simp [h]), h]
  have hquery : (cutFirst '?' (cutFirst '#' rest).1).1.head? = some '.' := by
    rw [head?_cutFirst (by simp [hfragment]), hfragment]
  unfold behind
  simp only [hscheme, if_true]
  rw [head?_cutParams (by simp [hquery]), hquery]

/-- The result of joining, if both parse, the scheme is that of the base and it is hierarchical. -/
theorem join_of_parse {location specifier : String} (hlocation : location ≠ "") (hspecifier : specifier ≠ "")
    {base target : Parts} (hbase : parse location.toList = .ok base)
    (htarget : parseReference base.scheme specifier.toList = .ok target) (hsame : target.scheme = base.scheme)
    (hscheme : hasScheme hierarchicalSchemes target.scheme = true) :
    join location specifier = .ok (String.ofList (render (joinParts base target))) := by
  rw [← String.isEmpty_eq_false_iff] at hlocation hspecifier
  unfold join
  rw [hlocation, hspecifier, hbase]
  simp [bind, Except.bind, pure, Except.pure, htarget, hsame ▸ hscheme, hsame]

/-- Joining to a base that does not parse fails with the fault of the parse. -/
theorem join_of_parse_error {location specifier : String} (hlocation : location ≠ "") (hspecifier : specifier ≠ "")
    {fault : Fault} (hbase : parse location.toList = .error fault) : join location specifier = .error fault := by
  rw [← String.isEmpty_eq_false_iff] at hlocation hspecifier
  unfold join
  rw [hlocation, hspecifier, hbase]
  rfl

/-- The parts that a reference resolves to relative to a base, with the slash in front of the path. -/
def joined (base target : Parts) : Parts :=
  { target with authority := base.authority, path := rooted (joinPath base.path target.path) }

section Joined

variable {scheme : String} {base target : Parts}

/-- These are the parts of a URL of the web. -/
theorem ofWeb_joined (hscheme : scheme ∈ webSchemes) (htarget : target.scheme = scheme.toList)
    (hauthority : Authority base.authority) (hchecked : checkAuthority base.authority = .ok ())
    (hbaseDivided : base.Divided) (hdivided : target.Divided) (hdot : target.path.head? = some '.')
    {rest reference : List Char} (hbaseWithin : base.Within rest) (hwithin : target.Within reference)
    (hunbroken : Unbroken base.authority ∧ Unbroken rest ∧ Unbroken reference) : (joined base target).OfWeb scheme := by
  obtain ⟨hunbrokenA, hunbrokenB, hunbrokenT⟩ := hunbroken
  obtain ⟨_, hrooted, hsingle, hname, hchars⟩ := rooted_joinPath base.path (by rw [hdot]; decide)
  refine
    { web := hscheme, scheme_eq := htarget, authority := hauthority, checked := hchecked, rooted := hrooted
      single := hsingle, divided := ⟨?_, ?_, hdivided.params, hdivided.query⟩
      unbroken := unbroken_append.mpr ⟨hunbrokenA, ?_⟩ }
  · -- the path has no mark, since neither path has one
    intro c hc
    rcases hchars c hc with rfl | hc | hc
    · decide
    · exact hbaseDivided.path c hc
    · exact hdivided.path c hc
  · -- its last segment has no semicolon
    show ';' ∉ afterLast '/' (rooted (joinPath base.path target.path))
    rcases hname with hname | hname
    · rw [hname]
      exact List.not_mem_nil
    · rw [hname]
      exact hdivided.name
  · -- and nothing in the text is dropped by the parser
    refine Parts.unbroken_written ?_ (hunbrokenT.mono hwithin.params) (hunbrokenT.mono hwithin.query)
      (hunbrokenT.mono hwithin.fragment)
    intro c hc
    rcases hchars c hc with rfl | hc | hc
    · decide
    · exact hunbrokenB c (hbaseWithin.path c hc)
    · exact hunbrokenT c (hwithin.path c hc)

/-- Joining returns these parts, with or without the slash in front of the path, which does not affect the text. -/
theorem render_joinParts (hauthority : target.authority = []) (hdot : target.path.head? = some '.')
    (hweb : (joined base target).OfWeb scheme) : render (joinParts base target) = render (joined base target) := by
  have hpath : target.path.isEmpty = false := by
    cases hnil : target.path with
    | nil =>
      rw [hnil] at hdot
      cases hdot
    | cons c more => rfl
  have hjoin : joinParts base target =
      { target with authority := base.authority, path := joinPath base.path target.path } := by
    rw [joinParts, hauthority, hpath]
    rfl
  have hrelative : target.path.head? ≠ some '/' := by
    rw [hdot]
    decide
  have hne := (rooted_joinPath base.path hrelative).1
  rw [hjoin, render_web hweb hne, render_of_rooted hweb]
  rfl

end Joined

section Dot

variable {scheme : String} {location specifier : String}

theorem location_ne_empty (hlocation : opening scheme <+: location.toList) : location ≠ "" := by
  rintro rfl
  have hnil := List.prefix_nil.mp hlocation
  simp [opening] at hnil

theorem specifier_ne_empty (hdot : specifier.toList.head? = some '.') : specifier ≠ "" := by
  rintro rfl
  cases hdot

/-- **Relative to a URL of the web, a reference that starts with a dot resolves to a URL of the web with the same scheme
and authority.** -/
theorem join_dot (hscheme : scheme ∈ webSchemes) (hlocation : opening scheme <+: location.toList)
    (hdot : specifier.toList.head? = some '.') {origin : Parts} (horigin : parse location.toList = .ok origin) :
    origin.scheme = scheme.toList ∧ ∃ p : Parts, p.OfWeb scheme ∧ p.authority = origin.authority ∧
      join location specifier = .ok (String.ofList (render p)) := by
  obtain ⟨authority, rest, hauthority, hrest, hunbrokenA, hunbrokenR, hread⟩ := readable_of_opening hscheme hlocation
  obtain ⟨hreference, hhead⟩ := parseReference_dot hdot scheme.toList
  have hparse := parse_web hscheme hauthority hrest hread
  have hparams : hasScheme parameterSchemes scheme.toList = true := hasScheme_web (by decide) hscheme
  cases hchecked : checkAuthority authority with
  | error fault =>
    rw [hchecked, horigin] at hparse
    cases hparse
  | ok _ =>
    rw [hchecked] at hparse
    obtain ⟨hbaseDivided, hbaseWithin⟩ := divided_behind hparams authority rest
    obtain ⟨hdivided, hwithin⟩ := divided_behind hparams [] (unbreak specifier.toList)
    have hpath := head?_path_behind hparams [] hhead
    have hweb : (joined (behind scheme.toList authority rest)
        (behind scheme.toList [] (unbreak specifier.toList))).OfWeb scheme :=
      ofWeb_joined hscheme rfl hauthority hchecked hbaseDivided hdivided hpath hbaseWithin hwithin
        ⟨hunbrokenA, hunbrokenR, unbroken_unbreak specifier.toList⟩
    have hjoined := join_of_parse (location_ne_empty hlocation) (specifier_ne_empty hdot) hparse hreference rfl
      (hasScheme_web (by decide) hscheme)
    rw [render_joinParts rfl hpath hweb] at hjoined
    have horigin : origin = behind scheme.toList authority rest := Except.ok.inj (horigin.symm.trans hparse)
    rw [horigin]
    exact ⟨rfl, _, hweb, rfl, hjoined⟩

end Dot

end BlockingCalls.Url
