import BlockingCalls.Proofs.Canonical

/-!
# Ignored imports

An ignore rule is a glob over the text of a path, but its meaning is a condition on the names on the path. A rule for a
directory, `name/`, should match the paths that have the directory among the names before the last one, and no others: not
a file of that name, not a name of which it is a proper beginning or end, and not a directory that `..` removes, since rules
are applied to paths in normal form.

To relate the two one has to deal with the leading slashes of a path, which are dropped before a rule is applied, and with
the wildcard for leading directories, which leaves every rest behind a slash that is not the first character. The wildcard
does not match a line end, so the results are about paths on one line.

## Results

* `mem_rests_leadingDirectories`   — the rests that the wildcard for leading directories leaves.
* `matchesFrom_directory`          — a rule for a directory matches if its name is a piece before the last one.
* `ignore_write_iff`               — such a rule, applied to the path of a place.
* `ignored_iff_below_node_modules` — the imports that are skipped by default.
-/

namespace BlockingCalls

-- ---------------------------------------------------------------------------
-- Rules for a directory
-- ---------------------------------------------------------------------------

namespace Ignore

open Text (splitOn joinWith EndsPiece)

/-- On one line, the rests behind slashes are the rests behind any slash. -/
theorem mem_rootedRests_iff {cs rest : List Char} (hline : '\n' ∉ cs) :
    rest ∈ rootedRests cs ↔ ∃ front, cs = front ++ '/' :: rest := by
  induction cs with
  | nil => simp [rootedRests]
  | cons c cs ih =>
    rw [List.mem_cons, not_or] at hline
    rw [rootedRests, if_neg (Ne.symm hline.1)]
    constructor
    · -- a rest is behind the first slash, or behind a later one
      intro hmem
      split at hmem
      · next hslash =>
        rcases List.mem_cons.mp hmem with rfl | hlater
        · exact ⟨[], by rw [hslash, List.nil_append]⟩
        · obtain ⟨front, rfl⟩ := (ih hline.2).mp hlater
          exact ⟨c :: front, rfl⟩
      · obtain ⟨front, rfl⟩ := (ih hline.2).mp hmem
        exact ⟨c :: front, rfl⟩
    · -- conversely, by whether the slash is the first character
      rintro ⟨front, hfront⟩
      cases front with
      | nil =>
        obtain ⟨rfl, rfl⟩ := List.cons.inj hfront
        rw [if_pos rfl]
        exact List.mem_cons_self
      | cons d front =>
        have hlater : rest ∈ rootedRests cs := (ih hline.2).mpr ⟨front, (List.cons.inj hfront).2⟩
        split
        · exact List.mem_cons_of_mem _ hlater
        · exact hlater

/-- **The wildcard for leading directories** leaves the path itself, and what follows a slash that is not its first
character. -/
theorem mem_rests_leadingDirectories {path rest : List Char} (hline : '\n' ∉ path) (hroot : path.head? ≠ some '/') :
    rest ∈ Piece.leadingDirectories.rests path ↔ ∃ front, EndsPiece '/' front ∧ path = front ++ rest := by
  cases path with
  | nil =>
    rw [Piece.rests, List.mem_singleton]
    constructor
    · rintro rfl
      exact ⟨[], .inl rfl, rfl⟩
    · rintro ⟨front, _, hfront⟩
      exact (List.append_eq_nil_iff.mp hfront.symm).2
  | cons c cs =>
    rw [List.mem_cons, not_or] at hline
    rw [Piece.rests, if_neg (Ne.symm hline.1), List.mem_cons, mem_rootedRests_iff hline.2]
    constructor
    · rintro (rfl | ⟨before, rfl⟩)
      · exact ⟨[], .inl rfl, rfl⟩
      · exact ⟨c :: before ++ ['/'], .inr ⟨_, rfl⟩, by simp⟩
    · rintro ⟨front, rfl | ⟨before, rfl⟩, hpath⟩
      · exact .inl hpath.symm
      · cases before with
        | nil => exact absurd (congrArg List.head? hpath) hroot
        | cons d before =>
          refine .inr ⟨before, ?_⟩
          rw [(List.cons.inj hpath).2]
          simp

/-- Literal characters are cut off at the front. -/
theorem matchesFrom_chars (name : List Char) (ending : Ending) (path : List Char) :
    matchesFrom (name.map .char) ending path = true ↔ ∃ rest, path = name ++ rest ∧ ending.accepts rest = true := by
  induction name generalizing path with
  | nil => simp [matchesFrom]
  | cons c name ih =>
    rw [List.map_cons, matchesFrom, List.any_eq_true]
    cases path with
    | nil => simp [Piece.rests]
    | cons d path =>
      rw [Piece.rests]
      by_cases hc : d = c
      · simp [hc, ih]
      · simp [hc]

theorem accepts_below_iff (rest : List Char) : Ending.below.accepts rest = true ↔ ∃ more, rest = '/' :: more := by
  rw [Ending.accepts, beq_iff_eq, List.head?_eq_some_iff]

/-- **A rule for a directory matches a path if and only if the name is a piece of it, and not the last one.** -/
theorem matchesFrom_directory {name path : List Char} (hname : '/' ∉ name) (hline : '\n' ∉ path)
    (hroot : path.head? ≠ some '/') :
    matchesFrom (.leadingDirectories :: name.map .char) .below path = true ↔ name ∈ (splitOn '/' path).dropLast := by
  rw [matchesFrom, List.any_eq_true, Text.mem_dropLast_splitOn_iff hname]
  constructor
  · rintro ⟨rest, hrest, hmatches⟩
    obtain ⟨front, hfront, hpath⟩ := (mem_rests_leadingDirectories hline hroot).mp hrest
    obtain ⟨below, rfl, hbelow⟩ := (matchesFrom_chars _ _ _).mp hmatches
    obtain ⟨more, rfl⟩ := (accepts_below_iff _).mp hbelow
    exact ⟨front, more, hfront, hpath⟩
  · rintro ⟨front, more, hfront, hpath⟩
    exact ⟨_, (mem_rests_leadingDirectories hline hroot).mpr ⟨front, hfront, hpath⟩,
      (matchesFrom_chars _ _ _).mpr ⟨_, rfl, rfl⟩⟩

/-- A path whose first name is proper is matched as it is. -/
theorem relativePath_eq_self {first path : List Char} {rest : List (List Char)} (hpieces : splitOn '/' path = first :: rest)
    (hfirst : Path.Proper first) : relativePath path = path := by
  unfold relativePath
  split
  · -- the path does not begin with a slash
    rw [splitOn, if_pos rfl] at hpieces
    exact absurd (List.cons.inj hpieces).1.symm hfirst.ne_nil
  · next more =>
    rw [show '.' :: '/' :: more = ['.'] ++ '/' :: more from rfl, Text.splitOn_append_cons] at hpieces
    exact absurd (List.cons.inj hpieces).1.symm hfirst.ne_dot
  · -- any other path is left unchanged
    rfl

/-- The rule for a directory. -/
def Rule.ofDirectory (name : List Char) : Rule :=
  { ignores := true, matcher := .glob (.leadingDirectories :: name.map .char) .below }

/-- The rule for a directory ignores a path of proper names if and only if the directory is one of them, and not the
last one. -/
theorem ignore_ofDirectory_iff {name : List Char} (hname : '/' ∉ name) {names : List (List Char)} (hne : names ≠ [])
    (hproper : ∀ n ∈ names, Path.Proper n) (hline : ∀ n ∈ names, '\n' ∉ n) :
    Rules.ignore [.ofDirectory name] (String.ofList (joinWith '/' names)) = true ↔ name ∈ names.dropLast := by
  obtain ⟨first, rest, rfl⟩ := List.exists_cons_of_ne_nil hne
  have hfirst : Path.Proper first := hproper first List.mem_cons_self
  have hpieces : splitOn '/' (joinWith '/' (first :: rest)) = first :: rest :=
    Text.splitOn_joinWith (fun n hn => (hproper n hn).no_slash) hne
  have hpath : '\n' ∉ joinWith '/' (first :: rest) := by
    intro hmem
    rcases Text.mem_joinWith hmem with hslash | ⟨n, hn, hc⟩
    · exact absurd hslash (by decide)
    · exact hline n hn hc
  have hroot := Text.head?_joinWith_ne hfirst.ne_nil hfirst.no_slash rest
  have hdirectory := matchesFrom_directory hname hpath hroot
  rw [hpieces] at hdirectory
  rw [← hdirectory, Rules.ignore, String.toList_ofList, relativePath_eq_self hpieces hfirst]
  cases hmatches : matchesFrom (.leadingDirectories :: name.map .char) .below (joinWith '/' (first :: rest)) <;>
    simp [Rule.ofDirectory, Matcher.accepts, hmatches]

/-- The default patterns are one rule for a directory. -/
theorem rulesOf_default : rulesOf ({} : Config).ignorePatterns = .ok [.ofDirectory "node_modules".toList] := by
  decide +kernel

end Ignore

-- ---------------------------------------------------------------------------
-- Names on a path
-- ---------------------------------------------------------------------------

namespace Path

open Text (splitOn joinWith)

/-- The names on a path: the pieces between its slashes that are not empty. -/
def components (path : String) : List (List Char) :=
  (splitOn '/' path.toList).filter (· ≠ [])

/-- The names on the path of a place are those of the place. -/
theorem components_write {p : Place} (h : p.Valid) : components p.write = p.names := by
  obtain ⟨slashes, names⟩ := p
  have hpos : 0 < slashes := h.slashes_pos
  have hle : slashes ≤ 2 := h.slashes_le
  rcases List.eq_nil_or_concat' names with rfl | ⟨init, last, rfl⟩
  · obtain rfl | rfl : slashes = 1 ∨ slashes = 2 := by omega
    · rfl
    · rfl
  · have hinit : ∀ s ∈ init, Proper s := fun s hs => h.proper s (by simp [hs])
    have hnames : ∀ s ∈ init ++ [last], decide (s ≠ []) = true := fun s hs => decide_eq_true (h.proper s hs).ne_nil
    unfold components Place.write
    rw [splitOn_write hinit (h.proper last (by simp)), List.filter_append, List.filter_eq_self.mpr hnames,
      List.filter_eq_nil_iff.mpr (by simp), List.nil_append]

/-- A walk has no names but those of its place and the components. -/
theorem mem_foldl_go {names components : List (List Char)} {name : List Char} (h : name ∈ components.foldl go names) :
    name ∈ names ∨ name ∈ components := by
  induction components generalizing names with
  | nil => exact .inl h
  | cons component components ih =>
    rcases ih h with hgone | hlater
    · unfold go at hgone
      split at hgone
      · exact .inl hgone
      · split at hgone
        · exact .inl (List.dropLast_subset _ hgone)
        · rw [List.mem_append, List.mem_singleton] at hgone
          exact hgone.imp_right fun (heq : name = component) => heq ▸ List.mem_cons_self
    · exact .inr (List.mem_cons_of_mem _ hlater)

/-- The characters of the names of an import occur in the location or in the specifier. -/
theorem mem_of_mem_ofImport {location specifier : String} {name : List Char} {c : Char}
    (hname : name ∈ (Place.ofImport location specifier).names) (hc : c ∈ name) :
    c ∈ location.toList ∨ c ∈ specifier.toList := by
  rcases mem_foldl_go hname with hfolder | hspecifier
  · rcases mem_foldl_go hfolder with hnone | hlocation
    · cases hnone
    · exact .inl (Text.mem_of_mem_splitOn (List.dropLast_subset _ hlocation) hc)
  · exact .inr (Text.mem_of_mem_splitOn hspecifier hc)

/-- The extension has no line end. -/
theorem no_line_end_completed_ts {p : Place} (h : ∀ name ∈ p.names, '\n' ∉ name) :
    ∀ name ∈ (p.completed ".ts".toList).names, '\n' ∉ name := by
  intro name hname
  have hlast : '\n' ∉ p.names.getLast?.getD [] := by
    cases hlast : p.names.getLast? with
    | none => exact List.not_mem_nil
    | some last => exact h last (List.mem_of_getLast? hlast)
  rcases List.mem_append.mp hname with hinit | hcomplete
  · exact h name (List.dropLast_subset _ hinit)
  · rw [List.mem_singleton.mp hcomplete]
    unfold complete
    split
    · simp [hlast]
    · exact hlast

end Path

-- ---------------------------------------------------------------------------
-- Default rules
-- ---------------------------------------------------------------------------

open BlockingCalls.Path (Place Proper)

namespace Resolver

/-- Without its leading slashes the path of a place consists of its names. -/
theorem dropSlashes_write {slashes : Nat} {first : List Char} {names : List (List Char)} (hfirst : Proper first) :
    dropSlashes (Place.write ⟨slashes, first :: names⟩) = String.ofList (Text.joinWith '/' (first :: names)) := by
  have hhead := Text.head?_joinWith_ne hfirst.ne_nil hfirst.no_slash names
  have hwritten : Place.write ⟨slashes, first :: names⟩ =
      String.ofList (List.replicate slashes '/' ++ Text.joinWith '/' (first :: names)) :=
    @Path.assemble_eq slashes [] first hfirst.ne_nil names
  have hslashes : ∀ c ∈ List.replicate slashes '/', (c == '/') = true := by simp
  rw [dropSlashes, hwritten, String.toList_ofList, List.dropWhile_append_of_pos hslashes]
  congr 1
  cases hjoined : Text.joinWith '/' (first :: names) with
  | nil => rfl
  | cons c rest =>
    rw [hjoined] at hhead
    exact List.dropWhile_cons_of_neg (by simpa using hhead)

/-- The rule for a directory ignores the path of a place if and only if a name before the last one is that of the
directory. -/
theorem ignore_write_iff {name : List Char} (hname : '/' ∉ name) {p : Place} (h : p.Valid) (hne : p.names ≠ [])
    (hline : ∀ n ∈ p.names, '\n' ∉ n) :
    Ignore.Rules.ignore [.ofDirectory name] (dropSlashes p.write) = true ↔ name ∈ p.names.dropLast := by
  obtain ⟨slashes, names⟩ := p
  obtain ⟨first, rest, rfl⟩ := List.exists_cons_of_ne_nil hne
  rw [dropSlashes_write (h.proper first List.mem_cons_self)]
  exact Ignore.ignore_ofDirectory_iff hname hne h.proper hline

/-- With a rule for one directory, a relative import of a local module is ignored if and only if its place lies below
such a directory. -/
theorem resolve_of_ofDirectory {r : Resolver} (hconfig : r.config = {}) {name : List Char} (hname : '/' ∉ name)
    (hrules : r.ignore = [.ofDirectory name]) {location specifier : String} (habsolute : Path.isAbsolute location = true)
    (hrelative : specifier.toList.head? = some '.') (hlocation : '\n' ∉ location.toList)
    (hspecifier : '\n' ∉ specifier.toList) {place : Place}
    (hplace : place = (Place.ofImport location specifier).completed ".ts".toList) :
    r.resolve specifier location =
      .ok (if name ∈ place.names.dropLast then .skipped .ignored else .found place.write false) := by
  have hvalid : place.Valid := hplace ▸ Path.valid_completed_ts (Path.normalize_import habsolute hrelative).2
  have hne : place.names ≠ [] := by
    rw [hplace]
    simp [Place.completed]
  have hline : ∀ n ∈ place.names, '\n' ∉ n := by
    rw [hplace]
    refine Path.no_line_end_completed_ts fun n hn hc => ?_
    exact (Path.mem_of_mem_ofImport hn hc).elim hlocation hspecifier
  have hid : place.write = ((Place.ofImport location specifier).completed r.config.defaultExtension.toList).write := by
    rw [hplace, hconfig]
  rw [resolve_of_absolute (by rw [hconfig]) habsolute hrelative hid, hrules]
  simp only [ignore_write_iff hname hvalid hne hline]

/-- The resolver of the default configuration. -/
theorem ofConfig_default :
    ∃ r, ofConfig {} = .ok r ∧ r.config = {} ∧ r.ignore = [.ofDirectory "node_modules".toList] := by
  refine ⟨⟨{}, _⟩, ?_, rfl, rfl⟩
  rw [ofConfig, Ignore.rulesOf_default]
  rfl

/-- **Ignored imports by default.** A relative import of a local module is ignored if and only if, on the path of its
target, a name before the last one is `node_modules`; otherwise it is resolved to that path. The names are those of the
walk from the folder of the importing file along the specifier, where `.` stays and `..` removes the last name, and the
last one is completed with the extension. -/
theorem ignored_iff_below_node_modules :
    ∃ r, ofConfig {} = .ok r ∧
      ∀ location specifier path, Path.isAbsolute location = true → specifier.toList.head? = some '.' →
        '\n' ∉ location.toList → '\n' ∉ specifier.toList →
        path = withExtension {} (Path.normalize (Path.join (Path.directory location) specifier)) →
        (r.resolve specifier location = .ok (.skipped .ignored) ↔
          "node_modules".toList ∈ (Path.components path).dropLast) ∧
        ("node_modules".toList ∉ (Path.components path).dropLast → r.resolve specifier location = .ok (.found path false)) ∧
        Path.components path = ((Place.ofImport location specifier).completed ".ts".toList).names := by
  obtain ⟨r, hr, hconfig, hrules⟩ := ofConfig_default
  refine ⟨r, hr, fun location specifier path habsolute hrelative hlocation hspecifier hpath => ?_⟩
  obtain ⟨hnormal, hvalid⟩ := Path.normalize_import habsolute hrelative
  have hresolve := resolve_of_ofDirectory hconfig (by decide) hrules habsolute hrelative hlocation hspecifier rfl
  have hwritten : path = ((Place.ofImport location specifier).completed ".ts".toList).write := by
    rw [hpath, hnormal]
    exact Path.withExtension_write hvalid {}
  have hcomponents : Path.components path = ((Place.ofImport location specifier).completed ".ts".toList).names := by
    rw [hwritten, Path.components_write (Path.valid_completed_ts hvalid)]
  rw [← hcomponents, ← hwritten] at hresolve
  rw [hresolve]
  refine ⟨?_, ?_, hcomponents⟩
  · split
    · next hbelow => exact iff_of_true rfl hbelow
    · next hbelow => exact iff_of_false (by simp) hbelow
  · intro hbelow
    rw [if_neg hbelow]

/-- The folder of the importing file counts, unless the specifier leaves it; a file of the name and a longer name do
not. -/
theorem ignored_iff_below_node_modules_or_beside :
    ∃ r, ofConfig {} = .ok r ∧
      r.resolve "./b" "/p/node_modules/q/a.ts" = .ok (.skipped .ignored) ∧
      r.resolve ".././../b" "/p/node_modules/q/a.ts" = .ok (.found "/p/b.ts" false) ∧
      r.resolve "./node_modules/" "/p/a.ts" = .ok (.found "/p/node_modules.ts" false) ∧
      r.resolve "./node_modules.d/b" "/p/a.ts" = .ok (.found "/p/node_modules.d/b.ts" false) := by
  obtain ⟨r, hr, h⟩ := ignored_iff_below_node_modules
  have hwithin := h "/p/node_modules/q/a.ts" "./b" "/p/node_modules/q/b.ts" (by decide) (by decide) (by simp) (by simp) rfl
  have hleft := h "/p/node_modules/q/a.ts" ".././../b" "/p/b.ts" (by decide) (by decide) (by simp) (by simp) rfl
  have hfile := h "/p/a.ts" "./node_modules/" "/p/node_modules.ts" (by decide) (by decide) (by simp) (by simp) rfl
  have hlonger := h "/p/a.ts" "./node_modules.d/b" "/p/node_modules.d/b.ts" (by decide) (by decide) (by simp) (by simp) rfl
  exact ⟨r, hr, hwithin.1.mpr (by decide), hleft.2.1 (by decide), hfile.2.1 (by decide), hlonger.2.1 (by decide)⟩

end Resolver

end BlockingCalls
