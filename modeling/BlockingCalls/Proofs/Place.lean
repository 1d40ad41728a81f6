import BlockingCalls.Proofs.Path

/-!
# The place that a path denotes

The meaning of a path below a root is a place: the list of names obtained by walking from the root through its components,
where an empty one or `.` stays, `..` removes the last name, and any other is appended. The normal form of an absolute path
is a function of its place, so paths with the same place have the same normal form; and reading the normal form gives the
place back. Directories and joined paths are spelled with more or fewer slashes, none of which change the place.

## Results

* `normalize_eq_write`  — the normal form of an absolute path is written from its place.
* `ofPath_write`        — reading is inverse to writing.
* `ofPath_join`         — a joined path is walked from the place of its base.
* `ofPath_directory`    — a directory is the place of a path without its last component.
-/

namespace BlockingCalls.Path

open Text (splitOn joinWith afterLast throughLast)

/-- One component of a walk from a place below the root. -/
def go (names : List (List Char)) (component : List Char) : List (List Char) :=
  if component = [] ∨ component = ['.'] then names
  else if component = ['.', '.'] then names.dropLast
  else names ++ [component]

/-- A place below a root of one slash or two: the names on the way to it. -/
structure Place where
  slashes : Nat
  names : List (List Char)
  deriving DecidableEq

namespace Place

/-- Continues the walk through the components of a path. -/
def enter (p : Place) (path : List Char) : Place :=
  { p with names := (splitOn '/' path).foldl go p.names }

/-- The place that a path denotes. -/
def ofPath (path : List Char) : Place :=
  enter ⟨rootSlashes path, []⟩ path

/-- The place of the folder of a path: the walk without its last component. -/
def ofFolder (path : List Char) : Place :=
  ⟨rootSlashes path, (splitOn '/' path).dropLast.foldl go []⟩

/-- The path of a place. -/
def write (p : Place) : String :=
  assemble p.slashes p.names

/-- There is a root, and each name is one that a walk appends. -/
structure Valid (p : Place) : Prop where
  slashes_pos : 0 < p.slashes
  slashes_le : p.slashes ≤ 2
  proper : ∀ name ∈ p.names, Proper name
  ne_back : ∀ name ∈ p.names, name ≠ ['.', '.']

end Place

-- ---------------------------------------------------------------------------
-- Walking
-- ---------------------------------------------------------------------------

theorem go_nil (names : List (List Char)) : go names [] = names :=
  if_pos (.inl rfl)

theorem go_name {name : List Char} (hproper : Proper name) (hback : name ≠ ['.', '.']) (names : List (List Char)) :
    go names name = names ++ [name] := by
  rw [go, if_neg (not_or.mpr ⟨hproper.ne_nil, hproper.ne_dot⟩), if_neg hback]

/-- Names are appended one after the other. -/
theorem foldl_go_names {names : List (List Char)} (hproper : ∀ name ∈ names, Proper name)
    (hback : ∀ name ∈ names, name ≠ ['.', '.']) (before : List (List Char)) :
    names.foldl go before = before ++ names := by
  induction names generalizing before with
  | nil => simp
  | cons name names ih =>
    rw [List.forall_mem_cons] at hproper hback
    rw [List.foldl_cons, go_name hproper.1 hback.1, ih hproper.2 hback.2, List.append_assoc]
    rfl

/-- Slashes alone change nothing. -/
theorem foldl_go_slashes {cs : List Char} (h : ∀ c ∈ cs, c = '/') (names : List (List Char)) :
    (splitOn '/' cs).foldl go names = names := by
  have hempty : ∀ piece ∈ splitOn '/' cs, piece = [] := by
    intro piece hpiece
    refine List.eq_nil_iff_forall_not_mem.mpr fun c hc => ?_
    have hslash := h c (Text.mem_of_mem_splitOn hpiece hc)
    exact Text.not_mem_of_mem_splitOn hpiece (hslash ▸ hc)
  generalize splitOn '/' cs = pieces at hempty
  induction pieces with
  | nil => rfl
  | cons piece pieces ih =>
    rw [List.forall_mem_cons] at hempty
    rw [List.foldl_cons, hempty.1, go_nil, ih hempty.2]

/-- A walk has names that a walk appends. -/
theorem valid_foldl_go {names components : List (List Char)} (hnames : ∀ name ∈ names, Proper name ∧ name ≠ ['.', '.'])
    (hcomponents : ∀ component ∈ components, '/' ∉ component) :
    ∀ name ∈ components.foldl go names, Proper name ∧ name ≠ ['.', '.'] := by
  induction components generalizing names with
  | nil => exact hnames
  | cons component components ih =>
    rw [List.forall_mem_cons] at hcomponents
    refine ih ?_ hcomponents.2
    intro name hname
    unfold go at hname
    split at hname
    · exact hnames name hname
    · next hkeep =>
      rw [not_or] at hkeep
      split at hname
      · -- `..` removes a name
        exact hnames name (List.dropLast_subset _ hname)
      · next hback =>
        rcases List.mem_append.mp hname with hname | hname
        · exact hnames name hname
        · -- the component that was appended
          rw [List.mem_singleton.mp hname]
          exact ⟨⟨hkeep.1, hkeep.2, hcomponents.1⟩, hback⟩

-- ---------------------------------------------------------------------------
-- Normal forms below a root
-- ---------------------------------------------------------------------------

/-- **Below a root, taking a segment is a step of the walk**; the segments taken stand in reverse. -/
theorem reverse_takeSegment {taken : List (List Char)} (h : ['.', '.'] ∉ taken) (segment : List Char) :
    (takeSegment true taken segment).reverse = go taken.reverse segment ∧ ['.', '.'] ∉ takeSegment true taken segment := by
  unfold takeSegment go
  split
  · exact ⟨rfl, h⟩
  · split
    · cases taken with
      | nil =>
        -- there is nothing to take back at the root
        exact ⟨rfl, h⟩
      | cons last before =>
        rw [List.mem_cons, not_or] at h
        simp only
        rw [if_neg (Ne.symm h.1), List.reverse_cons, List.dropLast_concat]
        exact ⟨rfl, h.2⟩
    · next hback => exact ⟨List.reverse_cons, by simp [h, Ne.symm hback]⟩

/-- So are several segments. -/
theorem reverse_foldl_takeSegment {taken : List (List Char)} (h : ['.', '.'] ∉ taken) (segments : List (List Char)) :
    (segments.foldl (takeSegment true) taken).reverse = segments.foldl go taken.reverse := by
  induction segments generalizing taken with
  | nil => rfl
  | cons segment segments ih =>
    obtain ⟨hstep, hnone⟩ := reverse_takeSegment h segment
    rw [List.foldl_cons, List.foldl_cons, ih hnone, hstep]

/-- An absolute path has a root. -/
theorem rootSlashes_pos {path : String} (h : isAbsolute path = true) : 0 < rootSlashes path.toList := by
  obtain ⟨rest, hrest⟩ := List.head?_eq_some_iff.mp (beq_iff_eq.mp h)
  rw [hrest]
  unfold rootSlashes
  split <;> simp_all

/-- **The normal form of an absolute path is written from its place.** -/
theorem normalize_eq_write {path : String} (h : isAbsolute path = true) :
    normalize path = (Place.ofPath path.toList).write := by
  have hrooted : (rootSlashes path.toList != 0) = true := bne_iff_ne.mpr (rootSlashes_pos h).ne'
  rw [normalize]
  simp only [hrooted, reverse_foldl_takeSegment List.not_mem_nil]
  rfl

theorem valid_enter {p : Place} (h : p.Valid) (path : List Char) : (p.enter path).Valid := by
  have hnames := valid_foldl_go (fun name hname => ⟨h.proper name hname, h.ne_back name hname⟩)
    fun component (hcomponent : component ∈ splitOn '/' path) => Text.not_mem_of_mem_splitOn hcomponent
  exact ⟨h.slashes_pos, h.slashes_le, fun name hname => (hnames name hname).1, fun name hname => (hnames name hname).2⟩

theorem valid_root {path : String} (h : isAbsolute path = true) : Place.Valid ⟨rootSlashes path.toList, []⟩ :=
  ⟨rootSlashes_pos h, rootSlashes_le _, List.forall_mem_nil _, List.forall_mem_nil _⟩

theorem valid_ofPath {path : String} (h : isAbsolute path = true) : (Place.ofPath path.toList).Valid :=
  valid_enter (valid_root h) path.toList

-- ---------------------------------------------------------------------------
-- Reading what was written
-- ---------------------------------------------------------------------------

/-- The components of the path of a place: empty ones for the root, then the names. -/
theorem splitOn_write {slashes : Nat} {init : List (List Char)} {last : List Char} (hinit : ∀ s ∈ init, Proper s)
    (hlast : Proper last) :
    splitOn '/' (assemble slashes (init ++ [last])).toList = List.replicate slashes [] ++ (init ++ [last]) := by
  have hsplit := @splitOn_assemble_append slashes init last hinit hlast ""
  rw [String.append_empty] at hsplit
  rw [hsplit]
  simp [splitOn]

/-- **Reading is inverse to writing.** -/
theorem ofPath_write {p : Place} (h : p.Valid) : Place.ofPath p.write.toList = p := by
  obtain ⟨slashes, names⟩ := p
  have hpos : 0 < slashes := h.slashes_pos
  have hle : slashes ≤ 2 := h.slashes_le
  rcases List.eq_nil_or_concat' names with rfl | ⟨init, last, rfl⟩
  · -- the root itself
    obtain rfl | rfl : slashes = 1 ∨ slashes = 2 := by omega
    · rfl
    · rfl
  · have hinit : ∀ s ∈ init, Proper s := fun s hs => h.proper s (by simp [hs])
    have hlast : Proper last := h.proper last (by simp)
    have hslashes := rootSlashes_assemble_append hle hinit hlast ""
    rw [String.append_empty] at hslashes
    -- the empty components of the root change nothing
    have hroot : (List.replicate slashes ([] : List Char)).foldl go [] = [] := by
      clear hslashes h hpos hle
      induction slashes with
      | zero => rfl
      | succ n ih => rw [List.replicate_succ, List.foldl_cons, go_nil, ih]
    unfold Place.ofPath Place.enter Place.write
    simp only
    rw [hslashes, splitOn_write hinit hlast, List.foldl_append, hroot, foldl_go_names h.proper h.ne_back]
    rfl

/-- What is written is absolute. -/
theorem isAbsolute_write {p : Place} (h : p.Valid) : isAbsolute p.write = true := by
  obtain ⟨n, hn⟩ := Nat.exists_eq_add_one.mpr h.slashes_pos
  unfold isAbsolute Place.write assemble
  rw [hn, List.replicate_succ, List.cons_append]
  simp only [String.toList_ofList]
  rfl

/-- What is written is in normal form. -/
theorem normalize_write {p : Place} (h : p.Valid) : normalize p.write = p.write := by
  rw [normalize_eq_write (isAbsolute_write h), ofPath_write h]

-- ---------------------------------------------------------------------------
-- Joining and directories
-- ---------------------------------------------------------------------------

/-- Text that does not begin with a slash has no leading ones. -/
theorem takeWhile_slash_eq_nil {cs : List Char} (h : cs.head? ≠ some '/') : cs.takeWhile (· == '/') = [] := by
  cases cs with
  | nil => rfl
  | cons c rest =>
    have hc : c ≠ '/' := fun hc => h (congrArg some hc)
    exact List.takeWhile_cons_of_neg (by simpa using hc)

/-- The root in terms of the number of leading slashes. -/
theorem rootSlashes_eq (cs : List Char) :
    rootSlashes cs =
      if (cs.takeWhile (· == '/')).length ≤ 2 then (cs.takeWhile (· == '/')).length else 1 := by
  have hnone : ∀ rest : List Char, (∀ more, rest ≠ '/' :: more) → rest.takeWhile (· == '/') = [] := by
    intro rest hrest
    refine takeWhile_slash_eq_nil fun hhead => ?_
    obtain ⟨more, hmore⟩ := List.head?_eq_some_iff.mp hhead
    exact hrest more hmore
  unfold rootSlashes
  split
  · simp
  · next rest hrest => simp [hnone rest fun more hmore => hrest more hmore]
  · next rest _ hrest => simp [hnone rest fun more hmore => hrest more hmore]
  · next hrest => simp [hnone cs fun more hmore => hrest more hmore]

/-- The root is determined by the leading slashes. -/
theorem rootSlashes_append {front back : List Char} (h : back.head? ≠ some '/' ∨ ∃ c ∈ front, c ≠ '/') :
    rootSlashes (front ++ back) = rootSlashes front := by
  have hsame : (front ++ back).takeWhile (· == '/') = front.takeWhile (· == '/') := by
    rw [List.takeWhile_append]
    split
    · next hall =>
      have hfront : front.takeWhile (· == '/') = front := (List.takeWhile_prefix _).eq_of_length hall
      rcases h with hback | ⟨c, hc, hne⟩
      · rw [takeWhile_slash_eq_nil hback, List.append_nil, hfront]
      · exact absurd (beq_iff_eq.mp (List.takeWhile_eq_self_iff.mp hfront c hc)) hne
    · rfl
  rw [rootSlashes_eq, hsame, ← rootSlashes_eq]

namespace Place

theorem enter_append_slash (p : Place) (front back : List Char) :
    p.enter (front ++ '/' :: back) = (p.enter front).enter back := by
  unfold enter
  rw [Text.splitOn_append_cons, List.foldl_append]

/-- Trailing slashes change nothing. -/
theorem enter_append_slashes (p : Place) (front : List Char) {slashes : List Char} (h : ∀ c ∈ slashes, c = '/') :
    p.enter (front ++ slashes) = p.enter front := by
  cases slashes with
  | nil => rw [List.append_nil]
  | cons c slashes =>
    rw [List.forall_mem_cons] at h
    rw [h.1, enter_append_slash]
    unfold enter
    rw [foldl_go_slashes h.2]

end Place

/-- **A relative path is walked from the place of its base.** -/
theorem ofPath_join {base path : String} (hbase : isAbsolute base = true) (hpath : path.toList.head? ≠ some '/') :
    Place.ofPath (join base path).toList = (Place.ofPath base.toList).enter path.toList := by
  have hrelative : isAbsolute path = false := by
    rw [isAbsolute, beq_eq_false_iff_ne]
    exact hpath
  have hnil : base.toList ≠ [] := by
    intro hnil
    rw [isAbsolute, hnil] at hbase
    cases hbase
  have hne : base.isEmpty = false := by
    rw [String.isEmpty_eq_false_iff]
    rintro rfl
    exact hnil rfl
  by_cases hlast : base.toList.getLast? = some '/'
  · -- the slash is there already
    obtain ⟨front, hfront⟩ := List.getLast?_eq_some_iff.mp hlast
    have hjoin : (join base path).toList = base.toList ++ path.toList := by
      simp [join, hrelative, hne, hlast]
    have hbase : Place.ofPath base.toList = Place.enter ⟨rootSlashes base.toList, []⟩ front := by
      rw [Place.ofPath, hfront, Place.enter_append_slashes _ _ (by simp)]
    rw [hbase, hjoin, Place.ofPath, rootSlashes_append (.inl hpath), hfront, List.append_assoc]
    exact Place.enter_append_slash ..
  · -- a slash is put between
    have hjoin : (join base path).toList = base.toList ++ '/' :: path.toList := by
      simp [join, hrelative, hne, hlast]
    have hname : ∃ c ∈ base.toList, c ≠ '/' := by
      obtain ⟨c, hc⟩ := Option.ne_none_iff_exists'.mp (fun h => hnil (List.getLast?_eq_none_iff.mp h))
      exact ⟨c, List.mem_of_getLast? hc, fun h => hlast (h ▸ hc)⟩
    rw [hjoin, Place.ofPath, rootSlashes_append (.inr hname), Place.enter_append_slash]
    rfl

/-- A directory is spelled like the text up to the last slash, except for trailing slashes. -/
theorem directory_spelling (path : String) :
    ∃ slashes, throughLast '/' path.toList = (directory path).toList ++ slashes ∧ (∀ c ∈ slashes, c = '/') ∧
      (slashes = [] ∨ ∃ c ∈ (directory path).toList, c ≠ '/') := by
  unfold directory
  simp only
  split
  · exact ⟨[], by simp, by simp, .inl rfl⟩
  · next hname =>
    have hparts := List.takeWhile_append_dropWhile (p := (· == '/')) (l := (throughLast '/' path.toList).reverse)
    have hslashes : ∀ c ∈ ((throughLast '/' path.toList).reverse.takeWhile (· == '/')).reverse, c = '/' := by
      intro c hc
      have hslash := List.mem_takeWhile_imp (List.mem_reverse.mp hc)
      exact beq_iff_eq.mp hslash
    have hhead : throughLast '/' path.toList =
        ((throughLast '/' path.toList).reverse.dropWhile (· == '/')).reverse ++
          ((throughLast '/' path.toList).reverse.takeWhile (· == '/')).reverse := by
      rw [← List.reverse_append, hparts, List.reverse_reverse]
    rw [String.toList_ofList]
    refine ⟨_, hhead, hslashes, .inr ?_⟩
    -- else the text would be slashes alone
    by_contra hnone
    push Not at hnone
    refine hname (List.all_eq_true.mpr fun c hc => beq_iff_eq.mpr ?_)
    rw [hhead] at hc
    exact (List.mem_append.mp hc).elim (hnone c) (hslashes c)

/-- **The directory of an absolute path is absolute, and its place is that of the folder.** -/
theorem ofPath_directory {path : String} (h : isAbsolute path = true) :
    isAbsolute (directory path) = true ∧ Place.ofPath (directory path).toList = Place.ofFolder path.toList := by
  have hslash : '/' ∈ path.toList := List.mem_of_mem_head? (beq_iff_eq.mp h)
  obtain ⟨front, hhead, hpath⟩ := Text.exists_eq_append_cons hslash
  have hlast := Text.not_mem_afterLast '/' path.toList
  generalize afterLast '/' path.toList = last at hpath hlast
  obtain ⟨slashes, hspelled, hslashes, hname⟩ := directory_spelling path
  have hwhole : path.toList = (directory path).toList ++ (slashes ++ last) := by
    rw [← List.append_assoc, ← hspelled, hhead, hpath, List.append_assoc]
    rfl
  -- what is cut off does not belong to the leading slashes
  have hroot : rootSlashes path.toList = rootSlashes (directory path).toList := by
    rw [hwhole]
    refine rootSlashes_append (hname.imp_left fun hnil => ?_)
    rw [hnil, List.nil_append]
    exact fun hfirst => hlast (List.mem_of_mem_head? hfirst)
  have hne : (directory path).toList ≠ [] := by
    rcases hname with hnil | ⟨c, hc, _⟩
    · rw [hnil, List.append_nil, hhead] at hspelled
      rw [← hspelled]
      simp
    · exact List.ne_nil_of_mem hc
  constructor
  · rwa [isAbsolute, hwhole, List.head?_append_of_ne_nil _ hne] at h
  · -- the last component is cut off, and the slashes before it change nothing
    have hfolder : Place.ofFolder path.toList = Place.enter ⟨rootSlashes path.toList, []⟩ front := by
      rw [Place.ofFolder, Place.enter]
      simp only
      nth_rewrite 2 [hpath]
      rw [Text.splitOn_append_cons, Text.splitOn_of_not_mem hlast, List.dropLast_concat]
    rw [hfolder, hroot, Place.ofPath, ← Place.enter_append_slashes _ _ hslashes, ← hspelled, hhead,
      Place.enter_append_slashes _ _ (by simp)]

end BlockingCalls.Path
