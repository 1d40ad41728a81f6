import BlockingCalls.Proofs.Segments
import BlockingCalls.Url.Reference

/-!
# URLs of the web in parts

A URL of the web consists of `http` or `https`, an authority and a path that starts with a slash; parameters, a query and
a fragment may follow, each after its own mark. The parser searches for the marks in a fixed order, so the parts must not
contain marks that are cut at later: the path contains no mark of a query or fragment, the parameters contain no slash
either, and the last segment of the path has no semicolon (`Parts.Divided`). For such parts, parsing inverts rendering.

## Results

* `parseReference_eq` — the scheme and the authority are cut off first, and only the authority is checked.
* `behind_written`    — the parts after the authority can be recovered from their text.
* `parse_render`      — parsing inverts rendering, for URLs of the web.
-/

namespace BlockingCalls.Url

open Text (cutFirst afterLast throughLast)

-- ---------------------------------------------------------------------------
-- The order of cuts
-- ---------------------------------------------------------------------------

/-- The parts of the text after an authority. -/
def behind (scheme authority rest : List Char) : Parts :=
  let (rest, fragment) := cutFirst '#' rest
  let (path, query) := cutFirst '?' rest
  let (path, params) := if hasScheme parameterSchemes scheme then cutParams path else (path, [])
  { scheme, authority, path, params, query := query.getD [], fragment := fragment.getD [] }

/-- The scheme and the authority of a reference are cut off first, and only the authority is checked. -/
theorem parseReference_eq (default reference : List Char) :
    parseReference default reference =
      let (scheme, rest) := cutScheme default (readable reference)
      let (authority, rest) := cutAuthority rest
      (checkAuthority authority).map fun _ => behind scheme authority rest := by
  unfold parseReference
  simp only
  cases checkAuthority (cutAuthority (cutScheme default (readable reference)).2).1 <;> rfl

-- ---------------------------------------------------------------------------
-- Characters that are dropped
-- ---------------------------------------------------------------------------

/-- The text has no tab and no line end. -/
def Unbroken (cs : List Char) : Prop :=
  ∀ c ∈ cs, c ≠ '\t' ∧ c ≠ '\r' ∧ c ≠ '\n'

theorem Unbroken.mono {cs cs' : List Char} (h : Unbroken cs) (hsub : ∀ c ∈ cs', c ∈ cs) : Unbroken cs' :=
  fun c hc => h c (hsub c hc)

theorem unbroken_append {cs cs' : List Char} : Unbroken (cs ++ cs') ↔ Unbroken cs ∧ Unbroken cs' :=
  List.forall_mem_append

/-- The text without tabs and line ends. -/
def unbreak (cs : List Char) : List Char :=
  cs.filter fun c => c != '\t' && c != '\r' && c != '\n'

theorem unbroken_unbreak (cs : List Char) : Unbroken (unbreak cs) := by
  intro c hc
  have hkept := (List.mem_filter.mp hc).2
  simpa [and_assoc] using hkept

/-- A text of which nothing is dropped is unbroken; used for closed terms, where the equation holds by evaluation. -/
theorem unbroken_of_unbreak {cs : List Char} (h : unbreak cs = cs) : Unbroken cs :=
  h ▸ unbroken_unbreak cs

theorem unbreak_of_unbroken {cs : List Char} (h : Unbroken cs) : unbreak cs = cs := by
  refine List.filter_eq_self.mpr fun c hc => ?_
  simpa [and_assoc] using h c hc

theorem unbreak_append (cs cs' : List Char) : unbreak (cs ++ cs') = unbreak cs ++ unbreak cs' :=
  List.filter_append ..

/-- Nothing is dropped at the front of a text that starts with a visible character. -/
theorem readable_cons {c : Char} (h : 0x20 < c.toNat) (cs : List Char) : readable (c :: cs) = unbreak (c :: cs) := by
  have hstart : decide (c.toNat ≤ 0x20) = false := by
    rw [decide_eq_false_iff_not]
    omega
  rw [readable, List.dropWhile_cons, hstart]
  rfl

-- ---------------------------------------------------------------------------
-- Schemes and authorities of the web
-- ---------------------------------------------------------------------------

/-- The schemes of the URLs in question. -/
def webSchemes : List String :=
  ["http", "https"]

/-- The text that the URLs of a scheme start with. -/
def opening (scheme : String) : List Char :=
  scheme.toList ++ [':', '/', '/']

theorem hasScheme_web {schemes : List String} (hsub : ∀ s ∈ webSchemes, s ∈ schemes) {scheme : String}
    (h : scheme ∈ webSchemes) : hasScheme schemes scheme.toList = true := by
  rw [hasScheme, String.ofList_toList, List.contains_iff_mem]
  exact hsub scheme h

/-- The scheme of a text that starts like a URL of the web, whatever the default is. -/
theorem cutScheme_opening {scheme : String} (h : scheme ∈ webSchemes) (default rest : List Char) :
    cutScheme default (opening scheme ++ rest) = (scheme.toList, '/' :: '/' :: rest) := by
  have hcolon : ':' ∉ scheme.toList := by
    revert scheme
    decide
  have hcut : cutFirst ':' (opening scheme ++ rest) = (scheme.toList, some ('/' :: '/' :: rest)) := by
    rw [opening, List.append_assoc]
    exact Text.cutFirst_append_cons hcolon _
  have hletters : (scheme.toList.head?.any Char.isAlpha && scheme.toList.all isSchemeChar) = true := by
    clear hcut
    revert scheme
    decide
  have hlower : scheme.toList.map Char.toLower = scheme.toList := by
    clear hcut
    revert scheme
    decide
  rw [cutScheme, hcut]
  simp only [hletters, hlower, if_true]

/-- The text can be an authority: none of its characters ends one. -/
def Authority (cs : List Char) : Prop :=
  ∀ c ∈ cs, endsAuthority c = false

/-- An authority is cut off where a character that ends it follows, or nothing. -/
theorem cutAuthority_append {authority : List Char} (h : Authority authority) {rest : List Char}
    (hrest : ∀ c, rest.head? = some c → endsAuthority c = true) :
    cutAuthority ('/' :: '/' :: (authority ++ rest)) = (authority, rest) := by
  have hall : ∀ c ∈ authority, (!endsAuthority c) = true := fun c hc => by rw [h c hc]; rfl
  rw [cutAuthority, List.takeWhile_append_of_pos hall, List.dropWhile_append_of_pos hall]
  cases rest with
  | nil => simp
  | cons c rest => simp [hrest c rfl]

/-- The parse of a text that reads as a URL of the web. -/
theorem parse_web {scheme : String} (hscheme : scheme ∈ webSchemes) {authority rest text : List Char}
    (hauthority : Authority authority) (hrest : ∀ c, rest.head? = some c → endsAuthority c = true)
    (htext : readable text = opening scheme ++ (authority ++ rest)) :
    parse text = (checkAuthority authority).map fun _ => behind scheme.toList authority rest := by
  rw [parse, parseReference_eq, htext, cutScheme_opening hscheme]
  simp only [cutAuthority_append hauthority hrest]

/-- Nothing is dropped at the start of a URL of the web. -/
theorem readable_opening {scheme : String} (hscheme : scheme ∈ webSchemes) (tail : List Char) :
    readable (opening scheme ++ tail) = opening scheme ++ unbreak tail := by
  have hopening : ∃ c more, opening scheme = c :: more ∧ 0x20 < c.toNat ∧ Unbroken (opening scheme) := by
    rcases List.mem_cons.mp hscheme with rfl | hscheme
    · exact ⟨'h', _, rfl, by decide, unbroken_of_unbreak (by decide)⟩
    · rw [List.mem_singleton.mp hscheme]
      exact ⟨'h', _, rfl, by decide, unbroken_of_unbreak (by decide)⟩
  obtain ⟨c, more, heq, hvisible, hunbroken⟩ := hopening
  rw [heq, List.cons_append, readable_cons hvisible, ← List.cons_append, ← heq, unbreak_append,
    unbreak_of_unbroken hunbroken]

/-- A text that starts like a URL of the web reads as one. -/
theorem readable_of_opening {scheme : String} (hscheme : scheme ∈ webSchemes) {text : List Char}
    (h : opening scheme <+: text) :
    ∃ authority rest, Authority authority ∧ (∀ c, rest.head? = some c → endsAuthority c = true) ∧
      Unbroken authority ∧ Unbroken rest ∧ readable text = opening scheme ++ (authority ++ rest) := by
  obtain ⟨tail, rfl⟩ := h
  have hparts := List.takeWhile_append_dropWhile (p := (!endsAuthority ·)) (l := unbreak tail)
  have htail := unbroken_append.mp (hparts.symm ▸ unbroken_unbreak tail)
  refine ⟨_, _, fun c hc => ?_, fun c hc => ?_, htail.1, htail.2, by rw [hparts, readable_opening hscheme]⟩
  · -- the authority extends up to the first character that ends it
    simpa using List.mem_takeWhile_imp hc
  · -- which is the first character of the rest
    have hend := List.head?_dropWhile_not (!endsAuthority ·) (unbreak tail)
    rw [hc] at hend
    simpa using hend

-- ---------------------------------------------------------------------------
-- Parts that keep to their marks
-- ---------------------------------------------------------------------------

/-- The parts after the authority can be separated at the marks between them. -/
structure Parts.Divided (p : Parts) : Prop where
  path : ∀ c ∈ p.path, c ≠ '?' ∧ c ≠ '#'
  name : ';' ∉ afterLast '/' p.path
  params : ∀ c ∈ p.params, c ≠ '/' ∧ c ≠ '?' ∧ c ≠ '#'
  query : '#' ∉ p.query

/-- The text of the parts after the authority. -/
def Parts.written (p : Parts) : List Char :=
  p.path ++ (marked ';' p.params ++ (marked '?' p.query ++ marked '#' p.fragment))

/-- A part with its mark contains the mark and the characters of the part only. -/
theorem mem_marked {mark c : Char} {part : List Char} (h : c ∈ marked mark part) : c = mark ∨ c ∈ part := by
  unfold marked at h
  split at h
  · cases h
  · exact List.mem_cons.mp h

theorem not_mem_marked {mark c : Char} (hmark : c ≠ mark) {part : List Char} (h : c ∉ part) : c ∉ marked mark part :=
  fun hmem => (mem_marked hmem).elim hmark h

/-- An unbroken part with its mark is unbroken. -/
theorem unbroken_marked {mark : Char} (hmark : Unbroken [mark]) {part : List Char} (h : Unbroken part) :
    Unbroken (marked mark part) := by
  intro c hc
  rcases mem_marked hc with rfl | hc
  · exact hmark c List.mem_cons_self
  · exact h c hc

/-- Unbroken parts have an unbroken text. -/
theorem Parts.unbroken_written {p : Parts} (hpath : Unbroken p.path) (hparams : Unbroken p.params)
    (hquery : Unbroken p.query) (hfragment : Unbroken p.fragment) : Unbroken p.written := by
  have hmarks : Unbroken [';'] ∧ Unbroken ['?'] ∧ Unbroken ['#'] :=
    ⟨unbroken_of_unbreak rfl, unbroken_of_unbreak rfl, unbroken_of_unbreak rfl⟩
  unfold Parts.written
  rw [unbroken_append, unbroken_append, unbroken_append]
  exact ⟨hpath, unbroken_marked hmarks.1 hparams, unbroken_marked hmarks.2.1 hquery,
    unbroken_marked hmarks.2.2 hfragment⟩

/-- A part behind its mark is cut off, if the mark does not occur before. -/
theorem cutFirst_marked {mark : Char} {front : List Char} (h : mark ∉ front) (part : List Char) :
    ∃ found : Option (List Char), cutFirst mark (front ++ marked mark part) = (front, found) ∧ found.getD [] = part := by
  cases part with
  | nil => exact ⟨none, by rw [marked, List.isEmpty_nil, if_pos rfl, List.append_nil, Text.cutFirst_of_not_mem h], rfl⟩
  | cons c rest => exact ⟨some (c :: rest), Text.cutFirst_append_cons h _, rfl⟩

/-- Parameters are cut off the last segment at its first semicolon. -/
theorem cutParams_marked {path params : List Char} (hname : ';' ∉ afterLast '/' path) (hparams : '/' ∉ params) :
    cutParams (path ++ marked ';' params) = (path, params) := by
  have hslash : '/' ∉ marked ';' params := not_mem_marked (by decide) hparams
  obtain ⟨hafter, hthrough⟩ := Text.afterLast_append path hslash
  obtain ⟨found, hcut, hfound⟩ := cutFirst_marked hname params
  rw [cutParams, hafter, hthrough, hcut]
  simp only [hfound, Text.throughLast_append_afterLast]

/-- **Divided parts can be recovered from their text.** -/
theorem behind_written {p : Parts} (h : p.Divided) (hscheme : hasScheme parameterSchemes p.scheme = true) :
    behind p.scheme p.authority p.written = p := by
  have hpath : '?' ∉ p.path ++ marked ';' p.params :=
    List.not_mem_append (fun hmem => (h.path _ hmem).1 rfl)
      (not_mem_marked (by decide) fun hmem => (h.params _ hmem).2.1 rfl)
  have hquery : '#' ∉ p.path ++ marked ';' p.params ++ marked '?' p.query :=
    List.not_mem_append
      (List.not_mem_append (fun hmem => (h.path _ hmem).2 rfl)
        (not_mem_marked (by decide) fun hmem => (h.params _ hmem).2.2 rfl))
      (not_mem_marked (by decide) h.query)
  -- the cuts in the order of the parser: fragment, query, parameters
  obtain ⟨fragment, hcutFragment, hfragment⟩ := cutFirst_marked hquery p.fragment
  obtain ⟨query, hcutQuery, hqueryPart⟩ := cutFirst_marked hpath p.query
  have hwritten : p.written = p.path ++ marked ';' p.params ++ marked '?' p.query ++ marked '#' p.fragment := by
    simp only [Parts.written, List.append_assoc]
  unfold behind
  rw [hwritten, hcutFragment]
  simp only
  rw [hcutQuery]
  simp only [hscheme, if_true, cutParams_marked h.name fun hmem => (h.params _ hmem).1 rfl, hfragment, hqueryPart]

/-- The result of cutting parameters off: the last segment has no semicolon, the parameters have no slash, and no
character is added. -/
theorem cutParams_spec (path : List Char) :
    ';' ∉ afterLast '/' (cutParams path).1 ∧ '/' ∉ (cutParams path).2 ∧
      ∀ c, c ∈ (cutParams path).1 ∨ c ∈ (cutParams path).2 → c ∈ path := by
  have hpath := Text.throughLast_append_afterLast '/' path
  have hslash : ∀ c, c ∈ (cutFirst ';' (afterLast '/' path)).1 ∨ c ∈ (cutFirst ';' (afterLast '/' path)).2.getD [] →
      c ∈ afterLast '/' path := fun c => Text.mem_of_mem_cutFirst
  have hnone := Text.not_mem_afterLast '/' path
  refine ⟨?_, fun hmem => hnone (hslash _ (.inr hmem)), ?_⟩
  · -- the new last segment ends before the first semicolon of the old one
    show ';' ∉ afterLast '/' (throughLast '/' path ++ (cutFirst ';' (afterLast '/' path)).1)
    rw [(Text.afterLast_append _ fun hmem => hnone (hslash _ (.inl hmem))).1, Text.afterLast_throughLast]
    exact Text.not_mem_cutFirst ';' _
  · -- both parts are made of characters of the path
    intro c hc
    rw [← hpath, List.mem_append]
    rcases hc with hc | hc
    · exact (List.mem_append.mp hc).imp_right fun hc => hslash c (.inl hc)
    · exact .inr (hslash c (.inr hc))

/-- The parts use no characters but those given. -/
structure Parts.Within (p : Parts) (cs : List Char) : Prop where
  path : ∀ c ∈ p.path, c ∈ cs
  params : ∀ c ∈ p.params, c ∈ cs
  query : ∀ c ∈ p.query, c ∈ cs
  fragment : ∀ c ∈ p.fragment, c ∈ cs

/-- The parts of the text after an authority are divided, whatever the text is. -/
theorem divided_behind {scheme : List Char} (hscheme : hasScheme parameterSchemes scheme = true) (authority rest : List Char) :
    (behind scheme authority rest).Divided ∧ (behind scheme authority rest).Within rest := by
  -- the fragment is cut off first, the query from what is left, the parameters from what is left then
  have hfragment := Text.not_mem_cutFirst '#' rest
  have hmem := fun c => @Text.mem_of_mem_cutFirst '#' rest c
  unfold behind
  simp only [hscheme, if_true]
  generalize cutFirst '#' rest = first at hfragment hmem
  have hquery := Text.not_mem_cutFirst '?' first.1
  have hmem' := fun c => @Text.mem_of_mem_cutFirst '?' first.1 c
  generalize cutFirst '?' first.1 = second at hquery hmem'
  obtain ⟨hname, hslash, hmem''⟩ := cutParams_spec second.1
  have hpath : ∀ c, c ∈ (cutParams second.1).1 ∨ c ∈ (cutParams second.1).2 → c ∈ first.1 ∧ c ≠ '?' ∧ c ≠ '#' := by
    intro c hc
    have hsecond := hmem'' c hc
    have hfirst := hmem' c (.inl hsecond)
    exact ⟨hfirst, fun h => hquery (h ▸ hsecond), fun h => hfragment (h ▸ hfirst)⟩
  constructor
  · exact
      { path := fun c hc => (hpath c (.inl hc)).2
        name := hname
        params := fun c hc => ⟨fun h => hslash (h ▸ hc), (hpath c (.inr hc)).2⟩
        query := fun h => hfragment (hmem' _ (.inr h)) }
  · exact
      { path := fun c hc => hmem c (.inl (hpath c (.inl hc)).1)
        params := fun c hc => hmem c (.inl (hpath c (.inr hc)).1)
        query := fun c hc => hmem c (.inl (hmem' c (.inr hc)))
        fragment := fun c hc => hmem c (.inr hc) }

-- ---------------------------------------------------------------------------
-- URLs of the web
-- ---------------------------------------------------------------------------

/-- The conditions for parts to be those of a URL of the web. -/
structure Parts.OfWeb (p : Parts) (scheme : String) : Prop where
  web : scheme ∈ webSchemes
  scheme_eq : p.scheme = scheme.toList
  authority : Authority p.authority
  checked : checkAuthority p.authority = .ok ()
  rooted : p.path.head? = some '/'
  /-- Two slashes would be those of an authority, if none is written. -/
  single : ¬ ['/', '/'] <+: p.path
  divided : p.Divided
  unbroken : Unbroken (p.authority ++ p.written)

/-- A path with a slash in front, which is added if it is missing. -/
def rooted (path : List Char) : List Char :=
  if path.head? == some '/' then path else '/' :: path

theorem rooted_of_head {path : List Char} (h : path.head? = some '/') : rooted path = path := by
  rw [rooted, h]
  rfl

/-- A path that is not empty is written with a slash in front, after the authority. -/
theorem renderLocation_eq {p : Parts} (hscheme : hasScheme authoritySchemes p.scheme = true) (hne : p.path ≠ [])
    (hsingle : ¬ ['/', '/'] <+: p.path) :
    renderLocation p = '/' :: '/' :: p.authority ++ (rooted p.path ++ marked ';' p.params) := by
  obtain ⟨c, path, hpath⟩ := List.exists_cons_of_ne_nil hne
  -- two slashes in front would be taken for those of an authority
  have hslashes : ['/', '/'].isPrefixOf (p.path ++ marked ';' p.params) = false := by
    rw [Bool.eq_false_iff, ne_eq, List.isPrefixOf_iff_prefix]
    intro hprefix
    rw [hpath] at hprefix hsingle
    cases path with
    | cons next more =>
      rw [List.cons_append, List.cons_append, List.cons_prefix_cons, List.cons_prefix_cons] at hprefix
      exact hsingle ⟨more, by rw [← hprefix.1, ← hprefix.2.1]; rfl⟩
    | nil =>
      unfold marked at hprefix
      split at hprefix <;> simp at hprefix
  unfold renderLocation rooted
  simp only [hslashes, hscheme, Bool.not_false, Bool.and_self, Bool.or_true, if_true]
  by_cases hc : c = '/' <;> simp [hpath, hc]

/-- The text of a URL of the web, also if its path lacks the slash in front. -/
theorem render_web {scheme : String} {p : Parts} (h : ({ p with path := rooted p.path } : Parts).OfWeb scheme)
    (hne : p.path ≠ []) : render p = opening scheme ++ (p.authority ++ ({ p with path := rooted p.path } : Parts).written) := by
  have hempty : scheme.toList.isEmpty = false := by
    rcases List.mem_cons.mp h.web with rfl | hscheme
    · rfl
    · rw [List.mem_singleton.mp hscheme]
      rfl
  have hscheme : p.scheme = scheme.toList := h.scheme_eq
  have hsingle : ¬ ['/', '/'] <+: p.path := by
    rintro ⟨more, hmore⟩
    exact h.single ⟨more, by rw [← hmore]; rfl⟩
  rw [render, renderLocation_eq (hscheme ▸ hasScheme_web (by decide) h.web) hne hsingle, hscheme, hempty]
  simp [opening, Parts.written]

/-- The text of a URL of the web: scheme, authority and the other parts. -/
theorem render_of_rooted {scheme : String} {p : Parts} (h : p.OfWeb scheme) :
    render p = opening scheme ++ (p.authority ++ p.written) := by
  have hrooted := rooted_of_head h.rooted
  have hne : p.path ≠ [] := by
    intro hnil
    have hhead := h.rooted
    rw [hnil] at hhead
    cases hhead
  have hrender := @render_web scheme p (by rw [hrooted]; exact h) hne
  rwa [hrooted] at hrender

/-- A URL of the web followed by any text has the scheme and the authority of the URL. -/
theorem parse_render_append {scheme : String} {p : Parts} (h : p.OfWeb scheme) (more : List Char) :
    parse (render p ++ more) = .ok (behind p.scheme p.authority (p.written ++ unbreak more)) := by
  obtain ⟨path, hpath⟩ := List.head?_eq_some_iff.mp h.rooted
  have hread : readable (render p ++ more) = opening scheme ++ (p.authority ++ (p.written ++ unbreak more)) := by
    rw [render_of_rooted h, List.append_assoc, readable_opening h.web, unbreak_append, unbreak_of_unbroken h.unbroken,
      List.append_assoc]
  rw [parse_web h.web h.authority ?_ hread, h.checked, h.scheme_eq]
  · rfl
  · -- the slash of the path ends the authority
    intro c hc
    rw [Parts.written, hpath] at hc
    cases hc
    rfl

/-- **Parsing inverts rendering, for URLs of the web.** -/
theorem parse_render {scheme : String} {p : Parts} (h : p.OfWeb scheme) : parse (render p) = .ok p := by
  have hparse := parse_render_append h []
  have hscheme : hasScheme parameterSchemes p.scheme = true := by
    rw [h.scheme_eq]
    exact hasScheme_web (by decide) h.web
  rw [List.append_nil] at hparse
  rw [hparse, unbreak, List.filter_nil, List.append_nil, behind_written h.divided hscheme]

end BlockingCalls.Url
