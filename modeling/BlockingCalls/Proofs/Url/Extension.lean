import BlockingCalls.Proofs.Url.Origin
import BlockingCalls.Tree.Language

/-!
# The default extension of a URL

A relative import of a remote module is completed with the default extension unless the text after the last slash has one.
Both the test and the completion are applied to the whole text of the URL, while the language of a module is determined by
the path alone. So the extension is appended to the last part that is not empty: to the path only if there are no
parameters, no query and no fragment. The language is not affected by this, as a path without extension is TypeScript.

## Results

* `render_extended`             — text at the end of a URL belongs to its last part.
* `extended_completes_path_iff` — when appended text completes the path, and nothing else.
* `ofLocation_extended`         — the language is unchanged.
* `extension_goes_to_last_part` — the parts of a relative import of a remote module.
-/

namespace BlockingCalls

open Text (afterLast)

-- ---------------------------------------------------------------------------
-- Extensions of paths
-- ---------------------------------------------------------------------------

namespace Path

theorem extension_eq_nil_iff {path : List Char} :
    extension path = [] ↔ '.' ∉ (afterLast '/' path).dropWhile (· == '.') := by
  rw [extension]
  split <;> simp_all

/-- The extension does not depend on text before a path that starts with a slash. -/
theorem extension_append_rooted (front : List Char) {path : List Char} (h : path.head? = some '/') :
    extension (front ++ path) = extension path := by
  rw [extension, Text.afterLast_append_of_mem front (List.mem_of_mem_head? h), extension]

/-- A path with an extension has one after text without slashes is appended. -/
theorem extension_append_ne_nil {path more : List Char} (h : extension path ≠ []) (hmore : '/' ∉ more) :
    extension (path ++ more) ≠ [] := by
  rw [ne_eq, extension_eq_nil_iff, not_not] at h ⊢
  have hne : ((afterLast '/' path).dropWhile (· == '.')).isEmpty = false := by
    rw [List.isEmpty_eq_false_iff]
    exact List.ne_nil_of_mem h
  rw [(Text.afterLast_append path hmore).1, List.dropWhile_append, hne]
  exact List.mem_append_left _ h

/-- With `.ts` appended, a path has this extension, or none if its last segment has only dots before it. -/
theorem extension_append_ts (path : List Char) :
    extension (path ++ ".ts".toList) = ".ts".toList ∨ extension (path ++ ".ts".toList) = [] := by
  rw [extension, (Text.afterLast_append path (by decide)).1]
  split
  · exact .inl (congrArg ('.' :: ·) (Text.afterLast_append_cons _ (by decide)))
  · exact .inr rfl

end Path

-- ---------------------------------------------------------------------------
-- Text at the end of a URL
-- ---------------------------------------------------------------------------

namespace Url

/-- The text is not empty, and contains no mark and no character that is dropped. -/
def Plain (text : List Char) : Prop :=
  text ≠ [] ∧ ∀ c ∈ text, c ∉ ['/', '?', '#', ';', '\t', '\r', '\n']

theorem plain_ts : Plain ".ts".toList :=
  ⟨by decide, by simp⟩

theorem Plain.not_mem {text : List Char} (h : Plain text) {mark : Char}
    (hmark : mark ∈ ['/', '?', '#', ';', '\t', '\r', '\n']) : mark ∉ text :=
  fun hmem => h.2 mark hmem hmark

/-- A plain text is unbroken. -/
theorem Plain.unbroken {text : List Char} (h : Plain text) : Unbroken text := by
  intro c hc
  have hmarks := h.2 c hc
  simp only [List.mem_cons, not_or] at hmarks
  exact ⟨hmarks.2.2.2.2.1, hmarks.2.2.2.2.2.1, hmarks.2.2.2.2.2.2.1⟩

namespace Parts

/-- The parts with text appended to the last one that is not empty. -/
def extended (p : Parts) (text : List Char) : Parts :=
  if p.fragment ≠ [] then { p with fragment := p.fragment ++ text }
  else if p.query ≠ [] then { p with query := p.query ++ text }
  else if p.params ≠ [] then { p with params := p.params ++ text }
  else { p with path := p.path ++ text }

/-- The path is completed with the text if it has no extension, and the query and the fragment are the same. -/
def CompletesPath (p : Parts) (text : List Char) (q : Parts) : Prop :=
  q.query = p.query ∧ q.fragment = p.fragment ∧
    q.path = if Path.extension p.path = [] then p.path ++ text else p.path

/-- The URL ends with its path. -/
def EndsWithPath (p : Parts) : Prop :=
  p.params = [] ∧ p.query = [] ∧ p.fragment = []

end Parts

section Extended

variable {scheme : String} {p : Parts} {text : List Char}

/-- One case for each part that can be the last one. -/
theorem extended_cases (p : Parts) (text : List Char) :
    (p.fragment ≠ [] ∧ p.extended text = { p with fragment := p.fragment ++ text }) ∨
    (p.fragment = [] ∧ p.query ≠ [] ∧ p.extended text = { p with query := p.query ++ text }) ∨
    (p.fragment = [] ∧ p.query = [] ∧ p.params ≠ [] ∧ p.extended text = { p with params := p.params ++ text }) ∨
    (p.EndsWithPath ∧ p.extended text = { p with path := p.path ++ text }) := by
  unfold Parts.extended Parts.EndsWithPath
  split_ifs <;> simp_all

theorem extended_origin (p : Parts) (text : List Char) :
    (p.extended text).scheme = p.scheme ∧ (p.extended text).authority = p.authority := by
  unfold Parts.extended
  split_ifs <;> exact ⟨rfl, rfl⟩

/-- Appending to a part that is not empty appends to the part with its mark. -/
theorem marked_append (mark : Char) {part : List Char} (h : part ≠ []) (text : List Char) :
    marked mark (part ++ text) = marked mark part ++ text := by
  cases part with
  | nil => exact absurd rfl h
  | cons c rest => rfl

/-- The text is appended to that of the parts. -/
theorem written_extended (p : Parts) (text : List Char) : (p.extended text).written = p.written ++ text := by
  have hnone : ∀ mark, marked mark [] = [] := fun _ => rfl
  rcases extended_cases p text with ⟨h, heq⟩ | ⟨hfragment, h, heq⟩ | ⟨hfragment, hquery, h, heq⟩ |
      ⟨⟨hparams, hquery, hfragment⟩, heq⟩
  · simp [heq, Parts.written, marked_append _ h]
  · simp [heq, Parts.written, hfragment, hnone, marked_append _ h]
  · simp [heq, Parts.written, hfragment, hquery, hnone, marked_append _ h]
  · simp [heq, Parts.written, hfragment, hquery, hparams, hnone]

/-- Divided parts remain divided, by the part that is the last one. -/
theorem divided_extended (h : p.Divided) (htext : Plain text) : (p.extended text).Divided := by
  have hslash : '/' ∉ text := htext.not_mem (by decide)
  have hsemicolon : ';' ∉ text := htext.not_mem (by decide)
  have hquestion : '?' ∉ text := htext.not_mem (by decide)
  have hhash : '#' ∉ text := htext.not_mem (by decide)
  rcases extended_cases p text with ⟨_, heq⟩ | ⟨_, _, heq⟩ | ⟨_, _, _, heq⟩ | ⟨_, heq⟩
  · rw [heq]
    exact ⟨h.path, h.name, h.params, h.query⟩
  · rw [heq]
    refine ⟨h.path, h.name, h.params, fun hmem => ?_⟩
    exact (List.mem_append.mp hmem).elim h.query hhash
  · rw [heq]
    refine ⟨h.path, h.name, fun c hc => ?_, h.query⟩
    rcases List.mem_append.mp hc with hc | hc
    · exact h.params c hc
    · exact ⟨fun h => hslash (h ▸ hc), fun h => hquestion (h ▸ hc), fun h => hhash (h ▸ hc)⟩
  · rw [heq]
    refine ⟨fun c hc => ?_, ?_, h.params, h.query⟩
    · rcases List.mem_append.mp hc with hc | hc
      · exact h.path c hc
      · exact ⟨fun h => hquestion (h ▸ hc), fun h => hhash (h ▸ hc)⟩
    · show ';' ∉ afterLast '/' (p.path ++ text)
      rw [(Text.afterLast_append p.path hslash).1]
      exact fun hmem => (List.mem_append.mp hmem).elim h.name hsemicolon

/-- The parts of a URL of the web remain so. -/
theorem ofWeb_extended (h : p.OfWeb scheme) (htext : Plain text) : (p.extended text).OfWeb scheme := by
  have hsame := extended_origin p text
  have hpath : (p.extended text).path = p.path ∨ (p.extended text).path = p.path ++ text := by
    unfold Parts.extended
    split_ifs <;> simp
  obtain ⟨rest, hrest⟩ := List.head?_eq_some_iff.mp h.rooted
  -- plain text has no slash, so that no second slash appears in front
  have hsingle : ¬ ['/', '/'] <+: p.path ++ text := by
    rw [hrest, List.cons_append, List.cons_prefix_cons]
    rintro ⟨-, hstart⟩
    cases rest with
    | nil => exact htext.not_mem (by decide) (hstart.subset List.mem_cons_self)
    | cons c rest =>
      rw [List.cons_append, List.cons_prefix_cons] at hstart
      exact h.single (by rw [hrest, ← hstart.1]; exact ⟨rest, rfl⟩)
  refine
    { web := h.web, scheme_eq := hsame.1.trans h.scheme_eq, authority := hsame.2 ▸ h.authority
      checked := hsame.2 ▸ h.checked, rooted := ?_, single := ?_, divided := divided_extended h.divided htext
      unbroken := ?_ }
  · rcases hpath with hpath | hpath
    · rw [hpath, h.rooted]
    · rw [hpath, hrest]
      rfl
  · rcases hpath with hpath | hpath
    · rw [hpath]
      exact h.single
    · rw [hpath]
      exact hsingle
  · rw [hsame.2, written_extended, ← List.append_assoc]
    exact unbroken_append.mpr ⟨h.unbroken, htext.unbroken⟩

/-- **Plain text appended to a URL becomes part of its last part.** -/
theorem render_extended (h : p.OfWeb scheme) (htext : Plain text) : render (p.extended text) = render p ++ text := by
  rw [render_of_rooted (ofWeb_extended h htext), render_of_rooted h, (extended_origin p text).2, written_extended]
  simp only [List.append_assoc]

/-- The extension of a URL that ends with its path is that of the path. -/
theorem extension_render_of_endsWithPath (h : p.OfWeb scheme) (hends : p.EndsWithPath) :
    Path.extension (render p) = Path.extension p.path := by
  have hwritten : p.written = p.path := by
    simp [Parts.written, marked, hends.1, hends.2.1, hends.2.2]
  rw [render_of_rooted h, hwritten, ← List.append_assoc, Path.extension_append_rooted _ h.rooted]

/-- Parameters belong to the last segment: a URL that ends with them has an extension if its path has one. -/
theorem extension_render_of_params (h : p.OfWeb scheme) (hquery : p.query = []) (hfragment : p.fragment = [])
    (hpath : Path.extension p.path ≠ []) : Path.extension (render p) ≠ [] := by
  have hwritten : p.written = p.path ++ marked ';' p.params := by
    simp [Parts.written, marked, hquery, hfragment]
  have hslash : '/' ∉ marked ';' p.params := not_mem_marked (by decide) fun hmem => (h.divided.params _ hmem).1 rfl
  have hrooted : (p.path ++ marked ';' p.params).head? = some '/' := by
    rw [List.head?_append, h.rooted]
    rfl
  rw [render_of_rooted h, hwritten, ← List.append_assoc, Path.extension_append_rooted _ hrooted]
  exact Path.extension_append_ne_nil hpath hslash

/-- Completing the text of a URL completes its path, and nothing else, if and only if the URL ends with its path, or
both its text and its path have an extension already. -/
theorem extended_completes_path_iff (h : p.OfWeb scheme) (htext : Plain text) :
    p.CompletesPath text (if Path.extension (render p) = [] then p.extended text else p) ↔
      p.EndsWithPath ∨ (Path.extension (render p) ≠ [] ∧ Path.extension p.path ≠ []) := by
  have hlonger : ∀ part : List Char, part ++ text ≠ part := fun part heq => htext.1 (List.append_right_eq_self.mp heq)
  by_cases hends : p.EndsWithPath
  · -- the URL ends with its path, which has the extension of the whole text
    have hextended : p.extended text = { p with path := p.path ++ text } := by
      simp [Parts.extended, hends.1, hends.2.1, hends.2.2]
    rw [extension_render_of_endsWithPath h hends, hextended]
    refine iff_of_true ?_ (.inl hends)
    unfold Parts.CompletesPath
    split <;> exact ⟨rfl, rfl, rfl⟩
  · by_cases hnone : Path.extension (render p) = []
    · -- the text is appended to another part, which makes that part longer
      rw [if_pos hnone]
      refine iff_of_false ?_ (by simp [hends, hnone])
      rintro ⟨hquery, hfragment, hpath⟩
      rcases extended_cases p text with ⟨_, heq⟩ | ⟨_, _, heq⟩ | ⟨hfragmentNil, hqueryNil, _, heq⟩ | ⟨hlast, _⟩
      · rw [heq] at hfragment
        exact hlonger _ hfragment
      · rw [heq] at hquery
        exact hlonger _ hquery
      · rw [heq] at hpath
        split at hpath
        · exact hlonger _ hpath.symm
        · next hext => exact extension_render_of_params h hqueryNil hfragmentNil hext hnone
      · exact hends hlast
    · -- the text has an extension, and nothing is appended
      rw [if_neg hnone]
      unfold Parts.CompletesPath
      split
      · next hext => simpa [hends, hext] using (hlonger p.path).symm
      · next hext => simp [hnone, hext]

end Extended

end Url

-- ---------------------------------------------------------------------------
-- The language
-- ---------------------------------------------------------------------------

namespace Tree.Language

open Url (opening webSchemes)

/-- The language that the extension of a path denotes. -/
def ofPath (path : List Char) : Language :=
  ofExtension (String.ofList (((Path.extension path).dropWhile (· == '.')).map Char.toLower))

theorem ofPath_of_extension_eq_nil {path : List Char} (h : Path.extension path = []) : ofPath path = .typescript := by
  rw [ofPath, h]
  rfl

/-- A path with `.ts` appended is TypeScript. -/
theorem ofPath_append_ts (path : List Char) : ofPath (path ++ ".ts".toList) = .typescript := by
  rcases Path.extension_append_ts path with h | h
  · rw [ofPath, h]
    rfl
  · exact ofPath_of_extension_eq_nil h

/-- The language of a URL of the web is determined by its path. -/
theorem ofLocation_render {scheme : String} {p : Url.Parts} (h : p.OfWeb scheme) :
    ofLocation (String.ofList (Url.render p)) = .ok (ofPath p.path) := by
  have hurl : isUrl (Url.render p) = true := by
    rw [Url.render_of_rooted h]
    rcases List.mem_pair.mp h.web with rfl | rfl <;> rfl
  rw [ofLocation, String.toList_ofList, hurl, Url.parse_render h]
  rfl

/-- **The language is unchanged by the completion.** Only if the URL ends with its path does the path change. -/
theorem ofLocation_extended {scheme : String} {p : Url.Parts} (h : p.OfWeb scheme)
    (hnone : Path.extension (Url.render p) = []) :
    ofLocation (String.ofList (Url.render (p.extended ".ts".toList))) = ofLocation (String.ofList (Url.render p)) := by
  rw [ofLocation_render (Url.ofWeb_extended h Url.plain_ts), ofLocation_render h]
  rcases Url.extended_cases p ".ts".toList with ⟨_, heq⟩ | ⟨_, _, heq⟩ | ⟨_, _, _, heq⟩ | ⟨hends, heq⟩
  · rw [heq]
  · rw [heq]
  · rw [heq]
  · rw [Url.extension_render_of_endsWithPath h hends] at hnone
    rw [heq, ofPath_append_ts, ofPath_of_extension_eq_nil hnone]

end Tree.Language

-- ---------------------------------------------------------------------------
-- Relative imports of remote modules
-- ---------------------------------------------------------------------------

namespace Resolver

open Url (opening webSchemes)

/-- Completing a URL of the web results in one whose parts are the same, or the same with text appended to the last one.
-/
theorem withExtension_render {config : Config} {scheme : String} {p : Url.Parts} (h : p.OfWeb scheme)
    (hplain : Url.Plain config.defaultExtension.toList) :
    withExtension config (String.ofList (Url.render p)) =
      String.ofList (Url.render
        (if Path.extension (Url.render p) = [] then p.extended config.defaultExtension.toList else p)) := by
  rw [withExtension, String.toList_ofList]
  simp only [List.isEmpty_iff]
  split
  · rw [Url.render_extended h hplain, String.ofList_append, String.ofList_toList]
  · rfl

/-- **The extension is appended to the last part.** A relative import of a module found at a URL of the web has the
parts of the joined URL, with the default extension appended to the last part that is not empty, if the text after the
last slash of the whole URL has no extension. So the query and the fragment are unchanged and the path alone is
completed if and only if the URL ends with its path, or both the text and the path have an extension. The language
determined from the URL is the same in each case. -/
theorem extension_goes_to_last_part (r : Resolver) {scheme location specifier url : String} (hscheme : scheme ∈ webSchemes)
    (hlocation : opening scheme <+: location.toList) (hremote : r.config.isRemote location = true)
    (hplain : Url.Plain r.config.defaultExtension.toList) (hrelative : specifier.toList.head? = some '.')
    (hjoin : Url.join location specifier = .ok url) :
    ∃ target moduleId parts, Url.parse url.toList = .ok target ∧
      r.resolve specifier location = .ok (.found moduleId true) ∧ Url.parse moduleId.toList = .ok parts ∧
      (parts = if Path.extension url.toList = [] then target.extended r.config.defaultExtension.toList else target) ∧
      (target.CompletesPath r.config.defaultExtension.toList parts ↔
        target.EndsWithPath ∨ (Path.extension url.toList ≠ [] ∧ Path.extension target.path ≠ [])) ∧
      (r.config.defaultExtension = ".ts" → Tree.Language.ofLocation moduleId = Tree.Language.ofLocation url) := by
  obtain ⟨p, hweb, rfl⟩ : ∃ p : Url.Parts, p.OfWeb scheme ∧ url = String.ofList (Url.render p) := by
    cases hparse : Url.parse location.toList with
    | error fault =>
      -- the location does not parse, and there is no joined URL
      rw [Url.join_of_parse_error (Url.location_ne_empty hlocation) (Url.specifier_ne_empty hrelative) hparse] at hjoin
      cases hjoin
    | ok origin =>
      obtain ⟨_, p, hweb, _, hurl⟩ := Url.join_dot hscheme hlocation hrelative hparse
      rw [hjoin, Except.ok.injEq] at hurl
      exact ⟨p, hweb, hurl⟩
  rw [resolve_dot hremote hrelative, hjoin]
  simp only [Except.map, withExtension_render hweb hplain, String.toList_ofList]
  refine ⟨p, _, _, Url.parse_render hweb, rfl, ?_, rfl, Url.extended_completes_path_iff hweb hplain, ?_⟩
  · rw [String.toList_ofList]
    split
    · exact Url.parse_render (Url.ofWeb_extended hweb hplain)
    · exact Url.parse_render hweb
  · intro hts
    split
    · next hnone =>
      rw [hts]
      exact Tree.Language.ofLocation_extended hweb hnone
    · rfl

/-- A slash in the fragment hides the extension of the path, so that the extension is appended to the fragment. -/
theorem extension_goes_to_last_part_fragment :
    Url.join "http://h/m.ts" "./a.js?v#b/c" = .ok "http://h/a.js?v#b/c" ∧
      ∃ target moduleId parts, Url.parse "http://h/a.js?v#b/c".toList = .ok target ∧
        Resolver.resolve ⟨{}, []⟩ "./a.js?v#b/c" "http://h/m.ts" = .ok (.found moduleId true) ∧
        Url.parse moduleId.toList = .ok parts ∧ parts = target.extended ".ts".toList ∧
        ¬ target.CompletesPath ".ts".toList parts ∧
        Tree.Language.ofLocation moduleId = Tree.Language.ofLocation "http://h/a.js?v#b/c" := by
  have hjoin : Url.join "http://h/m.ts" "./a.js?v#b/c" = .ok "http://h/a.js?v#b/c" := by rfl
  have hnone : Path.extension "http://h/a.js?v#b/c".toList = [] := by decide
  have htarget : Url.parse "http://h/a.js?v#b/c".toList =
      .ok { scheme := "http".toList, authority := "h".toList, path := "/a.js".toList, query := "v".toList
            fragment := "b/c".toList } := by
    rfl
  have hscheme : "http" ∈ webSchemes := by decide
  obtain ⟨target, moduleId, parts, hparse, hresolve, hparts, heq, hiff, hlanguage⟩ :=
    extension_goes_to_last_part ⟨{}, []⟩ hscheme (by decide) (by decide) Url.plain_ts (by decide) hjoin
  rw [hparse, Except.ok.injEq] at htarget
  refine ⟨hjoin, target, moduleId, parts, hparse, hresolve, hparts, by rw [heq, if_pos hnone], ?_, hlanguage rfl⟩
  rw [hiff, hnone, htarget]
  simp [Url.Parts.EndsWithPath]

/-- For an import with a query the extension is appended to the query, and the path has none. -/
theorem extension_lands_in_query :
    Url.join "http://h/m.ts" "./a?v=1" = .ok "http://h/a?v=1" ∧
      Resolver.resolve ⟨{}, []⟩ "./a?v=1" "http://h/m.ts" = .ok (.found "http://h/a?v=1.ts" true) ∧
      (Url.parse "http://h/a?v=1".toList).map (fun p => (p.path, p.query)) = .ok ("/a".toList, "v=1".toList) ∧
      (Url.parse "http://h/a?v=1.ts".toList).map (fun p => (p.path, p.query)) = .ok ("/a".toList, "v=1.ts".toList) :=
  ⟨rfl, rfl, rfl, rfl⟩

end Resolver

end BlockingCalls
