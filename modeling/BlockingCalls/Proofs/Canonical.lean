import BlockingCalls.Proofs.Extent
import BlockingCalls.Proofs.Place
import BlockingCalls.Proofs.Url.Origin

/-!
# Ids of local modules

The id of a local module is the path of its file, and an analysis identifies modules by their ids. So that a file is not
analysed twice its id must not depend on how it is referred to. It does not: the id of a relative import is written from
the place to which the specifier leads from the folder of the importing file, with the default extension at the last name
if it has none; the id of a root is written from the place of its path. Both are normal forms, and so are the ids of all
local modules that are reachable from there, as long as what is fetched lies at URLs of the web.

## Results

* `withExtension_write`          — completing the path of a place completes its last name.
* `resolve_of_absolute`          — the target of a relative import of a local module.
* `canonical_rootModule`         — the ids of roots.
* `Codebase.Reachable.canonical` — all reachable local modules have such ids.
* `local_ids_canonical`          — one place has one id.
-/

namespace BlockingCalls

namespace Path

open Text (splitOn afterLast)

-- ---------------------------------------------------------------------------
-- Places with an extension
-- ---------------------------------------------------------------------------

/-- A name with the text appended if it has no extension. -/
def complete (text name : List Char) : List Char :=
  if extension name = [] then name ++ text else name

namespace Place

/-- The place whose last name is completed; the root has an empty name. -/
def completed (p : Place) (text : List Char) : Place :=
  { p with names := p.names.dropLast ++ [complete text (p.names.getLast?.getD [])] }

/-- The place to which a specifier leads from the folder of a file. -/
def ofImport (location specifier : String) : Place :=
  (ofFolder location.toList).enter specifier.toList

/-- The place of a path relative to a current directory. -/
def seenFrom (current path : String) : Place :=
  if isAbsolute path then ofPath path.toList else (ofPath current.toList).enter path.toList

end Place

/-- The extension of the path of a place is that of its last name. -/
theorem extension_write {slashes : Nat} {init : List (List Char)} {last : List Char} (hinit : ∀ s ∈ init, Proper s)
    (hlast : Proper last) : extension (assemble slashes (init ++ [last])).toList = extension last := by
  have hname := Text.getLast?_splitOn '/' (assemble slashes (init ++ [last])).toList
  rw [splitOn_write hinit hlast, ← List.append_assoc, List.getLast?_concat, Option.some.injEq] at hname
  rw [extension, ← hname, extension, Text.afterLast_of_not_mem hlast.no_slash]

/-- **Completing the path of a place completes its last name.** -/
theorem withExtension_write {p : Place} (h : p.Valid) (config : Config) :
    Resolver.withExtension config p.write = (p.completed config.defaultExtension.toList).write := by
  obtain ⟨slashes, names⟩ := p
  have hpos : 0 < slashes := h.slashes_pos
  have hle : slashes ≤ 2 := h.slashes_le
  rcases List.eq_nil_or_concat' names with rfl | ⟨init, last, rfl⟩
  · -- the root has no name, so the extension becomes one
    have hroot : ∀ front : String, front ++ config.defaultExtension =
        String.ofList (front.toList ++ config.defaultExtension.toList) := by
      intro front
      rw [String.ofList_append, String.ofList_toList, String.ofList_toList]
    obtain rfl | rfl : slashes = 1 ∨ slashes = 2 := by omega
    · exact hroot "/"
    · exact hroot "//"
  · have hinit : ∀ s ∈ init, Proper s := fun s hs => h.proper s (by simp [hs])
    have hlast : Proper last := h.proper last (by simp)
    unfold Resolver.withExtension Place.write Place.completed complete
    simp only [extension_write hinit hlast, List.dropLast_concat, List.getLast?_concat, Option.getD_some,
      List.isEmpty_iff]
    split
    · -- the last name has no extension, and one is appended
      have hne : last ++ config.defaultExtension.toList ≠ [] := by simp [hlast.ne_nil]
      rw [← String.toList_inj, toList_assemble_append hlast, assemble_eq hne, String.toList_ofList]
      rfl
    · rfl

/-- A name that is completed with the default extension is one that a walk appends. -/
theorem complete_ts {name : List Char} (hslash : '/' ∉ name) (hback : name ≠ ['.', '.']) (hdot : name ≠ ['.']) :
    Proper (complete ".ts".toList name) ∧ complete ".ts".toList name ≠ ['.', '.'] := by
  unfold complete
  split
  · -- the last character is a letter
    have hlast : (name ++ ".ts".toList).getLast? = some 's' := by simp [List.getLast?_append]
    have hne : ∀ other : List Char, other.getLast? ≠ some 's' → name ++ ".ts".toList ≠ other := by
      rintro other hother rfl
      exact hother hlast
    exact ⟨⟨hne _ (by simp), hne _ (by decide), by simp [hslash]⟩, hne _ (by decide)⟩
  · next hext =>
    have hnil : name ≠ [] := by
      rintro rfl
      exact hext rfl
    exact ⟨⟨hnil, hdot, hslash⟩, hback⟩

/-- So the completed place is valid. -/
theorem valid_completed_ts {p : Place} (h : p.Valid) : (p.completed ".ts".toList).Valid := by
  have hlast : '/' ∉ p.names.getLast?.getD [] ∧ p.names.getLast?.getD [] ≠ ['.', '.'] ∧
      p.names.getLast?.getD [] ≠ ['.'] := by
    cases hname : p.names.getLast? with
    | none => decide
    | some name =>
      have hmem := List.mem_of_getLast? hname
      exact ⟨(h.proper name hmem).no_slash, h.ne_back name hmem, (h.proper name hmem).ne_dot⟩
  obtain ⟨hproper, hback⟩ := complete_ts hlast.1 hlast.2.1 hlast.2.2
  have hnames : ∀ name ∈ (p.completed ".ts".toList).names, name ∈ p.names ∨
      name = complete ".ts".toList (p.names.getLast?.getD []) := by
    intro name hname
    rcases List.mem_append.mp hname with hname | hname
    · exact .inl (List.dropLast_subset _ hname)
    · exact .inr (List.mem_singleton.mp hname)
  refine ⟨h.slashes_pos, h.slashes_le, fun name hname => ?_, fun name hname => ?_⟩
  · rcases hnames name hname with hname | rfl
    · exact h.proper name hname
    · exact hproper
  · rcases hnames name hname with hname | rfl
    · exact h.ne_back name hname
    · exact hback

-- ---------------------------------------------------------------------------
-- Canonical paths
-- ---------------------------------------------------------------------------

/-- An absolute path that is its own normal form: a root and names, none of which is empty, `.` or `..`. -/
structure Canonical (path : String) : Prop where
  absolute : isAbsolute path = true
  normal : normalize path = path
  written : ∃ p : Place, p.Valid ∧ p.write = path

theorem canonical_write {p : Place} (h : p.Valid) : Canonical p.write :=
  ⟨isAbsolute_write h, normalize_write h, p, h, rfl⟩

/-- **A canonical path is determined by its place.** -/
theorem Canonical.eq_of_ofPath {path path' : String} (h : Canonical path) (h' : Canonical path')
    (hplace : Place.ofPath path.toList = Place.ofPath path'.toList) : path = path' := by
  obtain ⟨p, hp, rfl⟩ := h.written
  obtain ⟨p', hp', rfl⟩ := h'.written
  rw [ofPath_write hp, ofPath_write hp'] at hplace
  rw [hplace]

theorem isAbsolute_append {base : String} (h : isAbsolute base = true) (more : String) :
    isAbsolute (base ++ more) = true := by
  obtain ⟨rest, hrest⟩ := List.head?_eq_some_iff.mp (beq_iff_eq.mp h)
  rw [isAbsolute, String.toList_append, hrest]
  rfl

/-- Joining to an absolute path gives an absolute path. -/
theorem isAbsolute_join {base path : String} (h : isAbsolute base = true) : isAbsolute (join base path) = true := by
  unfold join
  split
  · assumption
  · split
    · exact isAbsolute_append h path
    · exact isAbsolute_append (isAbsolute_append h "/") path

/-- The normal form of a relative import is written from its place. -/
theorem normalize_import {location specifier : String} (habsolute : isAbsolute location = true)
    (hrelative : specifier.toList.head? = some '.') :
    normalize (join (directory location) specifier) = (Place.ofImport location specifier).write ∧
      (Place.ofImport location specifier).Valid := by
  obtain ⟨hdirectory, hfolder⟩ := ofPath_directory habsolute
  have hspecifier : specifier.toList.head? ≠ some '/' := by
    rw [hrelative]
    decide
  have hplace : Place.ofPath (join (directory location) specifier).toList = Place.ofImport location specifier := by
    rw [ofPath_join hdirectory hspecifier, hfolder]
    rfl
  rw [normalize_eq_write (isAbsolute_join hdirectory), ← hplace]
  exact ⟨rfl, valid_ofPath (isAbsolute_join hdirectory)⟩

/-- The absolute form of a path is written from its place. -/
theorem absolute_eq_write {current path : String} (hcurrent : isAbsolute current = true) :
    absolute current path = (Place.seenFrom current path).write ∧ (Place.seenFrom current path).Valid := by
  unfold absolute Place.seenFrom
  split
  · next hpath => exact ⟨normalize_eq_write hpath, valid_ofPath hpath⟩
  · next hpath =>
    have hjoin := @ofPath_join current path hcurrent fun hhead => hpath (beq_iff_eq.mpr hhead)
    rw [normalize_eq_write (isAbsolute_join hcurrent), ← hjoin]
    exact ⟨rfl, valid_ofPath (isAbsolute_join hcurrent)⟩

end Path

-- ---------------------------------------------------------------------------
-- Ids of imports and roots
-- ---------------------------------------------------------------------------

open BlockingCalls.Path (Place Canonical)

/-- An absolute path is not remote. -/
theorem Config.not_isRemote_of_absolute {config : Config} (hschemes : config.remoteSchemes = ({} : Config).remoteSchemes)
    {path : String} (h : Path.isAbsolute path = true) : config.isRemote path = false := by
  obtain ⟨rest, hrest⟩ := List.head?_eq_some_iff.mp (beq_iff_eq.mp h)
  rw [isRemote, hschemes, beginsWithAny, hrest]
  rfl

namespace Resolver

variable {r : Resolver}

/-- **The target of a relative import of a local module** is written from the place of the specifier, completed with the
extension. -/
theorem resolve_of_absolute (hschemes : r.config.remoteSchemes = ({} : Config).remoteSchemes)
    {location specifier : String} (habsolute : Path.isAbsolute location = true)
    (hrelative : specifier.toList.head? = some '.') {moduleId : ModuleId}
    (hid : moduleId = ((Place.ofImport location specifier).completed r.config.defaultExtension.toList).write) :
    r.resolve specifier location =
      .ok (if r.ignore.ignore (dropSlashes moduleId) then .skipped .ignored else .found moduleId false) := by
  obtain ⟨hnormal, hvalid⟩ := Path.normalize_import habsolute hrelative
  rw [resolve, hrelative, if_pos (beq_self_eq_true _), Config.not_isRemote_of_absolute hschemes habsolute, resolveLocal,
    hnormal, Path.withExtension_write hvalid, ← hid]
  rfl

/-- With the default extension it is canonical. -/
theorem canonical_import (hextension : r.config.defaultExtension = ({} : Config).defaultExtension)
    {location specifier : String} (habsolute : Path.isAbsolute location = true)
    (hrelative : specifier.toList.head? = some '.') :
    Canonical ((Place.ofImport location specifier).completed r.config.defaultExtension.toList).write := by
  rw [hextension]
  exact Path.canonical_write (Path.valid_completed_ts (Path.normalize_import habsolute hrelative).2)

/-- The id of a local root is canonical, and written from its place. -/
theorem canonical_rootModule {current path : String} (hcurrent : Path.isAbsolute current = true)
    (hlocal : r.config.isRemote path = false) :
    Canonical (r.rootModule current path) ∧ r.rootModule current path = (Place.seenFrom current path).write := by
  obtain ⟨hwritten, hvalid⟩ := @Path.absolute_eq_write current path hcurrent
  rw [rootModule, hlocal, if_neg Bool.false_ne_true, hwritten]
  exact ⟨Path.canonical_write hvalid, rfl⟩

/-- A root is remote or has a canonical id. -/
theorem isRemote_or_canonical_rootModule {current path : String} (hcurrent : Path.isAbsolute current = true) :
    r.config.isRemote (r.rootModule current path) = true ∨ Canonical (r.rootModule current path) := by
  cases hremote : r.config.isRemote path with
  | true =>
    rw [rootModule, hremote]
    exact .inl hremote
  | false => exact .inr (canonical_rootModule hcurrent hremote).1

/-- A specifier that is not relative is resolved to a remote module, if to any. -/
theorem isRemote_of_resolve_not_dot {specifier location : String} (hrelative : specifier.toList.head? ≠ some '.')
    {moduleId : ModuleId} {isRemote : Bool} (h : r.resolve specifier location = .ok (.found moduleId isRemote)) :
    r.config.isRemote moduleId = true := by
  rw [resolve, if_neg (by simpa using hrelative)] at h
  split at h
  · cases h
  · split at h
    · next hremote =>
      split at h
      · cases h
        exact hremote
      · cases h
    · cases h

end Resolver

-- ---------------------------------------------------------------------------
-- Modules that are reached
-- ---------------------------------------------------------------------------

namespace Codebase

variable {c : Codebase}

/-- The schemes and the extension are the default ones, and what is fetched lies at URLs of the web. -/
structure OfWeb (c : Codebase) : Prop where
  schemes : c.resolver.config.remoteSchemes = ({} : Config).remoteSchemes
  extension : c.resolver.config.defaultExtension = ({} : Config).defaultExtension
  reader : c.reader.remoteSchemes = c.resolver.config.remoteSchemes
  pages : ∀ location ∈ c.world.pageLocations, ∃ scheme ∈ Url.webSchemes, Url.opening scheme <+: location.toList

/-- A module that can be parsed is remote and lies at a URL, or is local and lies at its id. -/
theorem location_of_find? (hweb : c.OfWeb) {x : ModuleId} {p : Parsed} (h : c.find? x = some p) :
    (∃ scheme ∈ Url.webSchemes, Url.opening scheme <+: p.location.toList) ∨
      (c.resolver.config.isRemote x = false ∧ p.location = x) := by
  obtain ⟨source, hread, hlocation, _⟩ := source_of_find? h
  rw [hlocation]
  rcases Reader.read_ok hread with ⟨_, _, hpage⟩ | ⟨hlocal, _, hself⟩
  · exact .inl (hweb.pages _ hpage)
  · rw [hweb.reader] at hlocal
    exact .inr ⟨hlocal, hself⟩

/-- Modules that are remote or have canonical ids import only such modules. -/
theorem Imports.canonical (hweb : c.OfWeb) {x y : ModuleId} (h : c.Imports x y)
    (hx : c.resolver.config.isRemote x = true ∨ Canonical x) : c.resolver.config.isRemote y = true ∨ Canonical y := by
  obtain ⟨p, hp, d, _, isRemote, hresolve⟩ := h
  by_cases hrelative : d.source.toList.head? = some '.'
  · -- a relative import, of a page or of a file
    rcases location_of_find? hweb hp with ⟨scheme, hscheme, hlocation⟩ | ⟨hlocal, hself⟩
    · exact .inl (Resolver.isRemote_of_resolve_dot hweb.schemes hscheme hlocation hrelative hresolve)
    · have habsolute : Path.isAbsolute p.location = true := by
        rw [hself]
        exact (hx.resolve_left (by simp [hlocal])).absolute
      rw [Resolver.resolve_of_absolute hweb.schemes habsolute hrelative rfl] at hresolve
      split at hresolve
      · cases hresolve
      · cases hresolve
        exact .inr (Resolver.canonical_import hweb.extension habsolute hrelative)
  · -- any other import is remote
    exact .inl (Resolver.isRemote_of_resolve_not_dot hrelative hresolve)

/-- **All reachable modules are remote or have canonical ids.** By induction along the imports. -/
theorem Reachable.canonical (hweb : c.OfWeb) {root x : ModuleId} (h : c.Reachable root x)
    (hroot : c.resolver.config.isRemote root = true ∨ Canonical root) :
    c.resolver.config.isRemote x = true ∨ Canonical x := by
  induction h with
  | root _ => exact hroot
  | step _ himports _ ih => exact himports.canonical hweb ih

end Codebase

-- ---------------------------------------------------------------------------
-- One place, one id
-- ---------------------------------------------------------------------------

namespace Resolver

/-- **The ids of local modules are canonical.** A relative import of a local module that is not skipped is resolved to a
local module whose id is the path of the place to which the specifier leads, completed with the extension, and all imports
with this place have the same id. The id of a root is written from its place as well. Hence, whatever is analysed together,
no two local modules have the same place, if what is fetched lies at URLs of the web. -/
theorem local_ids_canonical (r : Resolver) (hschemes : r.config.remoteSchemes = ({} : Config).remoteSchemes)
    (hextension : r.config.defaultExtension = ({} : Config).defaultExtension) :
    (∀ location specifier moduleId isRemote, Path.isAbsolute location = true → specifier.toList.head? = some '.' →
      r.resolve specifier location = .ok (.found moduleId isRemote) →
      isRemote = false ∧ Canonical moduleId ∧ r.config.isRemote moduleId = false ∧
        moduleId = ((Place.ofImport location specifier).completed ".ts".toList).write ∧
        ∀ location' specifier', Path.isAbsolute location' = true → specifier'.toList.head? = some '.' →
          Place.ofImport location' specifier' = Place.ofImport location specifier →
          r.resolve specifier' location' = .ok (.found moduleId false)) ∧
    (∀ current path, Path.isAbsolute current = true → r.config.isRemote path = false →
      Canonical (r.rootModule current path) ∧ r.config.isRemote (r.rootModule current path) = false ∧
        r.rootModule current path = (Place.seenFrom current path).write) ∧
    ∀ c : Codebase, c.resolver = r → c.reader.remoteSchemes = r.config.remoteSchemes →
      (∀ location ∈ c.world.pageLocations, ∃ scheme ∈ Url.webSchemes, Url.opening scheme <+: location.toList) →
      ∀ current path current' path' x y, Path.isAbsolute current = true → Path.isAbsolute current' = true →
        c.Reachable (r.rootModule current path) x → c.Reachable (r.rootModule current' path') y →
        r.config.isRemote x = false → r.config.isRemote y = false →
        Place.ofPath x.toList = Place.ofPath y.toList → x = y := by
  refine ⟨?_, ?_, ?_⟩
  · -- imports
    intro location specifier moduleId isRemote habsolute hrelative hresolve
    have hcanonical := @canonical_import r hextension location specifier habsolute hrelative
    rw [resolve_of_absolute hschemes habsolute hrelative rfl] at hresolve
    split at hresolve
    · cases hresolve
    · next hkept =>
      cases hresolve
      refine ⟨rfl, hcanonical, Config.not_isRemote_of_absolute hschemes hcanonical.absolute, by rw [hextension], ?_⟩
      intro location' specifier' habsolute' hrelative' hplace
      rw [resolve_of_absolute hschemes habsolute' hrelative' rfl, hplace, if_neg hkept]
  · -- roots
    intro current path hcurrent hlocal
    obtain ⟨hcanonical, hwritten⟩ := @canonical_rootModule r current path hcurrent hlocal
    exact ⟨hcanonical, Config.not_isRemote_of_absolute hschemes hcanonical.absolute, hwritten⟩
  · -- reachable modules: canonical ids are determined by their places
    rintro c rfl hreader hpages current path current' path' x y hcurrent hcurrent' hx hy hlocalX hlocalY hplace
    have hweb : c.OfWeb := ⟨hschemes, hextension, hreader, hpages⟩
    have hcanonicalX := (hx.canonical hweb (isRemote_or_canonical_rootModule hcurrent)).resolve_left (by simp [hlocalX])
    have hcanonicalY := (hy.canonical hweb (isRemote_or_canonical_rootModule hcurrent')).resolve_left (by simp [hlocalY])
    exact hcanonicalX.eq_of_ofPath hcanonicalY hplace

end Resolver

namespace Sample

/-- The two files that import each other, with nothing on the web. -/
def codebase : Codebase where
  world := world
  resolver := session.resolver
  reader := session.reader

/-- The first file imports the second. -/
theorem codebase_imports : codebase.Imports "/work/a.ts" "/work/b.ts" := by
  have htargets : (codebase.find? "/work/a.ts").bind (fun p => (codebase.targetsOf p).toOption) = some ["/work/b.ts"] := by
    decide +kernel
  obtain ⟨p, hp, hts⟩ := Option.bind_eq_some_iff.mp htargets
  cases hopens : codebase.targetsOf p with
  | error fault =>
    rw [hopens] at hts
    cases hts
  | ok ts =>
    rw [hopens] at hts
    cases hts
    exact Codebase.Opens.imports ⟨p, hp, hopens⟩ List.mem_cons_self

end Sample

/-- Two slashes at the root, components that change nothing, and a module that is both imported and a root. -/
theorem Resolver.local_ids_canonical_two_ways :
    Sample.session.resolver.resolve "./..//x/./y" "//a/../b//c/d.ts" = .ok (.found "//b/x/y.ts" false) ∧
      Canonical "//b/x/y.ts" ∧
      Sample.session.resolver.resolve "../b/x/y" "//b/z.ts" = .ok (.found "//b/x/y.ts" false) ∧
      Canonical (Sample.session.resolver.rootModule "/work" "..//work/./b.ts") ∧
      Sample.codebase.Reachable (Sample.session.resolver.rootModule "/work" "a.ts") "/work/b.ts" ∧
      "/work/b.ts" = Sample.session.resolver.rootModule "/work" "..//work/./b.ts" := by
  obtain ⟨himport, hroot, hreached⟩ := Resolver.local_ids_canonical Sample.session.resolver rfl rfl
  have hfound : Sample.session.resolver.resolve "./..//x/./y" "//a/../b//c/d.ts" = .ok (.found "//b/x/y.ts" false) := rfl
  obtain ⟨_, hcanonical, _, _, hsame⟩ := himport _ _ _ _ (by decide) (by decide) hfound
  have hreach : Sample.codebase.Reachable (Sample.session.resolver.rootModule "/work" "a.ts") "/work/b.ts" :=
    .step (.root id) Sample.codebase_imports id
  refine ⟨hfound, hcanonical, hsame _ _ (by decide) (by decide) (by decide),
    (hroot "/work" "..//work/./b.ts" (by decide) (by decide)).1, hreach, ?_⟩
  exact hreached Sample.codebase rfl rfl (List.forall_mem_nil _) _ _ _ _ _ _ (by decide) (by decide) hreach
    (.root id) (by decide) (by decide) (by decide)

end BlockingCalls
