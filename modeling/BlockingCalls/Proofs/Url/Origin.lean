import BlockingCalls.Proofs.Url.Joining
import BlockingCalls.Source
import BlockingCalls.Specifier

/-!
# Relative imports of remote modules

A module that was fetched from the web can import others by relative specifiers. Their targets are computed by joining
URLs, and whether a target is fetched or read from disk is decided anew, by the beginning of its text. For every specifier
the text begins with the scheme and the authority of the importing module; so remote code cannot make the analysis read a
file of this machine, or fetch from another origin, by a relative import.

## Results

* `Config.beginsWithAny_of_opening` — URLs of the web are remote.
* `requests_read_of_opening`        — such modules are fetched, and no other request is made.
* `resolve_of_opening`              — the target of a relative specifier at a URL of the web.
* `relative_stays_at_origin`        — its origin is that of the importing module.
-/

namespace BlockingCalls

open Url (opening webSchemes)

/-- URLs of the web are remote, with the default remote schemes. -/
theorem Config.beginsWithAny_of_opening {schemes : List String} (hschemes : schemes = ({} : Config).remoteSchemes)
    {scheme : String} (hscheme : scheme ∈ webSchemes) {text : String} (h : opening scheme <+: text.toList) :
    Config.beginsWithAny schemes text = true := by
  have hopening : String.ofList (opening scheme) ∈ schemes := by
    rw [hschemes]
    clear h
    revert scheme
    decide
  refine List.any_eq_true.mpr ⟨_, hopening, ?_⟩
  rw [String.toList_ofList, List.isPrefixOf_iff_prefix]
  exact h

/-- A URL of the web is no specifier of the registry. -/
theorem Config.not_beginsWithAny_of_opening {scheme : String} (hscheme : scheme ∈ webSchemes) {text : String}
    (h : opening scheme <+: text.toList) : Config.beginsWithAny ["jsr:"] text = false := by
  have hopening : ∀ scheme ∈ webSchemes, ∃ rest, opening scheme = 'h' :: rest := by
    intro scheme hscheme
    rcases List.mem_pair.mp hscheme with rfl | rfl <;> exact ⟨_, rfl⟩
  obtain ⟨rest, hrest⟩ := hopening scheme hscheme
  obtain ⟨more, hmore⟩ := h
  rw [beginsWithAny, ← hmore, hrest]
  rfl

namespace Reader

/-- Reading a module at a URL of the web makes one request, which fetches the URL. -/
theorem requests_read_of_opening {r : Reader} (hschemes : r.remoteSchemes = ({} : Config).remoteSchemes) {scheme : String}
    (hscheme : scheme ∈ webSchemes) {moduleId : ModuleId} (h : opening scheme <+: moduleId.toList) (mode : Mode)
    (w : World) : (r.read mode w moduleId).requests = [.fetch (.ofText moduleId)] := by
  rw [read_eq, if_pos (Config.beginsWithAny_of_opening hschemes hscheme h),
    if_neg (Bool.eq_false_iff.mp (Config.not_beginsWithAny_of_opening hscheme h)), requests_fetch]

end Reader

namespace Resolver

/-- Completing a path only appends to it. -/
theorem withExtension_eq_append (config : Config) (path : String) :
    ∃ more, (withExtension config path).toList = path.toList ++ more := by
  unfold withExtension
  split
  · exact ⟨_, String.toList_append⟩
  · exact ⟨[], (List.append_nil _).symm⟩

/-- A relative specifier in a remote module is joined to the location, and completed with the default extension. -/
theorem resolve_dot {r : Resolver} {specifier location : String} (hremote : r.config.isRemote location = true)
    (hrelative : specifier.toList.head? = some '.') :
    r.resolve specifier location =
      (Url.join location specifier).map fun url => .found (withExtension r.config url) true := by
  rw [resolve, hrelative, if_pos (beq_self_eq_true _), if_pos hremote, resolveRemote]

section Opening

variable {r : Resolver} {scheme location specifier : String}

/-- If the location parses, the import is resolved to a URL of the same scheme and authority, with text appended to it.
-/
theorem resolve_of_opening (hremote : r.config.isRemote location = true) (hscheme : scheme ∈ webSchemes)
    (hlocation : opening scheme <+: location.toList) (hrelative : specifier.toList.head? = some '.') {origin : Url.Parts}
    (hparse : Url.parse location.toList = .ok origin) :
    origin.scheme = scheme.toList ∧ ∃ (p : Url.Parts) (more : List Char) (moduleId : ModuleId), p.OfWeb scheme ∧
      p.authority = origin.authority ∧ moduleId.toList = Url.render p ++ more ∧
      r.resolve specifier location = .ok (.found moduleId true) := by
  obtain ⟨hsame, p, hweb, hauthority, hjoin⟩ := Url.join_dot hscheme hlocation hrelative hparse
  obtain ⟨more, hid⟩ := withExtension_eq_append r.config (String.ofList (Url.render p))
  rw [String.toList_ofList] at hid
  refine ⟨hsame, p, more, _, hweb, hauthority, hid, ?_⟩
  rw [resolve_dot hremote hrelative, hjoin]
  rfl

/-- If the location does not parse, resolution fails with the fault of the parse. -/
theorem resolve_of_parse_error (hremote : r.config.isRemote location = true)
    (hlocation : opening scheme <+: location.toList) (hrelative : specifier.toList.head? = some '.') {fault : Url.Fault}
    (hparse : Url.parse location.toList = .error fault) : r.resolve specifier location = .error fault := by
  rw [resolve_dot hremote hrelative,
    Url.join_of_parse_error (Url.location_ne_empty hlocation) (Url.specifier_ne_empty hrelative) hparse]
  rfl

/-- The text of a URL of the web starts with its scheme and authority and a slash. -/
theorem origin_prefix_render {p : Url.Parts} (h : p.OfWeb scheme) (more : List Char) :
    opening scheme ++ p.authority ++ ['/'] <+: Url.render p ++ more := by
  obtain ⟨path, hpath⟩ := List.head?_eq_some_iff.mp h.rooted
  rw [Url.render_of_rooted h, Url.Parts.written, hpath]
  simp

theorem opening_prefix_of_origin {authority text : List Char} (h : opening scheme ++ authority ++ ['/'] <+: text) :
    opening scheme <+: text :=
  ((List.prefix_append _ _).trans (List.prefix_append _ _)).trans h

/-- A relative import of a remote module is remote. -/
theorem isRemote_of_resolve_dot (hschemes : r.config.remoteSchemes = ({} : Config).remoteSchemes)
    (hscheme : scheme ∈ webSchemes) (hlocation : opening scheme <+: location.toList)
    (hrelative : specifier.toList.head? = some '.') {moduleId : ModuleId} {isRemote : Bool}
    (h : r.resolve specifier location = .ok (.found moduleId isRemote)) : r.config.isRemote moduleId = true := by
  have hremote : r.config.isRemote location = true := Config.beginsWithAny_of_opening hschemes hscheme hlocation
  cases hparse : Url.parse location.toList with
  | error fault =>
    rw [resolve_of_parse_error hremote hlocation hrelative hparse] at h
    cases h
  | ok origin =>
    obtain ⟨_, p, more, found, hweb, _, hid, hresolve⟩ := resolve_of_opening hremote hscheme hlocation hrelative hparse
    rw [hresolve] at h
    cases h
    refine Config.beginsWithAny_of_opening hschemes hscheme ?_
    rw [hid]
    exact opening_prefix_of_origin (origin_prefix_render hweb more)

end Opening

/-- **Relative imports of a module found at a URL of the web keep the scheme and authority of this URL.** They are
resolved whenever the URL can be parsed, and are not skipped then: they are remote, the id starts with the scheme and
authority and a slash, and parses to a URL with the same scheme and authority. So the module is fetched from there, and
no other request is made. -/
theorem relative_stays_at_origin (r : Resolver) (hschemes : r.config.remoteSchemes = ({} : Config).remoteSchemes)
    {scheme location specifier : String} (hscheme : scheme ∈ webSchemes) (hlocation : opening scheme <+: location.toList)
    (hrelative : specifier.toList.head? = some '.') :
    (∀ fault, Url.parse location.toList = .error fault → r.resolve specifier location = .error fault) ∧
    ∀ origin, Url.parse location.toList = .ok origin → origin.scheme = scheme.toList ∧
      ∃ moduleId, r.resolve specifier location = .ok (.found moduleId true) ∧
        opening scheme ++ origin.authority ++ ['/'] <+: moduleId.toList ∧
        (∃ parts, Url.parse moduleId.toList = .ok parts ∧ parts.scheme = origin.scheme ∧
          parts.authority = origin.authority) ∧
        ∀ (reader : Reader) (mode : Mode) (w : World), reader.remoteSchemes = r.config.remoteSchemes →
          (reader.read mode w moduleId).requests = [.fetch (.ofText moduleId)] := by
  have hremote : r.config.isRemote location = true := Config.beginsWithAny_of_opening hschemes hscheme hlocation
  refine ⟨fun fault hfault => resolve_of_parse_error hremote hlocation hrelative hfault, fun origin hparse => ?_⟩
  obtain ⟨hsame, p, more, moduleId, hweb, hauthority, hid, hresolve⟩ :=
    resolve_of_opening hremote hscheme hlocation hrelative hparse
  have horigin := origin_prefix_render hweb more
  rw [hauthority, ← hid] at horigin
  refine ⟨hsame, moduleId, hresolve, horigin, ?_, ?_⟩
  · rw [hid]
    exact ⟨_, Url.parse_render_append hweb more, hweb.scheme_eq.trans hsame.symm, hauthority⟩
  · intro reader mode w hreader
    exact Reader.requests_read_of_opening (hreader.trans hschemes) hscheme (opening_prefix_of_origin horigin) mode w

/-- Above the root, over a tab, and with slashes in the query and the fragment. -/
theorem relative_stays_at_origin_above_root :
    opening "https" <+: "https://deno.land:443/x/mod.ts?v=1".toList ∧
      ∃ moduleId, Resolver.resolve ⟨{}, []⟩ "./../..\t/../file:///etc/hosts?a/b#//c" "https://deno.land:443/x/mod.ts?v=1" =
          .ok (.found moduleId true) ∧
        "https://deno.land:443/".toList <+: moduleId.toList ∧
        ∀ (mode : Mode) (w : World), (Reader.read {} mode w moduleId).requests = [.fetch (.ofText moduleId)] := by
  have hopening : opening "https" <+: "https://deno.land:443/x/mod.ts?v=1".toList := by decide
  have hrelative : "./../..\t/../file:///etc/hosts?a/b#//c".toList.head? = some '.' := by decide
  have hparse : Url.parse "https://deno.land:443/x/mod.ts?v=1".toList =
      .ok { scheme := "https".toList, authority := "deno.land:443".toList, path := "/x/mod.ts".toList
            query := "v=1".toList } := by
    rfl
  obtain ⟨_, moduleId, hresolve, horigin, _, hread⟩ :=
    (relative_stays_at_origin ⟨{}, []⟩ rfl (by decide) hopening hrelative).2 _ hparse
  exact ⟨hopening, moduleId, hresolve, horigin, fun mode w => hread {} mode w rfl⟩

end Resolver

end BlockingCalls
