import BlockingCalls.Graph.Calls
import BlockingCalls.Graph.Alias
import Mathlib.Data.List.Induction
import Mathlib.Data.List.Nodup

/-!
# Look-up and entries

A table is read in two ways: by look-up, and as the list of its entries. Every value that is found is an entry. The
converse needs keys without duplicates, which `put` preserves. Tables of tables (`Aliases`) and tables of lists
(`CallGraph`) are read as sets of triples and pairs, and the lemmas here say what each operation does to these sets.

## Results

* `Table.get?_eq_some_iff`    — without duplicate keys, look-up and entries agree.
* `Table.nodup_keys_put`      — a put adds no duplicate key.
* `Table.mem_keys_putAll`, `Table.mem_entries_putAll` — what several puts add.
* `Table.keys_put`, `Table.get?_putAll` — the order of keys, and which of several entries counts.
* `Aliases.mem_items_iff_get?` — the same for imports; `Aliases.TellsApart.record` is its invariant.
* `CallGraph.mem_edges_add`   — merging a module adds its calls and nothing else.
-/

namespace BlockingCalls

/-- Erasing duplicates leaves none. -/
theorem nodup_eraseDups {α : Type} [BEq α] [LawfulBEq α] (xs : List α) : xs.eraseDups.Nodup := by
  match xs with
  | [] => simp
  | x :: xs =>
    rw [List.eraseDups_cons, List.nodup_cons]
    refine ⟨?_, nodup_eraseDups (xs.filter fun y => !y == x)⟩
    simp [List.mem_eraseDups]
termination_by xs.length
decreasing_by exact Nat.lt_succ_of_le (List.length_filter_le _ _)

-- ---------------------------------------------------------------------------
-- Tables
-- ---------------------------------------------------------------------------

namespace Table

variable {α : Type}

/-- A value that is found is an entry. -/
theorem mem_of_lookup_eq_some {key : String} {value : α} {entries : List (String × α)}
    (h : lookup key entries = some value) : (key, value) ∈ entries := by
  induction entries with
  | nil => cases h
  | cons e rest ih =>
    obtain ⟨k, v⟩ := e
    by_cases hk : k = key
    · rw [lookup, if_pos hk] at h
      rw [hk, Option.some.inj h]
      exact List.mem_cons_self
    · rw [lookup, if_neg hk] at h
      exact List.mem_cons_of_mem _ (ih h)

theorem mem_entries_of_get?_eq_some {t : Table α} {key : String} {value : α} (h : t.get? key = some value) :
    (key, value) ∈ t.entries :=
  mem_of_lookup_eq_some h

/-- A key is found if and only if it has an entry. -/
theorem isSome_get?_iff {t : Table α} {key : String} : (t.get? key).isSome ↔ key ∈ t.keys := by
  unfold get? keys
  induction t.entries with
  | nil => simp [lookup]
  | cons e rest ih =>
    obtain ⟨k, v⟩ := e
    by_cases hk : k = key
    · simp [lookup, hk]
    · rw [lookup, if_neg hk, ih, List.map_cons, List.mem_cons]
      exact ⟨.inr, fun h => h.resolve_left (Ne.symm hk)⟩

/-- Without duplicate keys, a value is found under a key if and only if it is an entry. -/
theorem get?_eq_some_iff {t : Table α} (h : t.keys.Nodup) {key : String} {value : α} :
    t.get? key = some value ↔ (key, value) ∈ t.entries := by
  refine ⟨mem_entries_of_get?_eq_some, fun hmem => ?_⟩
  obtain ⟨entries⟩ := t
  unfold keys at h
  unfold get?
  simp only at h hmem ⊢
  induction entries with
  | nil => cases hmem
  | cons e rest ih =>
    obtain ⟨k, v⟩ := e
    obtain ⟨hnot, hrest⟩ := List.nodup_cons.mp h
    rcases List.mem_cons.mp hmem with heq | hmem
    · -- the entry is the first one
      cases heq
      rw [lookup, if_pos rfl]
    · -- the entry is further on, so the first one has another key
      have hk : k ≠ key := by
        rintro rfl
        exact hnot (List.mem_map.mpr ⟨_, hmem, rfl⟩)
      rw [lookup, if_neg hk]
      exact ih hrest hmem

/-- A put adds no duplicate key. -/
theorem nodup_keys_put {t : Table α} (h : t.keys.Nodup) (key : String) (value : α) : (t.put key value).keys.Nodup := by
  obtain ⟨entries⟩ := t
  unfold put keys at *
  simp only at h ⊢
  induction entries with
  | nil => simp [replace]
  | cons e rest ih =>
    obtain ⟨k, v⟩ := e
    obtain ⟨hnot, hrest⟩ := List.nodup_cons.mp h
    by_cases hk : k = key
    · -- the key is there: the keys are unchanged
      subst hk
      rw [replace, if_pos rfl]
      exact h
    · -- the key is put further on
      rw [replace, if_neg hk]
      refine List.nodup_cons.mpr ⟨?_, ih hrest⟩
      rw [mem_keys_replace]
      rintro (heq | hmem)
      · exact hk heq
      · exact hnot hmem

@[simp] theorem get?_alter (t : Table α) (key other : String) (value : α) (change : α → α) :
    (t.alter key value change).get? other =
      if key = other then some (change ((t.get? key).getD value)) else t.get? other :=
  get?_put ..

/-- Replacing brings in the new entry and no other. -/
theorem mem_replace {key : String} {value : α} {entries : List (String × α)} {e : String × α}
    (h : e ∈ replace key value entries) : e = (key, value) ∨ e ∈ entries := by
  induction entries with
  | nil => exact .inl (List.mem_singleton.mp h)
  | cons first rest ih =>
    obtain ⟨k, v⟩ := first
    by_cases hk : k = key
    · rw [replace, if_pos hk] at h
      exact (List.mem_cons.mp h).imp id (List.mem_cons_of_mem _)
    · rw [replace, if_neg hk] at h
      rcases List.mem_cons.mp h with rfl | h
      · exact .inr List.mem_cons_self
      · exact (ih h).imp id (List.mem_cons_of_mem _)

/-- Putting several entries brings in no others. -/
theorem mem_entries_putAll {t : Table α} {entries : List (String × α)} {e : String × α}
    (h : e ∈ (t.putAll entries).entries) : e ∈ t.entries ∨ e ∈ entries := by
  unfold putAll at h
  induction entries generalizing t with
  | nil => exact .inl h
  | cons first rest ih =>
    rcases ih h with h | h
    · rcases mem_replace h with rfl | h
      · exact .inr List.mem_cons_self
      · exact .inl h
    · exact .inr (List.mem_cons_of_mem _ h)

/-- The keys after several puts. -/
theorem mem_keys_putAll {t : Table α} {entries : List (String × α)} {key : String} :
    key ∈ (t.putAll entries).keys ↔ key ∈ t.keys ∨ key ∈ entries.map (·.1) := by
  unfold putAll
  induction entries generalizing t with
  | nil => simp
  | cons first rest ih =>
    rw [List.foldl_cons, ih, mem_keys_put, List.map_cons, List.mem_cons]
    tauto

theorem mem_keys_alter {t : Table α} {key other : String} {value : α} {change : α → α} :
    other ∈ (t.alter key value change).keys ↔ other = key ∨ other ∈ t.keys :=
  mem_keys_put ..

theorem nodup_keys_alter {t : Table α} (h : t.keys.Nodup) (key : String) (value : α) (change : α → α) :
    (t.alter key value change).keys.Nodup :=
  nodup_keys_put h ..

/-- The order of keys after a put: a key keeps its position, or stands at the end if it is new. -/
def withKey (keys : List String) (key : String) : List String :=
  if key ∈ keys then keys else keys ++ [key]

/-- The keys after a put, in order. -/
theorem keys_put (t : Table α) (key : String) (value : α) : (t.put key value).keys = withKey t.keys key := by
  unfold put keys withKey
  simp only
  induction t.entries with
  | nil => rfl
  | cons e rest ih =>
    obtain ⟨k, v⟩ := e
    rw [replace]
    by_cases hk : k = key
    · simp [hk]
    · rw [if_neg hk, List.map_cons, ih, List.map_cons]
      by_cases hmem : key ∈ rest.map (·.1)
      · -- the key has an entry further on, and keeps its position
        rw [if_pos hmem, if_pos (List.mem_cons_of_mem _ hmem)]
      · -- the key is new
        have hnot : key ∉ k :: rest.map (·.1) := fun hcons => (List.mem_cons.mp hcons).elim (Ne.symm hk) hmem
        rw [if_neg hmem, if_neg hnot, List.cons_append]

/-- Keys that are put one after the other stand in the order of their first occurrences. -/
theorem foldl_withKey (keys : List String) : keys.foldl withKey [] = keys.eraseDups := by
  induction keys using List.reverseRecOn with
  | nil => rfl
  | append_singleton front key ih =>
    rw [List.foldl_append, ih, List.eraseDups_append, List.foldl_cons, List.foldl_nil, withKey]
    by_cases hmem : key ∈ front
    · simp [hmem, List.removeAll]
    · simp [hmem, List.removeAll, List.eraseDups_cons]

/-- Look-up in two lists of entries, of which the first has precedence. -/
theorem lookup_append (key : String) (a b : List (String × α)) :
    lookup key (a ++ b) = (lookup key a).or (lookup key b) := by
  induction a with
  | nil => rfl
  | cons e rest ih =>
    obtain ⟨k, v⟩ := e
    by_cases hk : k = key
    · simp [lookup, hk]
    · simp [lookup, hk, ih]

/-- Of the entries that are put under a key the last one counts. -/
theorem get?_putAll (t : Table α) (entries : List (String × α)) (key : String) :
    (t.putAll entries).get? key = (lookup key entries.reverse).or (t.get? key) := by
  unfold putAll
  induction entries generalizing t with
  | nil => rfl
  | cons e rest ih =>
    obtain ⟨k, v⟩ := e
    rw [List.foldl_cons, ih, List.reverse_cons, lookup_append, get?_put, Option.or_assoc]
    by_cases hk : k = key
    · simp [lookup, hk]
    · simp [lookup, hk]

theorem putAll_append (t : Table α) (a b : List (String × α)) : t.putAll (a ++ b) = (t.putAll a).putAll b :=
  List.foldl_append

end Table

-- ---------------------------------------------------------------------------
-- Imports
-- ---------------------------------------------------------------------------

namespace Aliases

/-- The imports as triples. -/
theorem mem_items_iff {a : Aliases} {moduleId : ModuleId} {localName : Name} {ref : Alias} :
    (moduleId, localName, ref) ∈ a.items ↔
      ∃ names, (moduleId, names) ∈ a.modules.entries ∧ (localName, ref) ∈ names.entries := by
  simp only [items, List.mem_flatMap, List.mem_map, Prod.mk.injEq]
  constructor
  · rintro ⟨⟨m, names⟩, hm, ⟨l, r⟩, hl, rfl, rfl, rfl⟩
    exact ⟨names, hm, hl⟩
  · rintro ⟨names, hm, hl⟩
    exact ⟨(moduleId, names), hm, (localName, ref), hl, rfl, rfl, rfl⟩

/-- An import that is found is among them. -/
theorem mem_items_of_get?_eq_some {a : Aliases} {moduleId : ModuleId} {localName : Name} {ref : Alias}
    (h : a.get? moduleId localName = some ref) : (moduleId, localName, ref) ∈ a.items := by
  obtain ⟨names, hnames, href⟩ := Option.bind_eq_some_iff.mp h
  rw [mem_items_iff]
  exact ⟨names, Table.mem_entries_of_get?_eq_some hnames, Table.mem_entries_of_get?_eq_some href⟩

/-- So are the imports by a local name. -/
theorem mem_items_of_mem_forLocal {a : Aliases} {localName : Name} {link : ModuleId × Alias}
    (h : link ∈ a.forLocal localName) : (link.1, localName, link.2) ∈ a.items := by
  obtain ⟨e, he, hlink⟩ := List.mem_filterMap.mp h
  obtain ⟨ref, href, rfl⟩ := Option.map_eq_some_iff.mp hlink
  rw [mem_items_iff]
  exact ⟨e.2, he, Table.mem_entries_of_get?_eq_some href⟩

/-- Neither modules nor the local names of a module have duplicates. -/
structure TellsApart (a : Aliases) : Prop where
  modules : a.modules.keys.Nodup
  names : ∀ moduleId names, a.modules.get? moduleId = some names → names.keys.Nodup

/-- **Imports as a set and by look-up agree**, where there are no duplicates. -/
theorem mem_items_iff_get? {a : Aliases} (h : a.TellsApart) {moduleId : ModuleId} {localName : Name} {ref : Alias} :
    (moduleId, localName, ref) ∈ a.items ↔ a.get? moduleId localName = some ref := by
  refine ⟨fun hmem => ?_, mem_items_of_get?_eq_some⟩
  obtain ⟨names, hnames, href⟩ := mem_items_iff.mp hmem
  have hfound := (Table.get?_eq_some_iff h.modules).mpr hnames
  rw [get?, hfound]
  exact (Table.get?_eq_some_iff (h.names _ _ hfound)).mpr href

theorem TellsApart.empty : TellsApart {} where
  modules := List.nodup_nil
  names _ _ h := by cases h

/-- Recording an import adds no duplicate. -/
theorem TellsApart.record {a : Aliases} (h : a.TellsApart) (moduleId : ModuleId) (localName : Name) (ref : Alias) :
    (a.record moduleId localName ref).TellsApart where
  modules := Table.nodup_keys_alter h.modules ..
  names other names hnames := by
    unfold Aliases.record at hnames
    rw [Table.get?_alter] at hnames
    split at hnames
    · -- the module itself: one more put
      cases hnames
      apply Table.nodup_keys_put
      cases hold : a.modules.get? moduleId with
      | none => exact List.nodup_nil
      | some old => exact h.names _ _ hold
    · -- another module
      exact h.names _ _ hnames

end Aliases

-- ---------------------------------------------------------------------------
-- Calls
-- ---------------------------------------------------------------------------

namespace CallGraph

/-- The calls as pairs. -/
theorem mem_edges_iff {g : CallGraph} {caller callee : Name} :
    (caller, callee) ∈ g.edges ↔ ∃ callees, (caller, callees) ∈ g.calls.entries ∧ callee ∈ callees := by
  simp only [edges, List.mem_flatMap, List.mem_map, Prod.mk.injEq]
  constructor
  · rintro ⟨⟨f, callees⟩, hf, g, hg, rfl, rfl⟩
    exact ⟨callees, hf, hg⟩
  · rintro ⟨callees, hf, hg⟩
    exact ⟨(caller, callees), hf, callee, hg, rfl, rfl⟩

/-- Inserting several callees. -/
theorem mem_foldl_insert {known callees : List Name} {x : Name} :
    x ∈ callees.foldl (fun known callee => known.insert callee) known ↔ x ∈ known ∨ x ∈ callees := by
  induction callees generalizing known with
  | nil => simp
  | cons callee rest ih =>
    rw [List.foldl_cons, ih, List.mem_insert_iff, List.mem_cons]
    tauto

/-- Replacing the callees found under a caller by more of them adds these and nothing else. By induction on the entries.
-/
theorem mem_edges_replace {entries : List (Name × List Name)} {caller f x : Name} {more : List Name}
    {change : List Name → List Name} (hchange : ∀ known x, x ∈ change known ↔ x ∈ known ∨ x ∈ more) :
    (∃ callees, (f, callees) ∈ Table.replace caller (change ((Table.lookup caller entries).getD [])) entries ∧
        x ∈ callees) ↔
      (∃ callees, (f, callees) ∈ entries ∧ x ∈ callees) ∨ f = caller ∧ x ∈ more := by
  induction entries with
  | nil => simp [Table.replace, Table.lookup, hchange]
  | cons e rest ih =>
    obtain ⟨k, v⟩ := e
    by_cases hk : k = caller
    · -- the caller has an entry, which is replaced
      subst hk
      simp only [Table.replace, Table.lookup, if_true, Option.getD_some, List.mem_cons, Prod.mk.injEq, or_and_right,
        exists_or, and_assoc, exists_and_left, exists_eq_left, hchange, and_or_left]
      exact or_right_comm
    · -- the entry of another caller is kept
      simp only [Table.replace, Table.lookup, if_neg hk, List.mem_cons, or_and_right, exists_or, ih]
      exact or_assoc.symm

/-- The same for a change of a table. -/
theorem mem_edges_alter {calls : Table (List Name)} {caller f x : Name} {more : List Name}
    {change : List Name → List Name} (hchange : ∀ known x, x ∈ change known ↔ x ∈ known ∨ x ∈ more) :
    (f, x) ∈ (CallGraph.mk (calls.alter caller [] change)).edges ↔
      (f, x) ∈ (CallGraph.mk calls).edges ∨ f = caller ∧ x ∈ more := by
  rw [mem_edges_iff, mem_edges_iff]
  exact mem_edges_replace hchange

theorem mem_edges_addCaller {g : CallGraph} {caller : Name} {callees : List Name} {f x : Name} :
    (f, x) ∈ (g.addCaller caller callees).edges ↔ (f, x) ∈ g.edges ∨ f = caller ∧ x ∈ callees :=
  mem_edges_alter fun _ _ => mem_foldl_insert

/-- **Merging the calls of a module adds these calls and nothing else.** -/
theorem mem_edges_add {g : CallGraph} {calls : Table (List Name)} {e : Name × Name} :
    e ∈ (g.add calls).edges ↔ e ∈ g.edges ∨ e ∈ (CallGraph.mk calls).edges := by
  obtain ⟨f, x⟩ := e
  unfold add
  rw [@mem_edges_iff ⟨calls⟩]
  simp only
  induction calls.entries generalizing g with
  | nil => simp
  | cons e rest ih =>
    obtain ⟨caller, callees⟩ := e
    rw [List.foldl_cons, ih, mem_edges_addCaller]
    simp only [List.mem_cons, Prod.mk.injEq, or_and_right, exists_or, and_assoc, exists_and_left, exists_eq_left]
    tauto

/-- Merging the calls of a module adds its callers and nothing else. -/
theorem mem_callers_add {g : CallGraph} {calls : Table (List Name)} {f : Name} :
    f ∈ (g.add calls).callers ↔ f ∈ g.callers ∨ f ∈ calls.keys := by
  unfold add callers Table.keys
  induction calls.entries generalizing g with
  | nil => simp
  | cons e rest ih =>
    rw [List.foldl_cons, ih, List.map_cons, List.mem_cons]
    have hput : f ∈ (g.addCaller e.1 e.2).calls.entries.map (·.1) ↔ f = e.1 ∨ f ∈ g.calls.entries.map (·.1) :=
      Table.mem_keys_put g.calls e.1 f _
    rw [hput]
    tauto

end CallGraph

end BlockingCalls
