/-!
# Tables in order of first insertion

A table maps text keys to values and remembers the order in which its keys were first put. Putting a value
under a known key replaces the value and leaves the key where it stands.

* `get?_put` — a put is seen under its own key and under no other.
* `mem_keys_put` — a put adds its key and loses none.
-/

namespace BlockingCalls

/-- Entries in order of first insertion; `put` keeps the keys apart. -/
structure Table (α : Type) where
  entries : List (String × α) := []
  deriving Repr, BEq, DecidableEq

namespace Table

variable {α : Type}

instance : Inhabited (Table α) := ⟨{}⟩

def lookup (key : String) : List (String × α) → Option α
  | [] => none
  | (k, v) :: rest => if k = key then some v else lookup key rest

def replace (key : String) (value : α) : List (String × α) → List (String × α)
  | [] => [(key, value)]
  | (k, v) :: rest => if k = key then (key, value) :: rest else (k, v) :: replace key value rest

def get? (t : Table α) (key : String) : Option α :=
  lookup key t.entries

def contains (t : Table α) (key : String) : Bool :=
  (t.get? key).isSome

def keys (t : Table α) : List String :=
  t.entries.map (·.1)

def values (t : Table α) : List α :=
  t.entries.map (·.2)

def size (t : Table α) : Nat :=
  t.entries.length

/-- The last value put under a key counts; the key keeps its place. -/
def put (t : Table α) (key : String) (value : α) : Table α :=
  ⟨replace key value t.entries⟩

/-- Changes the value of a key, starting from `value` where the key is new. -/
def alter (t : Table α) (key : String) (value : α) (change : α → α) : Table α :=
  t.put key (change ((t.get? key).getD value))

def putAll (t : Table α) (entries : List (String × α)) : Table α :=
  entries.foldl (fun t e => t.put e.1 e.2) t

def ofList (entries : List (String × α)) : Table α :=
  putAll {} entries

/-! ## Look-up after a put -/

@[simp] theorem get?_empty (key : String) : ({} : Table α).get? key = none := rfl

/-- A look-up finds what was put last. -/
theorem lookup_replace (key other : String) (value : α) (entries : List (String × α)) :
    lookup other (replace key value entries) = if key = other then some value else lookup other entries := by
  induction entries with
  | nil => simp [replace, lookup]
  | cons e rest ih =>
    obtain ⟨k, v⟩ := e
    by_cases h : k = key
    · subst h
      by_cases h' : k = other <;> simp [replace, lookup, h']
    · by_cases h' : k = other
      · subst h'
        simp [replace, lookup, h, Ne.symm h]
      · simp [replace, lookup, h, h', ih]

@[simp] theorem get?_put (t : Table α) (key other : String) (value : α) :
    (t.put key value).get? other = if key = other then some value else t.get? other :=
  lookup_replace key other value t.entries

theorem mem_keys_replace (key other : String) (value : α) (entries : List (String × α)) :
    other ∈ (replace key value entries).map (·.1) ↔ other = key ∨ other ∈ entries.map (·.1) := by
  induction entries with
  | nil => simp [replace]
  | cons e rest ih =>
    obtain ⟨k, v⟩ := e
    by_cases h : k = key
    · subst h
      simp [replace]
    · simp only [replace, h, if_false, List.map_cons, List.mem_cons, ih]
      constructor
      · rintro (rfl | rfl | h')
        · exact .inr (.inl rfl)
        · exact .inl rfl
        · exact .inr (.inr h')
      · rintro (rfl | rfl | h')
        · exact .inr (.inl rfl)
        · exact .inl rfl
        · exact .inr (.inr h')

@[simp] theorem mem_keys_put (t : Table α) (key other : String) (value : α) :
    other ∈ (t.put key value).keys ↔ other = key ∨ other ∈ t.keys :=
  mem_keys_replace key other value t.entries

end Table

end BlockingCalls
