/-! # Maps that remember the order of insertion

    An `OrderedMap` holds values under distinct names, in the order in which the names were first
    given.  Giving a name again replaces its value in place. -/

namespace DotLayout

/-- Values under distinct names, in the order in which the names were first given. -/
structure OrderedMap (α : Type) where
  entries : List (String × α)
  keys_nodup : (entries.map Prod.fst).Nodup

namespace OrderedMap

variable {α : Type}

/-- The keys, in the order in which they were first inserted. -/
def keys (m : OrderedMap α) : List String := m.entries.map Prod.fst

/-- A map without entries. -/
def empty : OrderedMap α := ⟨[], List.nodup_nil⟩

instance : EmptyCollection (OrderedMap α) := ⟨empty⟩

instance : Inhabited (OrderedMap α) := ⟨empty⟩

/-- Whether there is no entry. -/
def isEmpty (m : OrderedMap α) : Bool := m.entries.isEmpty

/-- The value under a key, if there is one. -/
def get? (m : OrderedMap α) (key : String) : Option α := m.entries.lookup key

/-- The entries after `value` is given to `key`: in place if the name is there, else at the end. -/
def put (key : String) (value : α) : List (String × α) → List (String × α)
  | [] => [(key, value)]
  | entry :: rest =>
    if entry.1 = key then (key, value) :: rest else entry :: put key value rest

/-- Putting a value under a key adds that key and no other one. -/
theorem mem_keys_put {key k : String} {value : α} {entries : List (String × α)} :
    k ∈ (put key value entries).map Prod.fst ↔ k = key ∨ k ∈ entries.map Prod.fst := by
  induction entries with
  | nil => simp [put]
  | cons entry rest ih =>
    by_cases h : entry.1 = key
    · simp [put, h]
    · rw [put, if_neg h, List.map_cons, List.mem_cons, ih, List.map_cons, List.mem_cons]
      grind

/-- Names stay distinct when a value is given. -/
theorem keys_put_nodup {key : String} {value : α} {entries : List (String × α)}
    (h : (entries.map Prod.fst).Nodup) : ((put key value entries).map Prod.fst).Nodup := by
  induction entries with
  | nil => simp [put]
  | cons entry rest ih =>
    obtain ⟨head_new, rest_nodup⟩ := List.nodup_cons.1 h
    by_cases hk : entry.1 = key
    · rw [put, if_pos hk]
      exact List.nodup_cons.2 ⟨hk ▸ head_new, rest_nodup⟩
    · rw [put, if_neg hk]
      refine List.nodup_cons.2 ⟨?_, ih rest_nodup⟩
      intro hm
      rcases mem_keys_put.1 hm with he | he
      · exact hk he
      · exact head_new he

/-- Gives a value to a name. -/
def insert (m : OrderedMap α) (key : String) (value : α) : OrderedMap α :=
  ⟨put key value m.entries, keys_put_nodup m.keys_nodup⟩

/-- Gives all values of a list to their names, later ones winning. -/
def insertAll (m : OrderedMap α) (entries : List (String × α)) : OrderedMap α :=
  entries.foldl (fun m entry => m.insert entry.1 entry.2) m

/-- The map of a list of names and values, later values winning. -/
def ofList (entries : List (String × α)) : OrderedMap α := empty.insertAll entries

/-- A value for a new name comes last. -/
theorem put_of_notMem {key : String} {value : α} {entries : List (String × α)}
    (h : key ∉ entries.map Prod.fst) : put key value entries = entries ++ [(key, value)] := by
  induction entries with
  | nil => rfl
  | cons entry rest ih =>
    obtain ⟨head_ne, rest_new⟩ : key ≠ entry.1 ∧ key ∉ rest.map Prod.fst := by simpa using h
    rw [put, if_neg fun he => head_ne he.symm, ih rest_new, List.cons_append]

/-- Values for new names are added in their order. -/
theorem entries_insertAll {entries : List (String × α)} (m : OrderedMap α)
    (h : ((m.entries ++ entries).map Prod.fst).Nodup) :
    (m.insertAll entries).entries = m.entries ++ entries := by
  induction entries generalizing m with
  | nil => simp [insertAll]
  | cons entry rest ih =>
    have hnew : entry.1 ∉ m.entries.map Prod.fst := by
      intro hmem
      rw [List.map_append, List.nodup_append] at h
      exact h.2.2 _ hmem _ (by simp) rfl
    have hins : (m.insert entry.1 entry.2).entries = m.entries ++ [entry] := put_of_notMem hnew
    have hrest := ih (m.insert entry.1 entry.2) (by simpa [hins] using h)
    rw [hins, List.append_assoc, List.singleton_append] at hrest
    exact hrest

/-- The map of a list of distinct names has the list itself as its entries. -/
theorem entries_ofList {entries : List (String × α)} (h : (entries.map Prod.fst).Nodup) :
    (ofList entries).entries = entries :=
  entries_insertAll empty (by simpa [empty] using h)

/-- A value is found under a key exactly if both are an entry. -/
theorem get?_eq_some_iff {m : OrderedMap α} {key : String} {value : α} :
    m.get? key = some value ↔ (key, value) ∈ m.entries := by
  rw [get?, List.lookup_eq_some_iff]
  constructor
  · rintro ⟨before, after, he, -⟩
    simp [he]
  · intro hmem
    obtain ⟨before, after, he⟩ := List.append_of_mem hmem
    refine ⟨before, after, he, ?_⟩
    intro entry hentry
    have hnodup := m.keys_nodup
    rw [he, List.map_append, List.nodup_append] at hnodup
    have hne := hnodup.2.2 entry.1 (List.mem_map_of_mem hentry) key (by simp)
    exact bne_iff_ne.2 hne.symm

end OrderedMap

end DotLayout
