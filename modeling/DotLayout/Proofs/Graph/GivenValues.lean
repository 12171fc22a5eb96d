import DotLayout.Proofs.Graph.Keyed

/-! # Values given one after the other

    A map to which the entries of a list are given holds the last value that the list has for each
    name, and its names stand in the order in which they come up first.

    * `get?_insertAll` and `keys_insertAll` : what a map holds after a list of entries.
    * `insertAll_ofList` : gathering entries in a map first and giving its entries to another map
      comes to the same as giving them all one by one, so that merging maps again and again loses
      nothing of this. -/

namespace DotLayout

/-- A list without duplicates loses nothing when they are erased. -/
theorem eraseDups_of_nodup {α : Type} [BEq α] [LawfulBEq α] {l : List α} (h : l.Nodup) :
    l.eraseDups = l := by
  induction l using List.reverseRecOn with
  | nil => rfl
  | append_singleton l a ih =>
      obtain ⟨hinit, -, hnew⟩ := List.nodup_append.1 h
      have hfresh : ¬ l.contains a = true := fun hc =>
        hnew a (List.contains_iff_mem.1 hc) a (List.mem_singleton.2 rfl) rfl
      rw [Layout.eraseDups_concat, if_neg hfresh, ih hinit]

/-- Doubles in the second of two lists may be erased before those of both. -/
theorem eraseDups_append_eraseDups {α : Type} [BEq α] [LawfulBEq α] (a b : List α) :
    (a ++ b.eraseDups).eraseDups = (a ++ b).eraseDups := by
  induction b using List.reverseRecOn with
  | nil => rfl
  | append_singleton b x ih =>
      have hboth : (a ++ b.eraseDups).contains x = (a ++ b).contains x := by
        rw [Bool.eq_iff_iff, List.contains_iff_mem, List.contains_iff_mem, List.mem_append,
          List.mem_append, List.mem_eraseDups]
      rw [← List.append_assoc, Layout.eraseDups_concat (a ++ b), Layout.eraseDups_concat b]
      split
      · rename_i hseen
        have hlast : (a ++ b).contains x = true := by
          rw [List.contains_iff_mem] at hseen ⊢
          exact List.mem_append_right a hseen
        rw [ih, if_pos hlast]
      · rw [← List.append_assoc, Layout.eraseDups_concat, hboth, ih]

namespace OrderedMap

variable {α : Type} {m m' : OrderedMap α}

/-- The values that a list has for a name, in order. -/
def given (key : String) (entries : List (String × α)) : List α :=
  (entries.filter fun entry => entry.1 == key).map Prod.snd

/-- The last value that a list has for a name. -/
def lastGiven? (key : String) (entries : List (String × α)) : Option α :=
  (given key entries).getLast?

@[simp] theorem given_append (key : String) (a b : List (String × α)) :
    given key (a ++ b) = given key a ++ given key b := by
  simp [given]

/-- The last of two lists that gives a value for a key decides. -/
theorem lastGiven?_append (key : String) (a b : List (String × α)) :
    lastGiven? key (a ++ b) = (lastGiven? key b).or (lastGiven? key a) := by
  rw [lastGiven?, given_append, List.getLast?_append]
  rfl

theorem lastGiven?_singleton (key : String) (entry : String × α) :
    lastGiven? key [entry] = if entry.1 = key then some entry.2 else none := by
  by_cases h : entry.1 = key <;> simp [lastGiven?, given, h]

/-- A key that occurs has a last value. -/
theorem exists_lastGiven? {key : String} {entries : List (String × α)}
    (h : key ∈ entries.map Prod.fst) : ∃ value, lastGiven? key entries = some value := by
  obtain ⟨entry, hentry, rfl⟩ := List.mem_map.1 h
  have hgiven : entry.2 ∈ given entry.1 entries :=
    List.mem_map_of_mem (List.mem_filter.2 ⟨hentry, beq_self_eq_true _⟩)
  exact ⟨_, List.getLast?_eq_some_getLast (List.ne_nil_of_mem hgiven)⟩

/-- Leaving out entries for other names does not matter. -/
theorem lastGiven?_filter (keep : String → Bool) {key : String} (h : keep key = true)
    (entries : List (String × α)) :
    lastGiven? key (entries.filter fun entry => keep entry.1) = lastGiven? key entries := by
  have hkeep : ∀ entry : String × α, (entry.1 == key && keep entry.1) = (entry.1 == key) := by
    intro entry
    by_cases hkey : entry.1 = key <;> simp [hkey, h]
  rw [lastGiven?, lastGiven?, given, given, List.filter_filter]
  simp only [hkeep]

/-! ## One value -/

/-- Putting a value under a key changes what is found under that key alone. -/
theorem lookup_put (key k : String) (value : α) (entries : List (String × α)) :
    (put key value entries).lookup k = if k = key then some value else entries.lookup k := by
  have head : ∀ (entry : String × α) (rest : List (String × α)),
      (entry :: rest).lookup k = if k = entry.1 then some entry.2 else rest.lookup k := by
    intro entry rest
    by_cases h : k = entry.1
    · rw [if_pos h, List.lookup_cons, beq_iff_eq.2 h]
    · rw [if_neg h, List.lookup_cons, beq_eq_false_iff_ne.2 h]
  induction entries with
  | nil => exact head (key, value) []
  | cons entry rest ih =>
      by_cases hentry : entry.1 = key
      · rw [put, if_pos hentry, head, head, hentry]
        split <;> rfl
      · rw [put, if_neg hentry, head, head, ih]
        by_cases hk : k = entry.1
        · have hne : k ≠ key := fun heq => hentry (hk.symm.trans heq)
          rw [if_pos hk, if_neg hne, if_pos hk]
        · rw [if_neg hk, if_neg hk]

/-- Inserting a value under a key changes what is found under that key alone. -/
theorem get?_insert (m : OrderedMap α) (key k : String) (value : α) :
    (m.insert key value).get? k = if k = key then some value else m.get? k :=
  lookup_put key k value m.entries

/-- A new key stands behind all others, and one that is there keeps its place. -/
theorem keys_insert (m : OrderedMap α) (key : String) (value : α) :
    (m.insert key value).keys = if m.keys.contains key then m.keys else m.keys ++ [key] := by
  by_cases h : key ∈ m.keys
  · -- an old name keeps its place
    obtain ⟨entry, hentry, hkey⟩ := List.mem_map.1 h
    have hvalue : m.get? key = some entry.2 := by
      rw [get?_eq_some_iff, ← hkey]
      exact hentry
    rw [if_pos (List.contains_iff_mem.2 h)]
    refine (congrArg (List.map Prod.fst) (put_of_lookup m.keys_nodup hvalue)).trans ?_
    rw [List.map_map]
    refine List.map_congr_left fun e _ => ?_
    show (if e.1 == key then (e.1, value) else e).1 = e.1
    split <;> rfl
  · rw [if_neg fun hc => h (List.contains_iff_mem.1 hc)]
    refine (congrArg (List.map Prod.fst) (put_of_notMem h)).trans ?_
    rw [List.map_append]
    rfl

/-! ## All values of a list -/

theorem insertAll_append (m : OrderedMap α) (a b : List (String × α)) :
    m.insertAll (a ++ b) = (m.insertAll a).insertAll b :=
  List.foldl_append

/-- A map to which a list is given holds the last value of each name. -/
theorem get?_insertAll (m : OrderedMap α) (entries : List (String × α)) (key : String) :
    (m.insertAll entries).get? key = (lastGiven? key entries).or (m.get? key) := by
  induction entries using List.reverseRecOn with
  | nil => rfl
  | append_singleton entries entry ih =>
      have step : (m.insertAll (entries ++ [entry])).get? key
          = if key = entry.1 then some entry.2 else (m.insertAll entries).get? key := by
        rw [insertAll_append]
        exact get?_insert _ entry.1 key entry.2
      rw [step, ih, lastGiven?_append, lastGiven?_singleton]
      by_cases h : key = entry.1
      · simp [h]
      · simp [h, Ne.symm h]

/-- New names come after the old ones, in the order in which they come up first. -/
theorem keys_insertAll (m : OrderedMap α) (entries : List (String × α)) :
    (m.insertAll entries).keys = (m.keys ++ entries.map Prod.fst).eraseDups := by
  induction entries using List.reverseRecOn with
  | nil =>
      rw [List.map_nil, List.append_nil]
      exact (eraseDups_of_nodup m.keys_nodup).symm
  | append_singleton entries entry ih =>
      have step : (m.insertAll (entries ++ [entry])).keys
          = if (m.insertAll entries).keys.contains entry.1 then (m.insertAll entries).keys
            else (m.insertAll entries).keys ++ [entry.1] := by
        rw [insertAll_append]
        exact keys_insert _ entry.1 entry.2
      have hseen : ((m.keys ++ entries.map Prod.fst).eraseDups).contains entry.1
          = (m.keys ++ entries.map Prod.fst).contains entry.1 := by
        rw [Bool.eq_iff_iff, List.contains_iff_mem, List.contains_iff_mem, List.mem_eraseDups]
      rw [step, ih, hseen, List.map_append, ← List.append_assoc]
      exact (Layout.eraseDups_concat _ _).symm

/-- A map of some entries holds the last value of each key. -/
theorem get?_ofList (entries : List (String × α)) (key : String) :
    (ofList entries).get? key = lastGiven? key entries := by
  rw [ofList, get?_insertAll]
  exact Option.or_none

/-- A map of some entries has their keys in the order in which they first occur. -/
theorem keys_ofList (entries : List (String × α)) :
    (ofList entries).keys = (entries.map Prod.fst).eraseDups := by
  rw [ofList, keys_insertAll]
  rfl

/-! ## Maps given to maps -/

/-- A map is known by its names in order and by their values. -/
theorem ext_keys (hkeys : m.keys = m'.keys) (hvalues : ∀ key, m.get? key = m'.get? key) :
    m = m' := by
  have hentries : ∀ m : OrderedMap α,
      m.entries = m.keys.filterMap fun key => (m.get? key).map ((key, ·)) := by
    intro m
    rw [keys, List.filterMap_map]
    refine (List.filterMap_some.symm.trans (List.filterMap_congr fun entry hentry => ?_))
    rw [Function.comp_apply, get?_eq_some_iff.2 hentry]
    rfl
  refine ext_entries ?_
  rw [hentries m, hentries m', hkeys]
  simp only [hvalues]

/-- The entries of a map have at most one value for a name. -/
theorem lastGiven?_entries (m : OrderedMap α) (key : String) :
    lastGiven? key m.entries = m.get? key := by
  rw [← get?_ofList, get?, entries_ofList m.keys_nodup, get?]

/-- Entries that are gathered in a map can be given one by one instead. -/
theorem insertAll_ofList (m : OrderedMap α) (entries : List (String × α)) :
    m.insertAll (ofList entries).entries = m.insertAll entries := by
  refine ext_keys ?_ fun key => ?_
  · show (m.insertAll (ofList entries).entries).keys = _
    have hnames : (ofList entries).entries.map Prod.fst = (entries.map Prod.fst).eraseDups :=
      keys_ofList entries
    rw [keys_insertAll, keys_insertAll, hnames, eraseDups_append_eraseDups]
  · rw [get?_insertAll, get?_insertAll, lastGiven?_entries, get?_ofList]

/-- What is gathered from a list can be added to what was gathered before. -/
theorem ofList_append (a b : List (String × α)) :
    ofList (a ++ b) = (ofList a).insertAll (ofList b).entries := by
  rw [insertAll_ofList, ofList, insertAll_append]
  rfl

end OrderedMap

end DotLayout
