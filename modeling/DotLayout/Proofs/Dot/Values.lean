import DotLayout.Proofs.Dot.Naming

/-! # Values are no nodes

    `key = value` is a statement, and it ends with its value.  So a word names no node if it stands
    behind a sign in the same statement.  What follows the value in its chunk starts a statement of
    its own, which may name a node.

    * `not_names_of_equals` : behind a sign no token of the same statement names a node.
    * `names_iff_of_no_link` : a word without an operator in front of it names a node if and only if
      it starts a statement and leads a chain.
    * `opens_behind_value` : a statement starts behind a value.
    * `value_names` : so the nodes of a description are known, and `node_behind_value` has a word
      behind a value among them. -/

namespace DotLayout.Dot

open Text

section

variable {ts : List Token} {i k : Nat} {key value w : Word} {place : Excerpt}

/-- Behind a sign no token of the same statement names a node. -/
theorem not_names_of_equals (hik : i < k) (hequals : ts[i]? = some (.equals place))
    (hsame : ∀ m, i < m → m ≤ k → ¬ Opens ts m) : ¬ Names ts k := by
  -- a node behind the sign would be a target, and so would the node in front of its operator
  induction k using Nat.strong_induction_on with
  | _ k ih =>
      rw [names_iff_of_not_opens (hsame k hik le_rfl)]
      rintro ⟨j, l, -, rfl, hlink, -, hnames⟩
      rcases lt_trichotomy i j with hlt | rfl | hgt
      · have hbefore : ∀ m, i < m → m ≤ j → ¬ Opens ts m := by
          intro m him hmj
          exact hsame m him (by omega)
        exact ih j (by omega) hlt hbefore hnames
      · obtain ⟨w, hw⟩ := exists_word_of_names hnames
        exact nomatch hequals.symm.trans hw
      · obtain rfl : i = j + 1 := by omega
        exact nomatch hequals.symm.trans hlink

/-- A word without an operator in front of it names a node if and only if it starts a statement and
    leads a chain. -/
theorem names_iff_of_no_link (hw : ts[k]? = some (.word w))
    (hlinks : ∀ j < k, ∀ l, ts[j]? ≠ some (.link l)) :
    Names ts k ↔ Opens ts k ∧ w.LeadsChain ts[k + 1]? := by
  by_cases hopens : Opens ts k
  · rw [names_iff_of_opens hopens hw]
    exact (and_iff_right hopens).symm
  · rw [names_iff_of_not_opens hopens]
    refine iff_of_false ?_ (fun h => hopens h.1)
    rintro ⟨j, l, -, rfl, hlink, -, -⟩
    exact hlinks (j + 1) (Nat.lt_succ_self _) l hlink

/-- What a statement that starts with a key and its sign is read as. -/
theorem read_assignment (hopens : Opens ts k) (hkey : ts[k]? = some (.word key))
    (hequals : ts[k + 1]? = some (.equals place)) (hvalue : ts[k + 2]? = some (.word value)) :
    ∃ after, (marks ts).drop k = marks (.word key :: .equals place :: .word value :: after) ∧
      ts.drop (k + 3) = after := by
  obtain ⟨token, rest, hdrop, hmarks⟩ := read_of_opens hopens
  have htokens := Draft.getElem?_of_drop hdrop
  obtain rfl : token = .word key := Option.some.inj ((htokens 0).symm.trans hkey)
  obtain ⟨rest, rfl⟩ := Draft.exists_cons ((htokens 1).symm.trans hequals)
  obtain ⟨after, rfl⟩ := Draft.exists_cons ((htokens 2).symm.trans hvalue)
  refine ⟨after, hmarks, ?_⟩
  rw [← List.drop_drop, hdrop]
  rfl

/-- The value of a pair stands in the statement of its key. -/
theorem not_opens_value (hopens : Opens ts k) (hkey : ts[k]? = some (.word key))
    (hequals : ts[k + 1]? = some (.equals place)) (hvalue : ts[k + 2]? = some (.word value)) :
    ¬ Opens ts (k + 2) := by
  obtain ⟨after, hmarks, -⟩ := read_assignment hopens hkey hequals hvalue
  have hinside : 2 < (Statement.read (.word key)
      (.equals place :: .word value :: after)).1.tokens.length := Nat.lt_succ_self 2
  rw [opens_of_drop hmarks, opens_cons hinside]
  exact Nat.succ_ne_zero 1

/-- A statement starts behind a value. -/
theorem opens_behind_value (hopens : Opens ts k) (hkey : ts[k]? = some (.word key))
    (hequals : ts[k + 1]? = some (.equals place)) (hvalue : ts[k + 2]? = some (.word value))
    (hmore : k + 3 < ts.length) : Opens ts (k + 3) := by
  obtain ⟨after, hmarks, hafter⟩ := read_assignment hopens hkey hequals hvalue
  have hbehind : (marks ts).drop (k + 3) = marks after := by
    rw [← List.drop_drop, hmarks, marks_cons]
    rfl
  rw [List.drop_eq_getElem_cons hmore] at hafter
  rw [← Nat.add_zero (k + 3), opens_of_drop hbehind, ← hafter]
  exact opens_zero _ _

end

/-- When words that stand behind signs name nodes, among the tokens of a chunk. -/
structure ValueNames (ts : List Token) : Prop where
  /-- Behind a sign no token of the same statement names a node. -/
  same : ∀ (i k : Nat) (place : Excerpt), i < k → ts[i]? = some (.equals place) →
    (∀ m, i < m → m ≤ k → ¬ Opens ts m) → ¬ Names ts k
  /-- A pair names no nodes, and is a statement on its own: what follows it starts another one. -/
  pair : ∀ (k : Nat) (key value : Word) (place : Excerpt), Opens ts k →
    ts[k]? = some (.word key) → ts[k + 1]? = some (.equals place) →
    ts[k + 2]? = some (.word value) →
    ¬ Names ts k ∧ ¬ Names ts (k + 2) ∧ (k + 3 < ts.length → Opens ts (k + 3))
  /-- A word without an operator in front of it names a node if and only if it starts a statement
      and leads a chain. -/
  other : ∀ (k : Nat) (w : Word), ts[k]? = some (.word w) →
    (∀ j < k, ∀ l, ts[j]? ≠ some (.link l)) → (Names ts k ↔ Opens ts k ∧ w.LeadsChain ts[k + 1]?)

theorem valueNames (ts : List Token) : ValueNames ts where
  same := fun _ _ _ => not_names_of_equals
  pair := by
    intro k key value place hopens hkey hequals hvalue
    refine ⟨?_, ?_, opens_behind_value hopens hkey hequals hvalue⟩
    · rw [names_iff_of_opens hopens hkey, hequals]
      exact fun h => h.1 place rfl
    · refine not_names_of_equals (Nat.lt_succ_self _) hequals ?_
      intro m hlt hle
      obtain rfl : m = k + 2 := by omega
      exact not_opens_value hopens hkey hequals hvalue
  other := fun _ _ => names_iff_of_no_link

/-- **Values are no nodes.**  The nodes of a graph that is read are what the words stand for that
    name one.  No word behind a sign in the same statement does, and a statement ends with its
    value.  If no operator stands in front of a word in its chunk, it names a node exactly if it
    starts a statement and leads a chain. -/
theorem value_names {source : String} {p : Parsed} (h : parse source = .ok p) :
    let d := Document.ofText (stripComments source.toList)
    p.graph.ids = (idsOf ((d.tokens.flatMap marks).filterMap Mark.name?)).eraseDups ∧
      ∀ ts ∈ d.tokens, ValueNames ts := by
  intro d
  exact ⟨ids_of_parse h, fun ts _ => valueNames ts⟩

/-- Pairs with nothing between them, a sign without a key, a pair in front of a node and an edge,
    and a quoted keyword as a key. -/
theorem value_names_mixed :
    let source := "digraph \x7b rankdir = LR size = \"4,4\" splines = line A -> B
      x = = y; \"node\" = z C [color=red] D \x7d"
    let d := Document.ofText (stripComments source.toList)
    ∃ p, parse source = .ok p ∧ p.graph.ids = ["A", "B", "y", "C", "D"] ∧
      p.graph.ids = (idsOf ((d.tokens.flatMap marks).filterMap Mark.name?)).eraseDups ∧
      ∀ ts ∈ d.tokens, ValueNames ts := by
  intro source d
  have ids : (parse source).toOption.map (fun p => p.graph.ids)
      = some ["A", "B", "y", "C", "D"] := by
    decide +kernel
  obtain ⟨p, h, hids⟩ := exists_parsed ids
  exact ⟨p, h, hids, value_names h⟩

/-- A word behind a value, with a sign and no operator in front of it, is a node. -/
theorem node_behind_value :
    let source := "digraph \x7b rankdir = LR A \x7d"
    (parse source).toOption.map (fun p => (p.graph.ids, p.warnings)) = some (["A"], []) ∧
      ∃ ts ∈ (Document.ofText (stripComments source.toList)).tokens, ∃ place w,
        ts[1]? = some (.equals place) ∧ (∀ l, Token.link l ∉ ts) ∧
        ts[3]? = some (.word w) ∧ Names ts 3 := by
  intro source
  refine ⟨by decide +kernel, ?_⟩
  have htokens : (Document.ofText (stripComments source.toList)).tokens
      = [[.word ⟨"rankdir", false, ⟨10, "rankdir".toList⟩⟩, .equals ⟨18, ['=']⟩,
        .word ⟨"LR", false, ⟨20, ['L', 'R']⟩⟩, .word ⟨"A", false, ⟨23, ['A']⟩⟩]] := by
    decide +kernel
  rw [htokens]
  refine ⟨_, List.mem_singleton_self _, _, _, rfl, ?_, rfl, ?_⟩
  · intro l
    simp
  · decide +kernel

end DotLayout.Dot
