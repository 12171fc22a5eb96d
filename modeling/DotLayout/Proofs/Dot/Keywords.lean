import DotLayout.Proofs.Dot.Naming

/-! # Keywords and subgraph names as nodes

    A keyword without quotes structures a description, and the word behind `subgraph` names a part
    of it.  Both hold where a statement may start.  Behind an operator every word is read as a
    target, and no keyword is looked for.

    * `names_iff_of_keyword` : a keyword names a node only as a target.
    * `names_iff_of_subgraph_name` : the word behind `subgraph` names one only if the keyword does
      not start a statement; it is read as the start of a statement then.
    * `keyword_names` : so the nodes of a description are known, and `subgraph_joined` has the
      keyword and the name of a subgraph among them. -/

namespace DotLayout.Dot

open Text

section

variable {ts : List Token} {k : Nat} {w : Word}

/-- A keyword without quotes never leads a chain. -/
theorem not_leadsChain_of_keyword (hquoted : w.quoted = false)
    (hkeyword : (Keyword.ofWord? w.text).isSome = true) (next : Option Token) :
    ¬ w.LeadsChain next := by
  rintro ⟨-, hleads⟩
  rcases hleads with hquotes | ⟨hnone, -⟩
  · exact absurd (hquotes.symm.trans hquoted) Bool.noConfusion
  · rw [hnone] at hkeyword
    exact nomatch hkeyword

/-- A keyword without quotes names a node if and only if it is the target of an operator and the
    token in front of the operator names one. -/
theorem names_iff_of_keyword (hw : ts[k]? = some (.word w)) (hquoted : w.quoted = false)
    (hkeyword : (Keyword.ofWord? w.text).isSome = true) :
    Names ts k ↔ ∃ j l, k = j + 2 ∧ ts[j + 1]? = some (.link l) ∧ Names ts j := by
  by_cases hopens : Opens ts k
  · rw [names_iff_of_opens hopens hw]
    refine iff_of_false (not_leadsChain_of_keyword hquoted hkeyword _) ?_
    rintro ⟨j, l, rfl, hlink, hnames⟩
    obtain ⟨m, hm, hstart⟩ := hopens
    have htarget := marks_target hnames hlink hw
    obtain rfl := Option.some.inj (hm.symm.trans htarget)
    exact nomatch hstart
  · rw [names_iff_of_not_opens hopens]
    constructor
    · rintro ⟨j, l, -, hk, hlink, -, hnames⟩
      exact ⟨j, l, hk, hlink, hnames⟩
    · rintro ⟨j, l, hk, hlink, hnames⟩
      exact ⟨j, l, w, hk, hlink, hw, hnames⟩

/-- The word behind `subgraph`, if no operator follows it, names a node if and only if the keyword
    starts no statement, and the word would lead a chain. -/
theorem names_iff_of_subgraph_name {name : Word} (hw : ts[k]? = some (.word w))
    (hquoted : w.quoted = false) (hkeyword : Keyword.ofWord? w.text = some .subgraph)
    (hname : ts[k + 1]? = some (.word name)) (hlink : ∀ l, ts[k + 2]? ≠ some (.link l)) :
    Names ts (k + 1) ↔ ¬ Opens ts k ∧ name.LeadsChain ts[k + 2]? := by
  have hswitch := opens_iff_of_subgraph hw hquoted hkeyword hname hlink
  by_cases hopens : Opens ts k
  · -- the name stands in the statement of its keyword, and a word is no operator
    have hinside : ¬ Opens ts (k + 1) := fun h => hswitch.1 h hopens
    rw [names_iff_of_not_opens hinside]
    refine iff_of_false ?_ (fun h => h.1 hopens)
    rintro ⟨j, l, -, hk, hbehind, -, -⟩
    obtain rfl := Nat.succ.inj hk
    exact nomatch hw.symm.trans hbehind
  · rw [names_iff_of_opens (hswitch.2 hopens) hname]
    exact (and_iff_right hopens).symm

end

/-- When keywords and the names behind `subgraph` name nodes, among the tokens of a chunk. -/
structure KeywordNames (ts : List Token) : Prop where
  /-- A keyword names a node if and only if it is the target of an operator whose source does. -/
  keyword : ∀ (k : Nat) (w : Word), ts[k]? = some (.word w) → w.quoted = false →
    (Keyword.ofWord? w.text).isSome = true →
    (Names ts k ↔ ∃ j l, k = j + 2 ∧ ts[j + 1]? = some (.link l) ∧ Names ts j)
  /-- The word behind `subgraph` names a node if and only if the keyword starts no statement, and
      the word would lead a chain. -/
  name : ∀ (k : Nat) (w name : Word), ts[k]? = some (.word w) → w.quoted = false →
    Keyword.ofWord? w.text = some .subgraph → ts[k + 1]? = some (.word name) →
    (∀ l, ts[k + 2]? ≠ some (.link l)) →
    (Names ts (k + 1) ↔ ¬ Opens ts k ∧ name.LeadsChain ts[k + 2]?)

/-- **When keywords and names of subgraphs become nodes.**  The nodes of a graph that is read are
    what the words stand for that name one.  A keyword without quotes names one behind an operator
    only, where the source of the operator names one, too.  The word behind `subgraph`, if no
    operator follows it, names none if the statement starts with `subgraph`, and is read as the
    first word of a statement otherwise. -/
theorem keyword_names {source : String} {p : Parsed} (h : parse source = .ok p) :
    let d := Document.ofText (stripComments source.toList)
    p.graph.ids = (idsOf ((d.tokens.flatMap marks).filterMap Mark.name?)).eraseDups ∧
      ∀ ts ∈ d.tokens, KeywordNames ts := by
  intro d
  refine ⟨ids_of_parse h, ?_⟩
  intro ts _
  exact ⟨fun _ _ => names_iff_of_keyword, fun _ _ _ => names_iff_of_subgraph_name⟩

/-- A subgraph with a statement in it, default attributes in front of a node, a keyword as a target,
    a subgraph whose name is the source of an edge, and one that stands as a value. -/
theorem keyword_names_mixed :
    let source := "digraph \x7b subgraph C1 \x7b A -> B \x7d node [shape=box] C -> edge
      subgraph D -> E; x = subgraph Y \x7d"
    let d := Document.ofText (stripComments source.toList)
    ∃ p, parse source = .ok p ∧ p.graph.ids = ["A", "B", "C", "edge", "D", "E", "Y"] ∧
      p.graph.ids = (idsOf ((d.tokens.flatMap marks).filterMap Mark.name?)).eraseDups ∧
      ∀ ts ∈ d.tokens, KeywordNames ts := by
  intro source d
  have ids : (parse source).toOption.map (fun p => p.graph.ids)
      = some ["A", "B", "C", "edge", "D", "E", "Y"] := by
    decide +kernel
  obtain ⟨p, h, hids⟩ := exists_parsed ids
  exact ⟨p, h, hids, keyword_names h⟩

/-- An operator in front of `subgraph` makes nodes of the keyword and of the name. -/
theorem subgraph_joined :
    let source := "digraph \x7b A -> subgraph X \x7d"
    (parse source).toOption.map (fun p => (p.graph.ids, p.warnings)) =
        some (["A", "subgraph", "X"], []) ∧
      ∃ ts ∈ (Document.ofText (stripComments source.toList)).tokens, ∃ w name,
        ts[2]? = some (.word w) ∧ w.quoted = false ∧
        Keyword.ofWord? w.text = some .subgraph ∧ Names ts 2 ∧
        ts[3]? = some (.word name) ∧ ts[4]? = none ∧ Names ts 3 := by
  intro source
  refine ⟨by decide +kernel, ?_⟩
  have htokens : (Document.ofText (stripComments source.toList)).tokens
      = [[.word ⟨"A", false, ⟨10, ['A']⟩⟩, .link ⟨.directed, ⟨12, ['-', '>']⟩⟩,
        .word ⟨"subgraph", false, ⟨15, "subgraph".toList⟩⟩, .word ⟨"X", false, ⟨24, ['X']⟩⟩]] := by
    decide +kernel
  rw [htokens]
  refine ⟨_, List.mem_singleton_self _, _, _, rfl, rfl, ?_, ?_, rfl, rfl, ?_⟩ <;> decide +kernel

end DotLayout.Dot
