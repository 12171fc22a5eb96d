import DotLayout.Proofs.Dot.Naming

/-! # Where nodes come from

    Words that are reserved have a meaning of their own at the start of a statement: the keywords
    that structure a description, and the names of some attributes of the graph.  A key in front of
    a sign has one, too.  Such a word is a node only as an end of an edge.

    * `readWord_of_leadsChain` : a word that leads a chain is read with the hops behind it.
    * `not_opens_link` : so the operator behind such a word stands in the statement of the word.
    * `origin_of_names` : a word that names a node stands beside an operator, or is a word on its
      own that is not reserved.
    * `node_origins` : every node of a description comes from such a word. -/

namespace DotLayout.Dot

open Text

/-- The words that mean something on their own: the keywords that structure a description, and the
    graph attributes whose bare names are never nodes. -/
def reservedWords : List String :=
  ["node", "edge", "graph", "digraph", "subgraph", "strict"] ++ graphSettings

/-- A word that is quoted, or is no reserved word in any case of letters. -/
def Word.Plain (w : Word) : Prop := w.quoted = true ∨ asciiLower w.text ∉ reservedWords

/-- Next to the token with a number there is an operator in the same statement. -/
def BesideLink (ts : List Token) (k : Nat) : Prop :=
  (∃ l, ts[k + 1]? = some (.link l) ∧ ¬ Opens ts (k + 1)) ∨
    ∃ j l, k = j + 1 ∧ ts[j]? = some (.link l) ∧ ¬ Opens ts k

/-- Where a word stands that names a node: beside an operator, or without a sign behind it.  In the
    latter case it is quoted, or not reserved. -/
def Origin (ts : List Token) (k : Nat) (w : Word) : Prop :=
  BesideLink ts k ∨ (∀ place, ts[k + 1]? ≠ some (.equals place)) ∧ w.Plain

section

variable {ts : List Token} {k : Nat} {w : Word} {rest : List Token}

theorem ofWord?_eq_none_iff {text : String} : Keyword.ofWord? text = none ↔
    asciiLower text ∉ ["node", "edge", "graph", "digraph", "subgraph", "strict"] := by
  rw [Keyword.ofWord?]
  split <;> simp_all

theorem Mark.of_name? {m : Mark} (h : m.name? = some w) :
    m.token = .word w ∧ m.names = true := by
  unfold Mark.name? at h
  split at h
  · exact ⟨congrArg Token.word (Option.some.inj h), rfl⟩
  · exact nomatch h

/-- The reserved words are the keywords and the names of graph attributes. -/
theorem mem_reservedWords_iff {text : String} : asciiLower text ∈ reservedWords ↔
    Keyword.ofWord? text ≠ none ∨ isGraphSetting text = true := by
  rw [reservedWords, List.mem_append, ne_eq, ofWord?_eq_none_iff, Decidable.not_not, isGraphSetting,
    List.contains_iff_mem]

/-- A word that leads a chain is read together with the hops behind it. -/
theorem readWord_of_leadsChain (h : w.LeadsChain rest[0]?) :
    Statement.readWord w rest = Statement.readChain w rest := by
  obtain ⟨hequals, hkind⟩ := h
  have hne : ∀ place after, rest ≠ .equals place :: after := by
    rintro place after rfl
    exact hequals place rfl
  rw [Statement.readWord_of_ne hne]
  rcases hkind with hquoted | ⟨hkeyword, hsetting⟩
  · rw [if_pos hquoted]
  · rw [hkeyword, ← startsLink_iff] at *
    cases w.quoted <;> cases hword : isGraphSetting w.text <;> simp_all

/-- A chain holds the operator behind its first word. -/
theorem one_lt_length_readChain (w : Word) (l : Link) (after : List Token) :
    1 < (Statement.readChain w (.link l :: after)).1.tokens.length := by
  -- the operator is part of a hop if a word follows, and leads nowhere otherwise
  cases after with
  | nil => exact Nat.succ_lt_succ (Nat.succ_pos _)
  | cons t after => cases t <;> exact Nat.succ_lt_succ (Nat.succ_pos _)

/-- The operator behind a word that leads a chain starts no statement. -/
theorem not_opens_link {l : Link} (hopens : Opens ts k) (hw : ts[k]? = some (.word w))
    (hleads : w.LeadsChain ts[k + 1]?) (hlink : ts[k + 1]? = some (.link l)) :
    ¬ Opens ts (k + 1) := by
  obtain ⟨token, rest, hdrop, hmarks⟩ := read_of_opens hopens
  have htokens := Draft.getElem?_of_drop hdrop
  obtain rfl : token = .word w := Option.some.inj ((htokens 0).symm.trans hw)
  obtain ⟨after, rfl⟩ := Draft.exists_cons ((htokens 1).symm.trans hlink)
  have hread : Statement.readWord w (.link l :: after)
      = Statement.readChain w (.link l :: after) := by
    refine readWord_of_leadsChain ?_
    rwa [hlink] at hleads
  have hinside : 1 < (Statement.read (.word w) (.link l :: after)).1.tokens.length := by
    rw [Statement.read, hread]
    exact one_lt_length_readChain w l after
  rw [opens_of_drop hmarks, opens_cons hinside]
  exact Nat.one_ne_zero

/-- A word that names a node stands beside an operator, or is on its own and not reserved. -/
theorem origin_of_names (hw : ts[k]? = some (.word w)) (h : Names ts k) : Origin ts k w := by
  by_cases hopens : Opens ts k
  · have hleads := (names_iff_of_opens hopens hw).1 h
    obtain ⟨hequals, hkind⟩ := id hleads
    rcases hkind with hquoted | ⟨hkeyword, hsetting⟩
    · exact .inr ⟨hequals, .inl hquoted⟩
    · by_cases hname : isGraphSetting w.text = true
      · -- the name of a graph attribute leads a chain only in front of an operator
        obtain ⟨l, hlink⟩ := hsetting hname
        exact .inl (.inl ⟨l, hlink, not_opens_link hopens hw hleads hlink⟩)
      · refine .inr ⟨hequals, .inr ?_⟩
        rw [mem_reservedWords_iff]
        exact not_or_intro (not_not_intro hkeyword) hname
  · obtain ⟨j, l, -, rfl, hlink, -, -⟩ := (names_iff_of_not_opens hopens).1 h
    exact .inl (.inr ⟨j + 1, l, rfl, hlink, hopens⟩)

end

/-- **Where the nodes of a description come from.**  The nodes of a graph that is read are what the
    words stand for that name one.  So each of them is the text of a word beside an operator in its
    statement, or of a word without a sign behind it that is quoted or not reserved.  Away from
    operators, a key in front of a sign and a reserved word without quotes name no node. -/
theorem node_origins {source : String} {p : Parsed} (h : parse source = .ok p) :
    let d := Document.ofText (stripComments source.toList)
    p.graph.ids = (idsOf ((d.tokens.flatMap marks).filterMap Mark.name?)).eraseDups ∧
    (∀ id ∈ p.graph.ids, ∃ ts ∈ d.tokens, ∃ k w, ts[k]? = some (.word w) ∧ w.text = id ∧
      Names ts k ∧ Origin ts k w) ∧
    ∀ ts ∈ d.tokens, ∀ k w, ts[k]? = some (.word w) → ¬ BesideLink ts k →
      (∃ place, ts[k + 1]? = some (.equals place)) ∨ ¬ w.Plain → ¬ Names ts k := by
  intro d
  refine ⟨ids_of_parse h, ?_, ?_⟩
  · intro id hid
    rw [ids_of_parse h, List.mem_eraseDups, idsOf, List.mem_map] at hid
    obtain ⟨w, hw, rfl⟩ := hid
    obtain ⟨m, hm, hname⟩ := List.mem_filterMap.1 hw
    obtain ⟨ts, hts, hmarks⟩ := List.mem_flatMap.1 hm
    obtain ⟨k, hk⟩ := List.getElem?_of_mem hmarks
    obtain ⟨hword, hnames⟩ := Mark.of_name? hname
    have htoken : ts[k]? = some (.word w) := by
      rw [getElem?_token, hk, Option.map_some, hword]
    have hnamed : Names ts k := ⟨m, hk, hnames⟩
    exact ⟨ts, hts, k, w, htoken, rfl, hnamed, origin_of_names htoken hnamed⟩
  · rintro ts - k w hw halone hspecial hnames
    rcases origin_of_names hw hnames with hbeside | ⟨hequals, hplain⟩
    · exact halone hbeside
    rcases hspecial with ⟨place, hplace⟩ | hreserved
    · exact hequals place hplace
    · exact hreserved hplain

/-- Nodes are a quoted keyword, the names of graph attributes at both ends of a chain, a target in
    front of a sign, and the word behind that sign.  An attribute that stands alone or is set, and a
    keyword in front of a list are none. -/
theorem node_origins_mixed :
    let source := "digraph \x7b \"node\"; size -> Rank -> rankdir; Splines; B -> key = 1
      RANKDIR = LR; node [shape=box]; C \x7d"
    let d := Document.ofText (stripComments source.toList)
    ∃ p, parse source = .ok p ∧
      p.graph.ids = ["node", "size", "Rank", "rankdir", "B", "key", "1", "C"] ∧
      (∀ id ∈ p.graph.ids, ∃ ts ∈ d.tokens, ∃ k w, ts[k]? = some (.word w) ∧ w.text = id ∧
        Names ts k ∧ Origin ts k w) ∧
      ∀ ts ∈ d.tokens, ∀ k w, ts[k]? = some (.word w) → ¬ BesideLink ts k →
        (∃ place, ts[k + 1]? = some (.equals place)) ∨ ¬ w.Plain → ¬ Names ts k := by
  intro source d
  have ids : (parse source).toOption.map (fun p => p.graph.ids)
      = some ["node", "size", "Rank", "rankdir", "B", "key", "1", "C"] := by
    decide +kernel
  obtain ⟨p, h, hids⟩ := exists_parsed ids
  obtain ⟨-, origins, others⟩ := node_origins h
  exact ⟨p, h, hids, origins, others⟩

end DotLayout.Dot
