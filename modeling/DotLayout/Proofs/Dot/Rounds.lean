import DotLayout.Proofs.Dot.Draft
import DotLayout.Proofs.Dot.Severity

/-! # No token is skipped silently

    The loop of a pass over the tokens of a chunk goes round by round.  Each round takes the tokens
    of one statement, and whatever is none of a statement that says something is reported.

    * `mem_rounds` : a round is one call of `Draft.statement`, and `Round.reads` says which
      statement it reads.
    * `accounted_read` : a statement is recognized, or names a subgraph, or a warning covers each of
      its tokens; `meaningful_read` : what is recognized says something; `incomplete_read` : an
      operator without a target is reported as incomplete.
    * `tokens_accounted` : so the rounds share all tokens among them, and account for each group. -/

namespace DotLayout.Dot

open Text

/-- One round of the loop: the number of the first token that it takes and of the first token
    behind them, and the draft before and after it. -/
structure Round where
  first : Nat
  next : Nat
  before : Draft
  after : Draft

/-- The tokens that a round takes. -/
def Round.tokens (ts : List Token) (round : Round) : List Token :=
  (ts.drop round.first).take (round.next - round.first)

/-- The rounds in which `Draft.run` reads the tokens from number `i` on. -/
def Draft.rounds (r : Draft) (ts : List Token) (i : Nat) : List Round :=
  if h : i < ts.length then
    ⟨i, (r.statement ts[i] ts i).2, r, (r.statement ts[i] ts i).1⟩ ::
      (r.statement ts[i] ts i).1.rounds ts (r.statement ts[i] ts i).2
  else []
  termination_by ts.length - i
  decreasing_by
    have := r.lt_statement h
    omega

/-- The label of a warning among some diagnostics covers a span. -/
def Covered (emitted : List Diagnostic) (span : Span) : Prop :=
  ∃ d ∈ emitted, d.severity = .warning ∧
    ∃ label ∈ d.labels, label.span.start ≤ span.start ∧ span.stop ≤ label.span.stop

/-- The diagnostics with a code. -/
def withCode (code : Code) (ds : List Diagnostic) : List Diagnostic :=
  ds.filter fun d => d.code == some code

/-- Whether a statement says something about a graph: a pair, attribute lists behind a keyword that
    they can belong to, or a chain that no keyword starts. -/
def Statement.Meaningful : Statement → Prop
  | .assignment .. => True
  | .defaults w ofGraph lists =>
    lists ≠ [] ∧ w.quoted = false ∧ ∃ keyword ∈ [Keyword.node, .edge, .graph],
      Keyword.ofWord? w.text = some keyword ∧ ofGraph = (keyword == .graph)
  | .chain head .. => head.quoted = true ∨ Keyword.ofWord? head.text = none
  | _ => False

/-! ## Statements -/

theorem meaningful_lists {keyword : Keyword} (hmem : keyword ∈ [Keyword.node, .edge, .graph])
    {w : Word} (hquoted : w.quoted = false) (hword : Keyword.ofWord? w.text = some keyword)
    {rest : List Token} (h : (Statement.readKeyword keyword w rest).1.recognized = true) :
    (Statement.readKeyword keyword w rest).1.Meaningful := by
  rw [Draft.readKeyword_lists keyword w rest (by simpa using hmem)] at h ⊢
  split at h
  · cases h
  · rename_i hlists
    rw [if_neg hlists]
    exact ⟨hlists, hquoted, keyword, hmem, hword, rfl⟩

theorem meaningful_keyword {keyword : Keyword} {w : Word} (hquoted : w.quoted = false)
    (hword : Keyword.ofWord? w.text = some keyword) {rest : List Token}
    (h : (Statement.readKeyword keyword w rest).1.recognized = true) :
    (Statement.readKeyword keyword w rest).1.Meaningful := by
  cases keyword with
  | node => exact meaningful_lists (by decide) hquoted hword h
  | edge => exact meaningful_lists (by decide) hquoted hword h
  | graph => exact meaningful_lists (by decide) hquoted hword h
  | subgraph =>
      simp only [Statement.readKeyword] at h
      split at h
      · split at h <;> cases h
      · cases h
  | digraph => cases h
  | strict => cases h

/-- The statements that are recognized say something. -/
theorem meaningful_read {token : Token} {rest : List Token}
    (h : (Statement.read token rest).1.recognized = true) :
    (Statement.read token rest).1.Meaningful := by
  cases token with
  | word w =>
      simp only [Statement.read, Statement.readWord] at h ⊢
      split at h
      · trivial
      · cases h
      split at h
      · rename_i hquoted
        rw [if_pos hquoted]
        exact .inl hquoted
      rename_i hquoted
      rw [if_neg hquoted]
      split at h
      · rename_i keyword hword
        exact meaningful_keyword (Bool.eq_false_iff.2 hquoted) hword h
      rename_i hword
      split at h
      · cases h
      · rename_i hsetting
        rw [if_neg hsetting]
        exact .inr hword
  | _ => cases h

/-- A finding that is about one place, or about a place around it. -/
theorem covered_of_mem {fs : List Finding} {f : Finding} (hf : f ∈ fs) (hfatal : f.fatal = false)
    {label : Label} (hlabel : label ∈ f.diagnostic.labels) {span : Span}
    (hstart : label.span.start ≤ span.start) (hstop : span.stop ≤ label.span.stop) :
    Covered (fs.map Finding.diagnostic) span := by
  refine ⟨f.diagnostic, List.mem_map_of_mem hf, ?_, label, hlabel, hstart, hstop⟩
  rw [severity_diagnostic, hfatal]
  rfl

/-- A statement that names a subgraph starts with the keyword. -/
theorem read_subgraph {token : Token} {rest : List Token} {w : Word} {name : Option Word}
    (h : (Statement.read token rest).1 = .subgraph w name) :
    w.quoted = false ∧ Keyword.ofWord? w.text = some .subgraph := by
  cases token with
  | word v =>
      revert h
      simp only [Statement.read, Statement.readWord, Statement.readChain, Statement.readKeyword]
      grind
  | _ => cases h

/-- Every statement is recognized, or names a subgraph, or each of its tokens is reported. -/
theorem accounted_read (token : Token) (rest : List Token) (directed : Bool) :
    let s := (Statement.read token rest).1
    s.recognized = true ∨
    (∃ w name, s = .subgraph w name ∧ w.quoted = false ∧
      Keyword.ofWord? w.text = some .subgraph) ∨
    ∀ t ∈ s.tokens, Covered ((s.findings directed).map Finding.diagnostic) t.place.span := by
  intro s
  cases hs : s with
  | assignment => exact .inl rfl
  | defaults => exact .inl rfl
  | chain => exact .inl rfl
  | subgraph w name => exact .inr (.inl ⟨w, name, rfl, read_subgraph hs⟩)
  | keyOnly key equals =>
      -- the one label goes from the key to the sign
      refine .inr (.inr fun t ht => ?_)
      have label := List.mem_singleton_self
        (⟨key.place.span.union equals.span, "skipped", true⟩ : Label)
      rcases List.mem_cons.1 ht with rfl | ht
      · exact covered_of_mem (List.mem_singleton_self _) rfl label (Nat.min_le_left ..)
          (Nat.le_max_left ..)
      · rw [List.mem_singleton.1 ht]
        exact covered_of_mem (List.mem_singleton_self _) rfl label (Nat.min_le_right ..)
          (Nat.le_max_right ..)
  | _ =>
      refine .inr (.inr fun t ht => ?_)
      rw [List.mem_singleton.1 ht]
      exact covered_of_mem (List.mem_singleton_self _) rfl (List.mem_singleton_self _)
        (Nat.le_refl _) (Nat.le_refl _)

/-- An operator among the tokens of hops has a target. -/
theorem link_mem_of_hops {hops : List Hop} {tail before after : List Token} {link : Link}
    (h : hops.flatMap Statement.hopTokens ++ tail = before ++ .link link :: after)
    (hafter : ∀ w rest, after ≠ .word w :: rest) : .link link ∈ tail := by
  induction hops generalizing before with
  | nil =>
      rw [List.flatMap_nil, List.nil_append] at h
      rw [h]
      exact List.mem_append_right _ (List.mem_cons_self ..)
  | cons hop hops ih =>
      rw [List.flatMap_cons, List.append_assoc] at h
      have split : .link hop.link :: .word hop.target :: (hops.flatMap Statement.hopTokens ++ tail)
          = before ++ .link link :: after := h
      match before with
      | [] => exact absurd (List.cons.inj split).2.symm (hafter _ _)
      | [_] => cases (List.cons.inj (List.cons.inj split).2).1
      | _ :: _ :: before => exact ih (List.cons.inj (List.cons.inj split).2).2

theorem not_link_mem_brackets {lists : List Bracket} {link : Link} :
    Token.link link ∉ lists.map Token.bracket := by
  intro h
  obtain ⟨b, -, hb⟩ := List.mem_map.1 h
  cases hb

/-- An operator of a statement that no word of the statement follows is reported as incomplete. -/
theorem incomplete_read {token : Token} {rest before after : List Token} {link : Link}
    (h : (Statement.read token rest).1.tokens = before ++ .link link :: after)
    (hafter : ∀ w tokens, after ≠ .word w :: tokens) (directed : Bool) :
    ∃ f ∈ (Statement.read token rest).1.findings directed,
      f = .noTarget link ∨ f = .noSource link := by
  have hmem : Token.link link ∈ (Statement.read token rest).1.tokens := by
    rw [h]
    exact List.mem_append_right _ (List.mem_cons_self ..)
  cases hs : (Statement.read token rest).1 with
  | chain head hops dangling lists =>
      -- No word follows the operator, so it is none of the hops; only the dangling one is left.
      have htail :
          Token.link link ∈ (dangling.map Token.link).toList ++ lists.map Token.bracket := by
        rw [hs, Statement.tokens, List.append_assoc, List.cons_append] at h
        cases before with
        | nil => cases (List.cons.inj h).1
        | cons t before => exact link_mem_of_hops (List.cons.inj h).2 hafter
      rcases List.mem_append.1 htail with hdangling | hlist
      · obtain ⟨l, hl, heq⟩ := Option.map_eq_some_iff.1 (Option.mem_toList.1 hdangling)
        obtain rfl := Token.link.inj heq
        refine ⟨.noTarget l, ?_, .inl rfl⟩
        rw [Statement.findings, hl]
        exact List.mem_append_left _ (List.mem_append_right _ (List.mem_singleton_self _))
      · exact absurd hlist not_link_mem_brackets
  | noSource l =>
      rw [hs] at hmem
      obtain rfl := Token.link.inj (List.mem_singleton.1 hmem)
      exact ⟨.noSource link, List.mem_singleton_self _, .inr rfl⟩
  | misplaced t why =>
      rw [hs] at hmem
      -- a statement out of place never starts with an operator
      have hlink := link?_of_misplaced token rest hs
      rw [← List.mem_singleton.1 hmem] at hlink
      cases hlink
  | defaults w ofGraph lists =>
      rw [hs] at hmem
      rcases List.mem_cons.1 hmem with heq | hlist
      · cases heq
      · exact absurd hlist not_link_mem_brackets
  | subgraph w name =>
      rw [hs] at hmem
      cases name <;> simp [Statement.tokens] at hmem
  -- no other statement holds an operator
  | _ =>
      rw [hs] at hmem
      simp [Statement.tokens] at hmem

/-! ## Rounds -/

section

variable {r : Draft} {ts : List Token} {i : Nat} {round : Round}

theorem statement_le (r : Draft) (hi : i < ts.length) :
    (r.statement ts[i] ts i).2 ≤ ts.length := by
  have first := List.drop_eq_getElem_cons hi
  have lengths := congrArg List.length (Statement.tokens_read ts[i] (ts.drop (i + 1)))
  rw [← first, List.length_append, List.length_drop] at lengths
  rw [Draft.statement_eq first]
  dsimp only
  omega

/-- What a call of `Draft.statement` takes are the tokens of the statement that it reads. -/
theorem take_statement (r : Draft) (hi : i < ts.length) :
    (ts.drop i).take ((r.statement ts[i] ts i).2 - i)
      = (Statement.read ts[i] (ts.drop (i + 1))).1.tokens := by
  have first := List.drop_eq_getElem_cons hi
  rw [Draft.statement_eq first]
  dsimp only
  rw [Nat.add_sub_cancel_left, first]
  exact (congrArg _ (Statement.tokens_read ..).symm).trans List.take_left

/-- The rounds take the tokens of the statements that the tokens are read as. -/
theorem tokens_rounds (r : Draft) (ts : List Token) (i : Nat) :
    (r.rounds ts i).map (Round.tokens ts) = (statements (ts.drop i)).map Statement.tokens := by
  fun_induction Draft.rounds r ts i with
  | case1 r i h ih =>
      have first := List.drop_eq_getElem_cons h
      rw [Draft.statement_eq first, Draft.drop_read first] at ih
      rw [List.map_cons, Draft.statement_eq first, ih, first, statements, List.map_cons]
      refine congrArg (· :: _) ?_
      have group := take_statement r h
      rwa [Draft.statement_eq first] at group
  | case2 r i h =>
      rw [List.drop_eq_nil_of_le (Nat.le_of_not_lt h), statements]
      rfl

/-- A round is one step of the loop. -/
theorem mem_rounds (h : round ∈ r.rounds ts i) :
    i ≤ round.first ∧ ∃ hi : round.first < ts.length,
      (round.after, round.next) = round.before.statement ts[round.first] ts round.first := by
  fun_induction Draft.rounds r ts i with
  | case1 r i hi ih =>
      rcases List.mem_cons.1 h with rfl | hrest
      · exact ⟨Nat.le_refl _, hi, rfl⟩
      · obtain ⟨hle, hround⟩ := ih hrest
        exact ⟨Nat.le_of_lt (Nat.lt_of_lt_of_le (r.lt_statement hi) hle), hround⟩
  | case2 r i hi => exact nomatch h

/-- Rounds follow each other without a gap up to the last token. -/
theorem first_rounds (r : Draft) (hi : i ≤ ts.length) :
    (r.rounds ts i).map Round.first ++ [ts.length] = i :: (r.rounds ts i).map Round.next := by
  fun_induction Draft.rounds r ts i with
  | case1 r i h ih => exact congrArg (List.cons i) (ih (statement_le r h))
  | case2 r i h => rw [Nat.le_antisymm hi (Nat.le_of_not_lt h)]; rfl

/-- Each round goes on with the draft of the one before it, and the last one ends the run. -/
theorem before_rounds (r : Draft) (ts : List Token) (i : Nat) :
    (r.rounds ts i).map Round.before ++ [r.run ts i] = r :: (r.rounds ts i).map Round.after := by
  fun_induction Draft.rounds r ts i with
  | case1 r i h ih =>
      rw [Draft.run, dif_pos h]
      exact congrArg (List.cons r) ih
  | case2 r i h =>
      rw [Draft.run, dif_neg h]
      rfl

/-- Every token is taken in exactly one round. -/
theorem existsUnique_round (r : Draft) {k : Nat} (hik : i ≤ k) (hk : k < ts.length) :
    ∃! round, round ∈ r.rounds ts i ∧ round.first ≤ k ∧ k < round.next := by
  fun_induction Draft.rounds r ts i with
  | case1 r i h ih =>
      by_cases hnext : k < (r.statement ts[i] ts i).2
      · refine ⟨_, ⟨List.mem_cons_self .., hik, hnext⟩, ?_⟩
        rintro other ⟨hother, hfirst, -⟩
        rcases List.mem_cons.1 hother with rfl | hlater
        · rfl
        · have := (mem_rounds hlater).1
          omega
      · obtain ⟨round, ⟨hround, hfirst, hlast⟩, hunique⟩ := ih (Nat.le_of_not_lt hnext)
        refine ⟨round, ⟨List.mem_cons_of_mem _ hround, hfirst, hlast⟩, ?_⟩
        rintro other ⟨hother, hother_first, hother_last⟩
        rcases List.mem_cons.1 hother with rfl | hlater
        · exact absurd hother_last hnext
        · exact hunique other ⟨hlater, hother_first, hother_last⟩
  | case2 r i h => omega

/-- What a round does: it reads the statement that starts at its first token. -/
theorem Round.reads (h : round ∈ r.rounds ts i) :
    ∃ token rest, ts.drop round.first = token :: rest ∧ round.first < round.next ∧
      round.tokens ts = (Statement.read token rest).1.tokens ∧
      round.after = round.before.add (Statement.read token rest).1 := by
  obtain ⟨-, hi, hstep⟩ := mem_rounds h
  have first := List.drop_eq_getElem_cons hi
  have hafter : round.after = (round.before.statement ts[round.first] ts round.first).1 :=
    congrArg Prod.fst hstep
  have hnext : round.next = (round.before.statement ts[round.first] ts round.first).2 :=
    congrArg Prod.snd hstep
  refine ⟨_, _, first, ?_, ?_, ?_⟩
  · rw [hnext]
    exact round.before.lt_statement hi
  · rw [Round.tokens, hnext]
    exact take_statement round.before hi
  · rw [hafter, Draft.statement_eq first]

end

/-- What becomes of the tokens of a round: they are a statement that says something, and which is
    counted, or `subgraph` with its name, if any, or warnings cover them all.  An operator that no
    word of the group follows is reported as incomplete. -/
structure Round.Accounted (ts : List Token) (round : Round) (emitted : List Diagnostic) :
    Prop where
  emits : round.after.log.diagnostics = round.before.log.diagnostics ++ emitted
  group :
    (∃ s, s.Meaningful ∧ round.tokens ts = s.tokens ∧ round.after = round.before.add s ∧
      round.after.recognized = round.before.recognized + 1) ∨
    (∃ w name, round.tokens ts = (Statement.subgraph w name).tokens ∧ w.quoted = false ∧
      Keyword.ofWord? w.text = some .subgraph) ∨
    ∀ t ∈ round.tokens ts, Covered emitted t.place.span
  incomplete : ∀ before link after, round.tokens ts = before ++ .link link :: after →
    (∀ w rest, after ≠ .word w :: rest) →
      Covered (withCode .incompleteEdge emitted) link.place.span

theorem covered_incomplete {fs : List Finding} {f : Finding} (hf : f ∈ fs) {link : Link}
    (h : f = .noTarget link ∨ f = .noSource link) :
    Covered (withCode .incompleteEdge (fs.map Finding.diagnostic)) link.place.span := by
  have mem : f.diagnostic ∈ withCode .incompleteEdge (fs.map Finding.diagnostic) := by
    refine List.mem_filter.2 ⟨List.mem_map_of_mem hf, ?_⟩
    rcases h with rfl | rfl <;> rfl
  rcases h with rfl | rfl <;>
    exact ⟨_, mem, rfl, _, List.mem_singleton_self _, Nat.le_refl _, Nat.le_refl _⟩

theorem accounted_of_mem {r : Draft} {ts : List Token} {i : Nat} {round : Round}
    (h : round ∈ r.rounds ts i) : ∃ emitted, round.Accounted ts emitted := by
  obtain ⟨token, rest, -, -, htokens, hafter⟩ := Round.reads h
  let s := (Statement.read token rest).1
  refine ⟨(s.findings round.before.graph.directed).map Finding.diagnostic, ?_, ?_, ?_⟩
  · rw [hafter]
    exact Log.diagnostics_reportAll ..
  · rw [htokens]
    rcases accounted_read token rest round.before.graph.directed with hs | hsubgraph | hcovered
    · refine .inl ⟨s, meaningful_read hs, rfl, hafter, ?_⟩
      rw [hafter]
      exact congrArg _ (if_pos hs)
    · obtain ⟨w, name, hs, hkeyword⟩ := hsubgraph
      exact .inr (.inl ⟨w, name, congrArg Statement.tokens hs, hkeyword⟩)
    · exact .inr (.inr hcovered)
  · intro before link after hsplit hlast
    rw [htokens] at hsplit
    obtain ⟨f, hf, hincomplete⟩ := incomplete_read hsplit hlast round.before.graph.directed
    exact covered_incomplete hf hincomplete

/-- **No token is skipped silently.**  For every list of tokens, the loop comes to an end in rounds
    that follow each other without a gap, each with at least one token, so that every token is taken
    in exactly one of them.  Each round takes the tokens of one of the statements that the tokens
    are read as, goes on with the draft that the one before it leaves, and adds its own diagnostics,
    which account for its tokens. -/
theorem tokens_accounted (r : Draft) (ts : List Token) :
    let rounds := r.rounds ts 0
    rounds.map Round.first ++ [ts.length] = 0 :: rounds.map Round.next ∧
    rounds.map Round.before ++ [r.run ts 0] = r :: rounds.map Round.after ∧
    rounds.map (Round.tokens ts) = (statements ts).map Statement.tokens ∧
    (∀ k < ts.length, ∃! round, round ∈ rounds ∧ round.first ≤ k ∧ k < round.next) ∧
    ∀ round ∈ rounds, round.first < round.next ∧ ∃ emitted, round.Accounted ts emitted := by
  intro rounds
  refine ⟨first_rounds r (Nat.zero_le _), before_rounds r ts 0, tokens_rounds r ts 0, ?_, ?_⟩
  · intro k hk
    exact existsUnique_round r (Nat.zero_le k) hk
  · intro round hround
    obtain ⟨-, -, -, nonempty, -⟩ := Round.reads hround
    exact ⟨nonempty, accounted_of_mem hround⟩

end DotLayout.Dot
