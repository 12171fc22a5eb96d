import DotLayout.Proofs.Exchange.InPlace

/-! # What a run leaves behind

    A run hands a graph to a collaborator, which may be anything: it may fail, name nodes that are
    not there, name a node twice, or mix numbers that are finite with others that are not.

    * `run_cases` : a run ends with an error and the graph as the first layout left it, or with all
      entries of a faultless answer written.
    * `outcome_eq_error_iff`, `outcome_eq_ok_iff` : which of the two it is.
    * `run_all_or_nothing` : so nothing else of the graph is ever changed, and never half of it.
    * `runAll_keeps_finite` : no collaborators, one after the other, can bring a number into a graph
      that is not finite, or change its nodes. -/

namespace DotLayout.Exchange

open Layout

variable {p : Pipeline} {g prepared : Graph}

/-- The graph that a collaborator is asked about: the graph itself, or the graph with the positions
    of the first layout.  There is none if the bounds of that layout leave no room. -/
inductive Pipeline.Prepares (p : Pipeline) (g : Graph) : Graph → Prop where
  | untouched (h : p.prepass = none) : p.Prepares g g
  | placed {algorithm : Algorithm} {positions : Positions} (h : p.prepass = some algorithm)
      (hlayout : algorithm.layout g p.params = .ok positions) :
      p.Prepares g (g.applyPositions positions)

theorem prepares_iff : p.Prepares g prepared ↔ p.prepare g = .ok prepared := by
  rw [Pipeline.prepare]
  constructor
  · intro h
    cases h with
    | untouched hnone => rw [hnone]
    | placed hsome hlayout =>
      rw [hsome]
      dsimp only
      rw [hlayout]
  · intro h
    cases hprepass : p.prepass with
    | none =>
      rw [hprepass] at h
      obtain rfl := Except.ok.inj h
      exact .untouched hprepass
    | some algorithm =>
      rw [hprepass] at h
      dsimp only at h
      cases hlayout : algorithm.layout g p.params with
      | error fault =>
        rw [hlayout] at h
        exact nomatch h
      | ok positions =>
        rw [hlayout] at h
        obtain rfl := Except.ok.inj h
        exact .placed hprepass hlayout

theorem Pipeline.Prepares.sameButPlaces (h : p.Prepares g prepared) : g.SameButPlaces prepared := by
  cases h with
  | untouched => exact .refl g
  | placed => exact g.sameButPlaces_applyPositions _

/-! ## One run -/

/-- The ways in which a run can end once the graph is prepared. -/
theorem run_cases (h : p.Prepares g prepared) :
    (∃ e, (p.collaborator (.ofGraph prepared p.options) = .error e ∨
        ∃ answer, p.collaborator (.ofGraph prepared p.options) = .ok answer ∧
          answer.validate prepared = .error e) ∧
      p.run g = (prepared, .error e)) ∨
    ∃ answer, p.collaborator (.ofGraph prepared p.options) = .ok answer ∧
      answer.validate prepared = .ok () ∧
      p.run g = (answer.nodes.foldl ResponseNode.applyTo prepared, .ok answer.nodes.length) := by
  rw [Pipeline.run, prepares_iff.1 h]
  dsimp only
  cases hanswer : p.collaborator (.ofGraph prepared p.options) with
  | error e => exact .inl ⟨e, .inl rfl, rfl⟩
  | ok answer =>
    dsimp only
    rw [Response.apply]
    cases hvalid : answer.validate prepared with
    | error e => exact .inl ⟨e, .inr ⟨answer, rfl, hvalid⟩, rfl⟩
    | ok => exact .inr ⟨answer, rfl, hvalid, rfl⟩

/-- A run fails as the collaborator does, or as the check of its answer does. -/
theorem outcome_eq_error_iff (h : p.Prepares g prepared) {e : CollaboratorError} :
    (p.run g).2 = .error e ↔
      p.collaborator (.ofGraph prepared p.options) = .error e ∨
      ∃ answer, p.collaborator (.ofGraph prepared p.options) = .ok answer ∧
        answer.validate prepared = .error e := by
  obtain ⟨e', hfailed | ⟨answer, hanswer, hwrong⟩, hend⟩ | ⟨answer, hanswer, hvalid, hend⟩ :=
    run_cases h
  · simp [hend, hfailed]
  · simp [hend, hanswer, hwrong]
  · simp [hend, hanswer, hvalid]

/-- A run succeeds when the collaborator gives an answer without fault. -/
theorem outcome_eq_ok_iff (h : p.Prepares g prepared) :
    (∃ count, (p.run g).2 = .ok count) ↔
      ∃ answer, p.collaborator (.ofGraph prepared p.options) = .ok answer ∧
        ∀ entry ∈ answer.nodes, entry.id ∈ g.ids ∧ entry.isFinite = true := by
  rw [← h.sameButPlaces.ids]
  simp only [← validate_eq_ok_iff]
  obtain ⟨e', hfailed | ⟨answer, hanswer, hwrong⟩, hend⟩ | ⟨answer, hanswer, hvalid, hend⟩ :=
    run_cases h
  · simp [hend, hfailed]
  · simp [hend, hanswer, hwrong]
  · simp [hend, hanswer, hvalid]

/-- **A run does all of its work or none of it.**  When a run stops with an error, its graph is as
    the first layout left it: as it was, if there is no first layout.  When it succeeds, name,
    direction, attributes, edges, and the order, ids, labels and styles of the nodes are as they
    were, and a node that the answer does not name is where the first layout left it and as large
    as it was.  A run succeeds when the collaborator gives an answer without fault. -/
theorem run_all_or_nothing (h : p.Prepares g prepared) :
    (∀ e after, (InPlace.run p).run g = .error e after → after = prepared) ∧
    (∀ count after, (InPlace.run p).run g = .ok count after →
      g.SameButPlaces after ∧
      ∃ answer, p.collaborator (.ofGraph prepared p.options) = .ok answer ∧
        ∀ id, id ∉ answer.nodes.map ResponseNode.id → after.node? id = prepared.node? id) ∧
    ((∃ count after, (InPlace.run p).run g = .ok count after) ↔
      ∃ answer, p.collaborator (.ofGraph prepared p.options) = .ok answer ∧
        ∀ entry ∈ answer.nodes, entry.id ∈ g.ids ∧ entry.isFinite = true) ∧
    (InPlace.run p).run g = InPlace.left (p.run g) := by
  rw [← outcome_eq_ok_iff h, InPlace.run_eq]
  obtain ⟨e', -, hend⟩ | ⟨answer, hanswer, -, hend⟩ := run_cases h
  · -- the run stops with an error, before anything is written
    rw [hend]
    refine ⟨?_, nofun, ?_, rfl⟩
    · intro e after hrun
      exact (EStateM.Result.error.inj hrun).2.symm
    · exact ⟨nofun, nofun⟩
  · -- all entries of the answer are written
    rw [hend]
    refine ⟨nofun, ?_, ⟨fun _ => ⟨_, rfl⟩, fun _ => ⟨_, _, rfl⟩⟩, rfl⟩
    intro count after hrun
    obtain rfl := (EStateM.Result.ok.inj hrun).2
    refine ⟨h.sameButPlaces.trans (sameButPlaces_foldl_applyTo prepared answer.nodes), answer,
      hanswer, ?_⟩
    intro id hid
    exact node?_foldl_applyTo prepared hid

/-- Two nodes and an edge. -/
def pair : Graph := (Graph.empty true none).connect "a" "b" {} .curved

/-- A first layout on a grid, and a collaborator whose second entry names no node. -/
def halfWrong : Pipeline where
  collaborator := fun _ => .ok ⟨[⟨"a", 1, 2, none, none⟩, ⟨"ghost", 3, 4, none, none⟩], []⟩
  prepass := some .grid

/-- The first entry of an answer is not written if the second one is wrong. -/
theorem run_all_or_nothing_halfWrong :
    ∃ positions, Algorithm.grid.layout pair {} = .ok positions ∧
      halfWrong.Prepares pair (pair.applyPositions positions) ∧
      (InPlace.run halfWrong).run pair
        = .error (.unknownNode "ghost") (pair.applyPositions positions) := by
  have hlayout : Algorithm.grid.layout pair {}
      = .ok (.ofList (pair.ids.zip (Grid.points (.ofGraph pair {})))) := rfl
  have hprepares : halfWrong.Prepares pair _ := .placed rfl hlayout
  refine ⟨_, hlayout, hprepares, ?_⟩
  obtain ⟨after, hrun⟩ :
      ∃ after, (InPlace.run halfWrong).run pair = .error (.unknownNode "ghost") after := ⟨_, rfl⟩
  rw [hrun, (run_all_or_nothing hprepares).1 _ _ hrun]

/-! ## Runs one after the other -/

/-- Runs pipelines on a graph, one after the other, each on what the one before it left. -/
def runAll (pipelines : List Pipeline) (g : Graph) : Graph :=
  pipelines.foldl (fun g p => (p.run g).1) g

theorem ids_run (h : p.prepass = none) : (p.run g).1.ids = g.ids := by
  obtain ⟨e, -, hend⟩ | ⟨answer, -, -, hend⟩ := run_cases (.untouched h)
  · rw [hend]
  · rw [hend]
    exact (sameButPlaces_foldl_applyTo g answer.nodes).ids

/-- The check of an answer covers every number that can be written. -/
theorem isFinite_run (h : p.prepass = none) (hg : g.IsFinite) : (p.run g).1.IsFinite := by
  obtain ⟨e, -, hend⟩ | ⟨answer, -, hvalid, hend⟩ := run_cases (.untouched h)
  · rw [hend]
    exact hg
  · rw [hend]
    exact isFinite_foldl_applyTo (fun entry he => (validate_eq_ok_iff.1 hvalid entry he).2) hg

/-- **Collaborators cannot bring in numbers that are not finite.**  Whatever the collaborators of
    any number of pipelines without a first layout answer, a graph whose positions and sizes are
    finite keeps finite positions and sizes, and the same nodes in the same order. -/
theorem runAll_keeps_finite {pipelines : List Pipeline} (h : ∀ p ∈ pipelines, p.prepass = none)
    (hg : g.IsFinite) : (runAll pipelines g).IsFinite ∧ (runAll pipelines g).ids = g.ids := by
  induction pipelines generalizing g with
  | nil => exact ⟨hg, rfl⟩
  | cons p pipelines ih =>
    have hp : p.prepass = none := h p List.mem_cons_self
    have hrest : ∀ q ∈ pipelines, q.prepass = none := fun q hq => h q (List.mem_cons_of_mem p hq)
    obtain ⟨hfinite, hids⟩ := ih hrest (isFinite_run hp hg)
    exact ⟨hfinite, hids.trans (ids_run hp)⟩

/-- A collaborator that fails, one that gives a number that is not finite after a good entry, and
    one that resizes a node that it names twice. -/
def hostile : List Pipeline :=
  [{ collaborator := fun _ => .error (.failed "engine unavailable") },
    { collaborator := fun _ =>
        .ok ⟨[⟨"a", 1, 2, none, none⟩, ⟨"b", Numeric.notANumber, 0, none, none⟩], []⟩ },
    { collaborator := fun _ =>
        .ok ⟨[⟨"b", 5, 6, some 80, none⟩, ⟨"b", 7, 8, some 80, some 30⟩], []⟩ }]

theorem runAll_keeps_finite_hostile :
    (∀ p ∈ hostile, p.prepass = none) ∧ pair.IsFinite ∧
      (runAll hostile pair).IsFinite ∧ (runAll hostile pair).ids = ["a", "b"] := by
  have hprepass : ∀ p ∈ hostile, p.prepass = none := by simp [hostile]
  have hfinite : pair.IsFinite := by decide
  exact ⟨hprepass, hfinite, runAll_keeps_finite hprepass hfinite⟩

end DotLayout.Exchange
