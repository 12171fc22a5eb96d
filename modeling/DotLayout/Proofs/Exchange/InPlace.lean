import DotLayout.Proofs.Exchange.Answers

/-! # Runs that change their graph in place

    `Pipeline.run` says which graph a run leaves behind.  A run as it happens has one graph: the
    first layout moves its nodes, a loop over the entries of the answer looks them up in it, a
    second loop writes them into it, and wherever the run stops, the graph stays as it is then.

    * `run_check` : the first loop stops at the first wrong entry and has written nothing.
    * `run_foldlM_writeEntry` : the second loop writes every entry of an answer that passed the
      first one.
    * `run_eq` : the graph that is left and the outcome are those of `Pipeline.run`. -/

namespace DotLayout.Exchange.InPlace

open Layout

/-- A program that works on one graph.  What it changed before it stops stays changed. -/
abbrev Edit := EStateM CollaboratorError Graph

/-- Stops if the node of an entry is missing or one of its numbers is not finite. -/
def checkEntry (entry : ResponseNode) : Edit Unit := do
  let g ← get
  if !g.contains entry.id then throw (.unknownNode entry.id)
  if !entry.isFinite then throw (.notFinite entry.id)

/-- Moves the node of an entry, then resizes it if both sides are given, and counts the entry.  An
    entry whose node is missing is passed over. -/
def writeEntry (count : Nat) (entry : ResponseNode) : Edit Nat := do
  let g ← get
  if g.contains entry.id then
    modify (·.setPosition entry.id ⟨entry.x, entry.y⟩)
    if let (some width, some height) := (entry.width, entry.height) then
      modify (·.setSize entry.id ⟨width, height⟩)
    return count + 1
  else
    return count

/-- Checks all entries, and changes nothing. -/
def check (entries : List ResponseNode) : Edit Unit := entries.forM checkEntry

/-- Writes all entries, and counts them. -/
def write (entries : List ResponseNode) : Edit Nat := entries.foldlM writeEntry 0

/-- Checks a response as a whole, and then writes it. -/
def apply (r : Response) : Edit Nat := do
  check r.nodes
  write r.nodes

/-- Lets the first layout, if there is one, move the nodes. -/
def prepare (p : Pipeline) : Edit Unit :=
  match p.prepass with
  | none => return
  | some algorithm => do
    match algorithm.layout (← get) p.params with
    | .ok positions => modify (·.applyPositions positions)
    | .error fault => throw (.noRoom fault)

/-- Prepares the graph, asks the collaborator, and applies its answer. -/
def run (p : Pipeline) : Edit Nat := do
  prepare p
  match p.collaborator (.ofGraph (← get) p.options) with
  | .ok answer => apply answer
  | .error e => throw e

/-- A graph and an outcome as a program leaves them. -/
def left : Graph × Except CollaboratorError Nat → EStateM.Result CollaboratorError Graph Nat
  | (g, .ok count) => .ok count g
  | (g, .error e) => .error e g

/-! ## The loops -/

/-- Checking an entry finds its fault, and changes nothing. -/
theorem run_checkEntry (g : Graph) (entry : ResponseNode) :
    (checkEntry entry).run g = match entry.fault? g with
      | some e => .error e g
      | none => .ok () g := by
  unfold ResponseNode.fault?
  cases hknown : g.contains entry.id <;> cases hfinite : entry.isFinite <;>
    simp [checkEntry, hknown, hfinite]

/-- The first loop stops at the first wrong entry and leaves the graph as it is. -/
theorem run_check (g : Graph) (entries : List ResponseNode) :
    (check entries).run g = match entries.findSome? (ResponseNode.fault? g) with
      | some e => .error e g
      | none => .ok () g := by
  induction entries with
  | nil => rfl
  | cons entry entries ih =>
    have hstep := run_checkEntry g entry
    show (checkEntry entry >>= fun _ => check entries).run g = _
    rw [EStateM.run_bind, hstep, List.findSome?_cons]
    cases entry.fault? g with
    | some e => rfl
    | none => exact ih

/-- An entry whose node is there is written and counted. -/
theorem run_writeEntry {g : Graph} {entry : ResponseNode} (h : entry.id ∈ g.ids) (count : Nat) :
    (writeEntry count entry).run g = .ok (count + 1) (entry.applyTo g) := by
  have hknown : g.contains entry.id = true := Graph.contains_iff.2 h
  unfold ResponseNode.applyTo
  cases hwidth : entry.width <;> cases hheight : entry.height <;>
    simp only [writeEntry, EStateM.run_bind, EStateM.run_get, if_pos hknown, hwidth, hheight] <;>
    rfl

/-- The second loop writes and counts every entry, if all of their nodes are there. -/
theorem run_foldlM_writeEntry {entries : List ResponseNode} {g : Graph}
    (h : ∀ entry ∈ entries, entry.id ∈ g.ids) (count : Nat) :
    (entries.foldlM writeEntry count).run g
      = .ok (count + entries.length) (entries.foldl ResponseNode.applyTo g) := by
  induction entries generalizing g count with
  | nil => rfl
  | cons entry entries ih =>
    have hids : (entry.applyTo g).ids = g.ids := by
      rw [applyTo_eq, Graph.ids_mapNodes]
    have hrest : ∀ e ∈ entries, e.id ∈ (entry.applyTo g).ids := by
      intro e he
      rw [hids]
      exact h e (List.mem_cons_of_mem entry he)
    rw [List.foldlM_cons, EStateM.run_bind, run_writeEntry (h entry List.mem_cons_self)]
    dsimp only
    rw [ih hrest, List.length_cons, List.foldl_cons]
    congr 1
    omega

/-- Either nothing of an answer is written or all of it. -/
theorem run_apply (g : Graph) (r : Response) :
    (apply r).run g = match r.apply g with
      | .ok (laidOut, count) => .ok count laidOut
      | .error e => .error e g := by
  rw [apply, EStateM.run_bind, run_check]
  cases hfault : r.nodes.findSome? (ResponseNode.fault? g) with
  | some e =>
    rw [Response.apply, validate_eq_error_iff.2 hfault]
    rfl
  | none =>
    have hok : r.validate g = .ok () := by
      rw [Response.validate, hfault]
    have hids : ∀ entry ∈ r.nodes, entry.id ∈ g.ids := by
      intro entry hentry
      exact (validate_eq_ok_iff.1 hok entry hentry).1
    dsimp only
    rw [write, run_foldlM_writeEntry hids, Nat.zero_add, Response.apply, hok]
    rfl

/-! ## The whole run -/

/-- A graph is prepared in its place, and stays as it was if that fails. -/
theorem run_prepare (g : Graph) (p : Pipeline) :
    (prepare p).run g = match p.prepare g with
      | .ok prepared => .ok () prepared
      | .error e => .error e g := by
  unfold prepare Pipeline.prepare
  cases p.prepass with
  | none => rfl
  | some algorithm =>
    dsimp only
    rw [EStateM.run_bind, EStateM.run_get]
    dsimp only
    generalize algorithm.layout g p.params = outcome
    cases outcome <;> rfl

/-- A run leaves the graph and the outcome that `Pipeline.run` says. -/
theorem run_eq (g : Graph) (p : Pipeline) : (run p).run g = left (p.run g) := by
  rw [run, EStateM.run_bind, run_prepare, Pipeline.run]
  cases p.prepare g with
  | error e => rfl
  | ok prepared =>
    cases hanswer : p.collaborator (.ofGraph prepared p.options) with
    | error e =>
      simp only [EStateM.run_bind, EStateM.run_get, hanswer]
      rfl
    | ok answer =>
      simp only [EStateM.run_bind, EStateM.run_get, hanswer, run_apply]
      cases answer.apply prepared <;> rfl

end DotLayout.Exchange.InPlace
