import DotLayout.Dot.Document

/-! # Errors and warnings

    Two findings are errors, and either of them is the reason to refuse a text.  All others are
    warnings: what is found about statements and about the end of a body refuses no text.

    * `severity_diagnostic` and `code_of_not_fatal` : the severity and the code of a finding.
    * `fatal_findings` : nothing that is found in a description is fatal. -/

namespace DotLayout.Dot

/-- Whether a finding is a reason to refuse a text. -/
def Finding.fatal : Finding → Bool
  | .emptyInput _ | .unreadable _ => true
  | _ => false

/-- The names of the codes that warnings have. -/
def warningNames : List String := ["W200", "W201", "W202", "W203", "W204", "W205"]

/-- A finding is an error if it is fatal, and else a warning. -/
theorem severity_diagnostic (f : Finding) :
    f.diagnostic.severity = if f.fatal then .error else .warning := by
  cases f <;> rfl

theorem error_diagnostic (f : Finding) : (f.diagnostic.severity == .error) = f.fatal := by
  cases f <;> rfl

/-- A finding that is not fatal has a code, and one of the warnings. -/
theorem code_of_not_fatal {f : Finding} (h : f.fatal = false) :
    ∃ code, f.diagnostic.code = some code ∧ code.name ∈ warningNames := by
  cases f with
  | emptyInput => exact nomatch h
  | unreadable => exact nomatch h
  | _ => exact ⟨_, rfl, by decide⟩

/-- Nothing that is found in a list is fatal. -/
theorem fatal_bracketFindings {b : Bracket} : ∀ f ∈ b.findings, f.fatal = false := by
  intro f hf
  rcases List.mem_append.1 hf with hopen | hjunk
  · split at hopen
    · exact nomatch hopen
    · rw [List.mem_singleton.1 hopen]
      rfl
  · obtain ⟨place, -, rfl⟩ := List.mem_map.1 hjunk
    rfl

/-- Nothing that is found in some lists is fatal. -/
theorem fatal_listFindings {lists : List Bracket} :
    ∀ f ∈ lists.flatMap Bracket.findings, f.fatal = false := by
  intro f hf
  obtain ⟨b, -, hb⟩ := List.mem_flatMap.1 hf
  exact fatal_bracketFindings f hb

/-- What is found about a statement refuses no text. -/
theorem fatal_statementFindings {directed : Bool} {s : Statement} :
    ∀ f ∈ s.findings directed, f.fatal = false := by
  intro f hf
  cases s with
  | assignment => exact nomatch hf
  | subgraph => exact nomatch hf
  | defaults keyword ofGraph lists => exact fatal_listFindings f hf
  | chain head hops dangling lists =>
      rcases List.mem_append.1 hf with hops | hlists
      · rcases List.mem_append.1 hops with hmismatch | hdangling
        · obtain ⟨link, -, rfl⟩ := List.mem_map.1 hmismatch
          rfl
        · obtain ⟨link, -, rfl⟩ := Option.map_eq_some_iff.1 (Option.mem_toList.1 hdangling)
          rfl
      · exact fatal_listFindings f hlists
  | _ =>
      rw [List.mem_singleton.1 hf]
      rfl

/-- A body that is never closed is not fatal. -/
theorem fatal_unclosed {d : Document} {length : Nat} :
    ∀ f ∈ d.unclosed length, f.fatal = false := by
  intro f hf
  rw [Document.unclosed] at hf
  split at hf
  · split at hf
    · exact nomatch hf
    · rw [List.mem_singleton.1 hf]
      rfl
  · exact nomatch hf

/-- What is found in a description refuses no text. -/
theorem fatal_findings {d : Document} {length : Nat} :
    ∀ f ∈ d.findings length, f.fatal = false := by
  intro f hf
  rcases List.mem_append.1 hf with hunclosed | hstatement
  · exact fatal_unclosed f hunclosed
  · obtain ⟨s, -, hs⟩ := List.mem_flatMap.1 hstatement
    exact fatal_statementFindings f hs

end DotLayout.Dot
