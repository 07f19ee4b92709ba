/-
Marc8.Proofs.CommandLine — whole runs of the program.

The arguments alone tell whether a run generates (`Asks`). One that does ends in
one of two ways: the file stands where OUTPUT leads and nothing else has changed
(`Outcome.Wrote`), or nothing has changed at all (`Outcome.Failed`). The bundled
table is never the reason for a failure: its listing is read and the table is
compiled. Any other run touches nothing and reports nothing (`Outcome.Idle`).

  `generate_of_composed`  — a generation where there is a text;
  `wrote_or_failed`, `idle_of_not_asks_generate` — the two kinds of run;
  `run_writes_output_or_nothing` — what the program does.
-/
import Marc8.Proofs.Arguments
import Marc8.Proofs.Bundled
import Marc8.Proofs.Generation
import Marc8.Proofs.Listing.Checking
import Marc8.Proofs.Reporting

namespace Marc8.CommandLine

open Files

/-- The run has put a text where OUTPUT leads, has changed nothing else, and says so. -/
structure Outcome.Wrote (o : Outcome) (tree : Tree) (here : Location) (output text : String) :
    Prop where
  exitCode : o.exitCode = 0
  stdout : o.stdout = ""
  failure : o.failure = none
  placed : ∃ place, tree.replaceTarget here (.ofText output) = .ok place ∧
    ∀ other, o.tree.node? other =
      if other = place then some (.file text.toUTF8) else tree.node? other
  /-- The log tells how large the file is. -/
  logged : line (.written text.utf8ByteSize output) ∈ log o.events

/-- The run could not write to OUTPUT, has changed nothing, and does not speak of a file. -/
structure Outcome.Failed (o : Outcome) (tree : Tree) (output : String) : Prop where
  exitCode : o.exitCode = 1
  stdout : o.stdout = ""
  failure : ∃ fault, o.failure = some (.output output fault)
  kept : ∀ place, o.tree.node? place = tree.node? place
  unlogged : ∀ bytes path, line (.written bytes path) ∉ log o.events

/-- The run has not looked at the tree, and reports nothing. -/
structure Outcome.Idle (o : Outcome) (tree : Tree) : Prop where
  tree_eq : o.tree = tree
  events : o.events = []
  failure : o.failure = none

/-! ## Runs that generate -/

/-- **Where there is a text, a generation puts it at the path and reports its size, or changes
nothing and reports no writing.** The first happens exactly when nothing stands in the way of the
file. -/
theorem generate_of_composed {t : CodeTable} {policy : Policy} {text : String}
    (composed : (Source.ofTable t policy).compose = .ok text) (tree : Tree) (here : Location)
    (refusals : Refusals) (path : String) :
    let generated := generate tree here refusals t policy path
    (generated.2.outcome = .ok () ∧ tree.Replaceable here refusals (.ofText path) ∧
        (∃ place, tree.replaceTarget here (.ofText path) = .ok place ∧
          ∀ other, generated.1.node? other =
            if other = place then some (.file text.toUTF8) else tree.node? other) ∧
        .written text.utf8ByteSize path ∈ generated.2.events) ∨
      (∃ fault, generated.2.outcome = .error (.output path fault)) ∧
        ¬ tree.Replaceable here refusals (.ofText path) ∧
        (∀ place, generated.1.node? place = tree.node? place) ∧
        ∀ e ∈ generated.2.events, ¬ e.IsWritten := by
  obtain ⟨ok, free, text', place, eq, target, effect⟩ | ⟨bad, effect, failure, error, cause⟩ :=
    Call.perform_spec ⟨here, refusals, .ofTable t policy, path⟩ tree
  · simp only [Call.perform] at ok effect
    obtain rfl : text = text' := Except.ok.inj (composed.symm.trans eq)
    obtain ⟨text', eq', events⟩ := generate_events_of_ok ok
    obtain rfl : text = text' := Except.ok.inj (composed.symm.trans eq')
    exact .inl ⟨ok, free.2, ⟨place, target, effect⟩, by simp [events]⟩
  · simp only [Call.perform] at error effect
    obtain none | ⟨-, fault, rfl⟩ := cause
    · cases composed.symm.trans none
    · refine .inr ⟨⟨fault, error⟩, fun free => bad ⟨⟨_, composed⟩, free⟩, effect, ?_⟩
      rw [generate_events_of_error error]
      exact reports_composeText policy t

namespace Outcome

variable {generated : Tree × Run Unit} {tree : Tree} {here : Location} {output text : String}

/-- A generation that has put its text ends the run well. -/
theorem wrote_ofGeneration (ok : generated.2.outcome = .ok ())
    (placed : ∃ place, tree.replaceTarget here (.ofText output) = .ok place ∧
      ∀ other, generated.1.node? other =
        if other = place then some (.file text.toUTF8) else tree.node? other)
    (reported : .written text.utf8ByteSize output ∈ generated.2.events) :
    (ofGeneration generated).Wrote tree here output text := by
  rw [ofGeneration, ok]
  exact ⟨rfl, rfl, rfl, placed, mem_log_iff.mpr ⟨_, reported, rfl, rfl⟩⟩

/-- A generation that could not write ends it with a failure. -/
theorem failed_ofGeneration {fault : Fault}
    (error : generated.2.outcome = .error (.output output fault))
    (kept : ∀ place, generated.1.node? place = tree.node? place)
    (quiet : ∀ e ∈ generated.2.events, ¬ e.IsWritten) :
    (ofGeneration generated).Failed tree output := by
  rw [ofGeneration, error]
  exact ⟨rfl, rfl, ⟨fault, rfl⟩, kept, line_not_mem_log quiet⟩

end Outcome

section Runs

variable {tree : Tree} {here : Location} {refusals : Refusals} {arguments : List String}
  {output : String} {p : CompiledTable}

theorem run_of_asks_generate (asks : Asks arguments (.generate output)) :
    run tree here refusals arguments =
      .ofGeneration (generate tree here refusals Bundled.table .standard output) := by
  rw [run, asks.ofArguments_eq]

/-- **A run that generates puts the text at OUTPUT, or changes nothing.** -/
theorem wrote_or_failed (compiled : (compile Bundled.table .standard).outcome = .ok p)
    (asks : Asks arguments (.generate output)) :
    (tree.Replaceable here refusals (.ofText output) ∧
        (run tree here refusals arguments).Wrote tree here output (render p .matchTree)) ∨
      ¬ tree.Replaceable here refusals (.ofText output) ∧
        (run tree here refusals arguments).Failed tree output := by
  have composed : (Source.ofTable Bundled.table .standard).compose = .ok (render p .matchTree) :=
    compose_ofTable_eq_ok_iff.mpr ⟨p, compiled, rfl⟩
  rw [run_of_asks_generate asks]
  obtain ⟨ok, free, placed, reported⟩ | ⟨⟨fault, error⟩, bad, kept, quiet⟩ :=
    generate_of_composed composed tree here refusals output
  · exact .inl ⟨free, Outcome.wrote_ofGeneration ok placed reported⟩
  · exact .inr ⟨bad, Outcome.failed_ofGeneration error kept quiet⟩

/-! ## Other runs -/

/-- **Arguments that ask for no generation ask for a text, or they have no form.** -/
theorem idle_of_not_asks_generate (other : ∀ output, ¬ Asks arguments (.generate output)) :
    (run tree here refusals arguments).Idle tree ∧
      (((∃ topic, Asks arguments (.help topic)) ∨ Asks arguments .version) ∧
          (run tree here refusals arguments).exitCode = 0 ∨
        (∀ invocation, ¬ Asks arguments invocation) ∧
          (run tree here refusals arguments).exitCode = 2) := by
  cases h : Invocation.ofArguments arguments with
  | generate output => exact absurd (asks_iff.mpr ⟨h, nofun⟩) (other output)
  | help topic =>
    rw [run, h]
    exact ⟨⟨rfl, rfl, rfl⟩, .inl ⟨.inl ⟨topic, asks_iff.mpr ⟨h, nofun⟩⟩, rfl⟩⟩
  | version =>
    rw [run, h]
    exact ⟨⟨rfl, rfl, rfl⟩, .inl ⟨.inr (asks_iff.mpr ⟨h, nofun⟩), rfl⟩⟩
  | misuse =>
    rw [run, h]
    refine ⟨⟨rfl, rfl, rfl⟩, .inr ⟨fun invocation asks => ?_, rfl⟩⟩
    obtain ⟨eq, ne⟩ := asks_iff.mp asks
    exact ne (eq.symm.trans h)

/-! ## All runs -/

/-- A run ends with 0, 1 or 2. -/
theorem exitCode_run : (run tree here refusals arguments).exitCode = 0 ∨
    (run tree here refusals arguments).exitCode = 1 ∨
    (run tree here refusals arguments).exitCode = 2 := by
  obtain ⟨p, compiled⟩ := Bundled.exists_compiled
  by_cases generates : ∃ output, Asks arguments (.generate output)
  · obtain ⟨output, asks⟩ := generates
    obtain ⟨-, wrote⟩ | ⟨-, failed⟩ := wrote_or_failed compiled asks
    · exact .inl wrote.exitCode
    · exact .inr (.inl failed.exitCode)
  · obtain ⟨-, ⟨-, zero⟩ | ⟨-, two⟩⟩ :=
      idle_of_not_asks_generate fun output asks => generates ⟨output, asks⟩
    · exact .inl zero
    · exact .inr (.inr two)

end Runs

/-- **What the program does, whatever its arguments, and whatever stands in the tree.**

The bundled listing is read and its table compiled. A run ends with 0, 1 or 2.

Where the arguments ask for a generation it ends with 0 exactly when nothing stands in the way of
the file. Then the text of the compiled table stands where OUTPUT leads and nothing else has
changed. Otherwise it ends with 1, nothing has changed, and the failure is that of writing to
OUTPUT. The log has a line about a file that was written exactly in the first case.

Where the arguments ask for help or for the version it ends with 0, and where they have no form
with 2. In both cases the tree is the same and nothing is reported. -/
theorem run_writes_output_or_nothing (tree : Tree) (here : Location) (refusals : Refusals)
    (arguments : List String) :
    let o := run tree here refusals arguments
    ∃ p, Listing.read Bundled.listing = .ok Bundled.table ∧
      (compile Bundled.table .standard).outcome = .ok p ∧
      (o.exitCode = 0 ∨ o.exitCode = 1 ∨ o.exitCode = 2) ∧
      (∀ output, Asks arguments (.generate output) →
        (o.exitCode = 0 ∧ o.Wrote tree here output (render p .matchTree) ∨
          o.exitCode = 1 ∧ o.Failed tree output) ∧
        (o.exitCode = 0 ↔ tree.Replaceable here refusals (.ofText output)) ∧
        ((∃ bytes path, line (.written bytes path) ∈ log o.events) ↔ o.exitCode = 0)) ∧
      ((∀ output, ¬ Asks arguments (.generate output)) →
        o.Idle tree ∧ log o.events = [] ∧
          (((∃ topic, Asks arguments (.help topic)) ∨ Asks arguments .version) ∧ o.exitCode = 0 ∨
            (∀ invocation, ¬ Asks arguments invocation) ∧ o.exitCode = 2)) := by
  intro o
  obtain ⟨p, compiled⟩ := Bundled.exists_compiled
  refine ⟨p, Bundled.read_listing, compiled, exitCode_run, fun output asks => ?_, fun other => ?_⟩
  · obtain ⟨free, wrote⟩ | ⟨bad, failed⟩ := wrote_or_failed compiled asks
    · refine ⟨.inl ⟨wrote.exitCode, wrote⟩, iff_of_true wrote.exitCode free, ?_⟩
      exact iff_of_true ⟨_, _, wrote.logged⟩ wrote.exitCode
    · have ne : o.exitCode ≠ 0 := by
        rw [failed.exitCode]
        decide
      refine ⟨.inr ⟨failed.exitCode, failed⟩, iff_of_false ne bad, iff_of_false ?_ ne⟩
      rintro ⟨bytes, path, mem⟩
      exact failed.unlogged bytes path mem
  · obtain ⟨idle, ends⟩ := idle_of_not_asks_generate other
    exact ⟨idle, by rw [idle.events]; rfl, ends⟩

/-- In a directory with nothing in it a file can be made; the usual place for the file is missing;
and behind OUTPUT one can still ask for help. -/
theorem run_writes_output_or_nothing_three_runs :
    let tree := Tree.empty.set ["work"] .directory
    ((run tree ["work"] .none ["generate", "out"]).exitCode = 0 ∧
      ∃ p, (compile Bundled.table .standard).outcome = .ok p ∧
        (run tree ["work"] .none ["generate", "out"]).tree.node? ["work", "out"] =
          some (.file (render p .matchTree).toUTF8)) ∧
    (run tree ["work"] .none ["generate"]).exitCode = 1 ∧
    (run tree ["work"] .none ["generate", "out", "-h"]).Idle tree := by
  intro tree
  refine ⟨?_, ?_, ?_⟩
  · have asks : Asks ["generate", "out"] (.generate "out") :=
      .output (shape_eq_operand_iff.mp (by decide)) (by decide)
    have aim : tree.replaceTarget ["work"] (.ofText "out") = .ok ["work", "out"] := by decide
    have free : tree.Replaceable ["work"] .none (.ofText "out") :=
      ⟨fun _ => rfl, ⟨["work", ".tmp000000"], by decide⟩, ⟨_, aim⟩⟩
    obtain ⟨p, -, compiled, -, generates, -⟩ :=
      run_writes_output_or_nothing tree ["work"] .none ["generate", "out"]
    obtain ⟨⟨zero, wrote⟩ | ⟨one, -⟩, possible, -⟩ := generates "out" asks
    · obtain ⟨place, target, effect⟩ := wrote.placed
      obtain rfl : ["work", "out"] = place := Except.ok.inj (aim.symm.trans target)
      exact ⟨zero, p, compiled, by rw [effect, if_pos rfl]⟩
    · exact absurd (one.symm.trans (possible.mpr free)) (by decide)
  · have missing : tree.replaceTarget ["work"] (.ofText defaultOutput) = .error .notFound := by
      decide
    obtain ⟨p, -, -, -, generates, -⟩ :=
      run_writes_output_or_nothing tree ["work"] .none ["generate"]
    obtain ⟨⟨zero, -⟩ | ⟨one, -⟩, possible, -⟩ := generates defaultOutput .omitted
    · obtain ⟨place, target⟩ := (possible.mp zero).aim
      cases missing.symm.trans target
    · exact one
  · have asks : Asks ["generate", "out", "-h"] (.help .generate) :=
      .explainBehind (shape_eq_operand_iff.mp (by decide)) (by decide)
        (flag_help_iff.mpr (.inr (by decide)))
    obtain ⟨p, -, -, -, -, idles⟩ :=
      run_writes_output_or_nothing tree ["work"] .none ["generate", "out", "-h"]
    exact (idles fun output generates => nomatch asks.unique generates).1

end Marc8.CommandLine
