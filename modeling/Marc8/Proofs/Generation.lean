/-
Marc8.Proofs.Generation — a generation writes all of its text or nothing.

A call puts a text at a path: a given one, or that of a table. The text is
complete before a file is touched, and the file is replaced as a whole, so a
call that fails leaves every place as it was (`Call.perform_spec`). Behind any
sequence of calls a place holds what the last successful call on it had to
write (`Session.Inv`, which every call keeps).
-/
import Marc8.Generate
import Marc8.Proofs.Files.Replacing
import Mathlib.Data.List.Induction

namespace Marc8

open Marc8.Files

/-! ## One call -/

section WriteText

variable {tree : Tree} {here : Location} {refusals : Refusals} {path text : String}

theorem writeText_tree : (writeText tree here refusals path text).1 =
    (tree.replaceFile here refusals (.ofText path) text).1 := rfl

theorem writeText_outcome : (writeText tree here refusals path text).2.outcome =
    (tree.replaceFile here refusals (.ofText path) text).2.mapError (.output path) :=
  outcome_reportWritten path text _

end WriteText

/-- Where the text of a call comes from. -/
inductive Source
  | ofTable (t : CodeTable) (policy : Policy)
  | given (text : String)

/-- The text, or why there is none. -/
def Source.compose : Source → Except Failure String
  | .ofTable t policy => (composeText t policy).outcome
  | .given text => .ok text

/-- A text that is to be put at a path. -/
structure Call where
  here : Location
  refusals : Refusals
  source : Source
  path : String

namespace Call

/-- Make the call on a tree. -/
def perform (call : Call) (tree : Tree) : Tree × Run Unit :=
  match call.source with
  | .ofTable t policy => generate tree call.here call.refusals t policy call.path
  | .given text => writeText tree call.here call.refusals call.path text

/-- The text of a call is put at its path; without a text nothing is done. -/
theorem perform_cases (call : Call) (tree : Tree) :
    (∃ text, call.source.compose = .ok text ∧
      (call.perform tree).1 = (writeText tree call.here call.refusals call.path text).1 ∧
      (call.perform tree).2.outcome =
        (writeText tree call.here call.refusals call.path text).2.outcome) ∨
    ∃ failure, call.source.compose = .error failure ∧ (call.perform tree).1 = tree ∧
      (call.perform tree).2.outcome = .error failure := by
  obtain ⟨here, refusals, source, path⟩ := call
  cases source with
  | given text => exact .inl ⟨text, rfl, rfl, rfl⟩
  | ofTable t policy =>
    simp only [perform, generate, Source.compose]
    cases composed : (composeText t policy).outcome with
    | ok text => exact .inl ⟨text, rfl, rfl, by simp only [Run.bind_ok composed]⟩
    | error failure => exact .inr ⟨failure, rfl, rfl, by simp only [Run.bind_error composed]⟩

/-- Nothing stands in the way of the call. -/
def Open (call : Call) (tree : Tree) : Prop :=
  (∃ text, call.source.compose = .ok text) ∧
    tree.Replaceable call.here call.refusals (.ofText call.path)

/-- Why a call fails: there is no text, or the text cannot be written. -/
def Cause (call : Call) (failure : Failure) : Prop :=
  call.source.compose = .error failure ∨
    (∃ text, call.source.compose = .ok text) ∧ ∃ fault, failure = .output call.path fault

/-- **A call succeeds when nothing stands in its way, and changes the file at its path only. It
fails otherwise, and changes nothing.** -/
theorem perform_spec (call : Call) (tree : Tree) :
    ((call.perform tree).2.outcome = .ok () ∧ call.Open tree ∧
        ∃ text place, call.source.compose = .ok text ∧
          tree.replaceTarget call.here (.ofText call.path) = .ok place ∧
          ∀ other, (call.perform tree).1.node? other =
            if other = place then some (.file text.toUTF8) else tree.node? other) ∨
      ¬ call.Open tree ∧ (∀ other, (call.perform tree).1.node? other = tree.node? other) ∧
        ∃ failure, (call.perform tree).2.outcome = .error failure ∧ call.Cause failure := by
  obtain ⟨text, composed, after, outcome⟩ | ⟨failure, composed, after, outcome⟩ :=
    call.perform_cases tree
  · rw [after, outcome, writeText_tree, writeText_outcome]
    obtain ⟨ok, free, place, target, effect⟩ | ⟨⟨fault, error⟩, bad, effect⟩ :=
      tree.replaceFile_spec call.here call.refusals (.ofText call.path) text
    · exact .inl ⟨by rw [ok]; rfl, ⟨⟨text, composed⟩, free⟩, text, place, composed, target, effect⟩
    · refine .inr ⟨fun free => bad free.2, effect, .output call.path fault, by rw [error]; rfl, ?_⟩
      exact .inr ⟨⟨text, composed⟩, fault, rfl⟩
  · refine .inr ⟨?_, fun _ => by rw [after], failure, outcome, .inl composed⟩
    rintro ⟨⟨text, composed'⟩, -⟩
    simp [composed] at composed'

/-- No call makes or removes a directory. -/
theorem sameDirectories_perform (call : Call) (tree : Tree) :
    tree.SameDirectories (call.perform tree).1 := by
  obtain ⟨text, -, after, -⟩ | ⟨failure, -, after, -⟩ := call.perform_cases tree
  · rw [after, writeText_tree]
    exact tree.sameDirectories_replaceFile text
  · rw [after]
    exact .refl tree

end Call

/-! ## Many calls -/

/-- Calls that were made one after another. -/
structure Session where
  /-- The tree behind the calls. -/
  tree : Tree
  /-- The calls that succeeded, the latest in front. -/
  succeeded : List Call

namespace Session

/-- One call more. -/
def next (s : Session) (call : Call) : Session where
  tree := (call.perform s.tree).1
  succeeded :=
    match (call.perform s.tree).2.outcome with
    | .ok () => call :: s.succeeded
    | .error _ => s.succeeded

/-- The calls of a list, made on a tree. -/
def run (tree : Tree) (calls : List Call) : Session :=
  calls.foldl next ⟨tree, []⟩

end Session

/-- The replacement that a call comes down to. -/
def Call.writer (call : Call) : Writer where
  here := call.here
  target := .ofText call.path
  content := (call.source.compose.toOption.getD "").toUTF8
  stage := .waiting

/-- What holds behind any calls that were made on a tree. -/
structure Session.Inv (tree : Tree) (s : Session) : Prop where
  directories : tree.SameDirectories s.tree
  /-- Whoever succeeded had a text. -/
  composed : ∀ call ∈ s.succeeded, ∃ text, call.source.compose = .ok text
  /-- The order of the calls that succeeded tells what stands at a place. -/
  shown : ∀ place, s.tree.node? place = Company.lastRenamed tree Call.writer place s.succeeded

namespace Session

variable {tree : Tree} {s : Session}

/-- **A call keeps the invariant, whether it succeeds or fails.** -/
theorem Inv.next (inv : Inv tree s) (call : Call) : Inv tree (s.next call) := by
  have directories := inv.directories.trans (call.sameDirectories_perform s.tree)
  obtain ⟨ok, ⟨composed, -⟩, text, place, eq, target, effect⟩ |
    ⟨-, effect, failure, error, -⟩ := call.perform_spec s.tree
  · have succeeded : (s.next call).succeeded = call :: s.succeeded := by
      simp only [Session.next, ok]
    refine ⟨directories, ?_, fun other => ?_⟩
    · rw [succeeded]
      exact List.forall_mem_cons.mpr ⟨composed, inv.composed⟩
    · have aim : call.writer.Targets tree other ↔ other = place := by
        rw [Writer.Targets, inv.directories.replaceTarget]
        simp [Call.writer, target, eq_comm]
      have content : call.writer.content = text.toUTF8 := by
        simp [Call.writer, eq, Except.toOption]
      rw [succeeded, Company.lastRenamed, ← inv.shown other, content]
      simp only [Session.next, effect other, aim]
  · have succeeded : (s.next call).succeeded = s.succeeded := by
      simp only [Session.next, error]
    exact ⟨directories, succeeded ▸ inv.composed,
      fun other => by rw [succeeded, ← inv.shown other]; exact effect other⟩

/-- A place that no call succeeded on is as it was. Any other one holds the text of the last call
that did. -/
theorem Inv.last_succeeded (inv : Inv tree s) (place : Location) :
    ((∀ call ∈ s.succeeded, tree.replaceTarget call.here (.ofText call.path) ≠ .ok place) ∧
        s.tree.node? place = tree.node? place) ∨
      ∃ call later earlier text, s.succeeded = later ++ call :: earlier ∧
        tree.replaceTarget call.here (.ofText call.path) = .ok place ∧
        (∀ other ∈ later, tree.replaceTarget other.here (.ofText other.path) ≠ .ok place) ∧
        call.source.compose = .ok text ∧ s.tree.node? place = some (.file text.toUTF8) := by
  rw [inv.shown place]
  by_cases taken : ∃ call ∈ s.succeeded, call.writer.Targets tree place
  · obtain ⟨call, later, earlier, order, target, apart, shown⟩ :=
      Company.lastRenamed_of_exists taken
    obtain ⟨text, composed⟩ := inv.composed call (by simp [order])
    refine .inr ⟨call, later, earlier, text, order, target, apart, composed, ?_⟩
    rw [shown]
    simp [Call.writer, composed, Except.toOption]
  · have apart : ∀ call ∈ s.succeeded, ¬ call.writer.Targets tree place :=
      fun call mem target => taken ⟨call, mem, target⟩
    exact .inl ⟨apart, Company.lastRenamed_of_forall_not apart⟩

theorem run_concat (tree : Tree) (calls : List Call) (call : Call) :
    run tree (calls ++ [call]) = (run tree calls).next call := by
  simp [run, List.foldl_append]

theorem inv_run (tree : Tree) (calls : List Call) : Inv tree (run tree calls) := by
  induction calls using List.reverseRecOn with
  | nil => exact ⟨.refl tree, by simp [run], fun _ => rfl⟩
  | append_singleton calls call ih => exact run_concat tree calls call ▸ ih.next call

end Session

/-! ## All or nothing -/

/-- Of a table that is compiled the statistics are reported, and its text is made. -/
theorem composeText_of_compiled {t : CodeTable} {policy : Policy} {p : CompiledTable}
    (h : (compile t policy).outcome = .ok p) : composeText t policy =
      ⟨(compile t policy).events ++ statistics p, .ok (render p policy.form)⟩ := by
  rw [composeText, Run.bind_ok h, Run.bind_ok (Run.outcome_report _)]
  simp [Run.report, pure, Run.done]

/-- Of a table that is not compiled nothing more is reported. -/
theorem composeText_of_not_compiled {t : CodeTable} {policy : Policy} {failure : Failure}
    (h : (compile t policy).outcome = .error failure) :
    composeText t policy = ⟨(compile t policy).events, .error failure⟩ := by
  rw [composeText, Run.bind_error h]

theorem outcome_composeText (t : CodeTable) (policy : Policy) :
    (composeText t policy).outcome =
      (compile t policy).outcome.map (render · policy.form) := by
  cases h : (compile t policy).outcome with
  | ok p => rw [composeText_of_compiled h]; rfl
  | error failure => rw [composeText_of_not_compiled h]; rfl

theorem compose_ofTable_eq_ok_iff {t : CodeTable} {policy : Policy} {text : String} :
    (Source.ofTable t policy).compose = .ok text ↔
      ∃ p, (compile t policy).outcome = .ok p ∧ render p policy.form = text := by
  rw [Source.compose, outcome_composeText]
  cases (compile t policy).outcome <;> simp [Except.map]

theorem compose_ofTable_eq_error_iff {t : CodeTable} {policy : Policy} {failure : Failure} :
    (Source.ofTable t policy).compose = .error failure ↔
      (compile t policy).outcome = .error failure := by
  rw [Source.compose, outcome_composeText]
  cases (compile t policy).outcome <;> simp [Except.map]

/-- A generation succeeds when the table is compiled and nothing stands in the way of the file. -/
theorem outcome_generate_eq_ok_iff (tree : Tree) (here : Location) (refusals : Refusals)
    (t : CodeTable) (policy : Policy) (path : String) :
    (generate tree here refusals t policy path).2.outcome = .ok () ↔
      (∃ p, (compile t policy).outcome = .ok p) ∧
        tree.Replaceable here refusals (.ofText path) := by
  have text : (∃ text, (Source.ofTable t policy).compose = .ok text) ↔
      ∃ p, (compile t policy).outcome = .ok p := by
    simp [compose_ofTable_eq_ok_iff]
  rw [← text]
  obtain ⟨ok, free, -⟩ | ⟨bad, -, failure, error, -⟩ :=
    Call.perform_spec ⟨here, refusals, .ofTable t policy, path⟩ tree
  · exact iff_of_true ok free
  · refine iff_of_false (fun ok => ?_) bad
    rw [Call.perform, ok] at error
    cases error

/-- **A generation writes all of its text or nothing.**

When it succeeds, the file at the path holds the text of the compiled table, whatever stood there,
and every other place is as it was. When it fails, every place is as it was, and either the table
was not compiled or the file could not be written. It succeeds exactly when the table is compiled,
no step is refused, the temporary file has a directory to stand in, and the path is one that a file
can take.

Of a sequence of generations and writings each is made on the tree that those before it have left,
and the ones that end well there have succeeded, the latest in front. Behind them a path leads where
it led, and a place holds the text of the last of them that succeeded on it.

The same holds of a writer that puts its text into the temporary file in any number of pieces, and
may be refused behind any of them. -/
theorem generate_all_or_nothing :
    (∀ (tree : Tree) (here : Location) (refusals : Refusals) (t : CodeTable) (policy : Policy)
        (path : String),
      match (generate tree here refusals t policy path).2.outcome with
      | .ok () => ∃ p place, (compile t policy).outcome = .ok p ∧
          tree.replaceTarget here (.ofText path) = .ok place ∧
          ∀ other, (generate tree here refusals t policy path).1.node? other =
            if other = place then some (.file (render p policy.form).toUTF8) else tree.node? other
      | .error failure =>
        (∀ other, (generate tree here refusals t policy path).1.node? other = tree.node? other) ∧
          ((compile t policy).outcome = .error failure ∨
            ∃ p fault, (compile t policy).outcome = .ok p ∧ failure = .output path fault)) ∧
    (∀ (tree : Tree) (here : Location) (refusals : Refusals) (t : CodeTable) (policy : Policy)
        (path : String),
      (generate tree here refusals t policy path).2.outcome = .ok () ↔
        (∃ p, (compile t policy).outcome = .ok p) ∧
          tree.Replaceable here refusals (.ofText path)) ∧
    (∀ tree : Tree, Session.run tree [] = ⟨tree, []⟩ ∧
      ∀ (calls : List Call) (call : Call),
        let before := Session.run tree calls
        let after := Session.run tree (calls ++ [call])
        after.tree = (call.perform before.tree).1 ∧
          match (call.perform before.tree).2.outcome with
          | .ok () => after.succeeded = call :: before.succeeded
          | .error _ => after.succeeded = before.succeeded) ∧
    (∀ (tree : Tree) (calls : List Call) (place : Location),
      (∀ here p, (Session.run tree calls).tree.replaceTarget here p = .ok place ↔
        tree.replaceTarget here p = .ok place) ∧
      (((∀ call ∈ (Session.run tree calls).succeeded,
            tree.replaceTarget call.here (.ofText call.path) ≠ .ok place) ∧
          (Session.run tree calls).tree.node? place = tree.node? place) ∨
        ∃ call later earlier text,
          (Session.run tree calls).succeeded = later ++ call :: earlier ∧
          tree.replaceTarget call.here (.ofText call.path) = .ok place ∧
          (∀ other ∈ later, tree.replaceTarget other.here (.ofText other.path) ≠ .ok place) ∧
          call.source.compose = .ok text ∧
          (Session.run tree calls).tree.node? place = some (.file text.toUTF8))) ∧
    ∀ (tree : Tree) (w : Writer) (moves : List Move), w.stage = .waiting →
      w.NamesApart tree moves →
        match (w.moves tree moves).2.stage with
        | .failed _ => ∀ other, (w.moves tree moves).1.node? other = tree.node? other
        | .committed => ∀ other, (w.moves tree moves).1.node? other =
            if w.Targets tree other then some (.file w.content) else tree.node? other
        | _ => True := by
  refine ⟨?_, ?_, ?_, ?_, ?_⟩
  · intro tree here refusals t policy path
    obtain ⟨ok, -, text, place, composed, target, effect⟩ | ⟨-, effect, failure, error, cause⟩ :=
      Call.perform_spec ⟨here, refusals, .ofTable t policy, path⟩ tree
    · obtain ⟨p, compiled, rfl⟩ := compose_ofTable_eq_ok_iff.mp composed
      simp only [Call.perform] at ok effect
      rw [ok]
      exact ⟨p, place, compiled, target, effect⟩
    · simp only [Call.perform] at error effect
      rw [error]
      refine ⟨effect, ?_⟩
      obtain composed | ⟨⟨text, composed⟩, fault, rfl⟩ := cause
      · exact .inl (compose_ofTable_eq_error_iff.mp composed)
      · obtain ⟨p, compiled, -⟩ := compose_ofTable_eq_ok_iff.mp composed
        exact .inr ⟨p, fault, compiled, rfl⟩
  · exact outcome_generate_eq_ok_iff
  · refine fun tree => ⟨rfl, fun calls call => ?_⟩
    simp only [Session.run_concat, Session.next]
    refine ⟨trivial, ?_⟩
    cases (call.perform (Session.run tree calls).tree).2.outcome <;> rfl
  · intro tree calls place
    have inv := Session.inv_run tree calls
    exact ⟨fun here p => inv.directories.replaceTarget.symm, inv.last_succeeded place⟩
  · intro tree w moves waiting apart
    split
    · next failed => exact Writer.node?_moves_of_failed waiting apart failed
    · next committed => exact Writer.node?_moves_of_committed waiting apart committed
    · trivial

/-- A writer that has put half of its text into the temporary file when the system refuses more:
the file of before is still there, and the temporary file is not. -/
theorem generate_all_or_nothing_half_written :
    let tree := Tree.empty.set ["out"] (.file ⟨#[0]⟩)
    let w : Writer := ⟨[], ⟨false, ["out"]⟩, ⟨#[1, 2]⟩, .waiting⟩
    let moves : List Move := [.create ".a", .append 1, .refuse .notFound]
    w.stage = .waiting ∧ w.NamesApart tree moves ∧
      (w.moves tree moves).1.node? ["out"] = some (.file ⟨#[0]⟩) ∧
      (w.moves tree moves).1.node? [".a"] = none := by
  intro tree w moves
  have apart : w.NamesApart tree moves := by
    intro name mem temporary beside
    obtain rfl : name = ".a" := by simpa [moves] using mem
    exact Tree.replaceTarget_ne_of_fresh (by decide) beside
  have failed : (w.moves tree moves).2.stage = .failed .notFound := by rfl
  have untouched := generate_all_or_nothing.2.2.2.2 tree w moves rfl apart
  rw [failed] at untouched
  refine ⟨rfl, apart, ?_, ?_⟩
  · rw [untouched]
    rfl
  · rw [untouched]
    rfl

end Marc8
