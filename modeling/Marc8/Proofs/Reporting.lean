/-
Marc8.Proofs.Reporting — what a generation reports, and what the log shows of it.

Until its text is complete a generation reports splits and statistics; the last
event is the writing of the file, if the file was written. Events have messages
that begin with different characters, and the log keeps the first one of each,
so a line of the log tells whether it is about the file.

  `reports_composeText`    — up to its text a generation reports no writing;
  `generate_events_of_ok`, `generate_events_of_error` — what it reports in the end;
  `isWritten_of_line_eq`   — a line about a file that was written comes from such an event.
-/
import Marc8.CommandLine
import Marc8.Proofs.Accounting

namespace Marc8

/-! ## Up to the text -/

/-- The event is about a file that was written. -/
def Event.IsWritten (e : Event) : Prop := ∃ bytes path, e = .written bytes path

section Events

variable {t : CodeTable} {policy : Policy} {p : CompiledTable} {e : Event}

/-- A compilation reports splits only. -/
theorem not_isWritten_of_mem_compile (h : e ∈ (compile t policy).events) : ¬ e.IsWritten := by
  rintro ⟨bytes, path, rfl⟩
  obtain ⟨sp, hsplit⟩ := exists_splitsOf_of_mem h
  cases level_of_mem_splitsOf hsplit

theorem not_isWritten_of_mem_statistics (h : e ∈ statistics p) : ¬ e.IsWritten := by
  rcases List.mem_cons.mp h with rfl | h
  · simp [Event.IsWritten]
  · obtain ⟨charset, _, he⟩ := List.mem_flatMap.mp h
    unfold Charset.statistics at he
    split at he
    · obtain rfl := List.mem_singleton.mp he
      simp [Event.IsWritten]
    · rcases List.mem_cons.mp he with rfl | he
      · simp [Event.IsWritten]
      · obtain ⟨block, _, rfl⟩ := List.mem_map.mp he
        simp [Event.IsWritten]

/-- Up to its text a generation reports no writing. -/
theorem reports_composeText (policy : Policy) (t : CodeTable) :
    ∀ e ∈ (composeText t policy).events, ¬ e.IsWritten := by
  intro e he
  cases hcompile : (compile t policy).outcome with
  | ok p =>
    rw [composeText_of_compiled hcompile] at he
    rcases List.mem_append.mp he with he | he
    · exact not_isWritten_of_mem_compile he
    · exact not_isWritten_of_mem_statistics he
  | error failure =>
    rw [composeText_of_not_compiled hcompile] at he
    exact not_isWritten_of_mem_compile he

end Events

/-! ## A generation -/

section Generation

open Files

variable {tree : Tree} {here : Location} {refusals : Refusals} {t : CodeTable} {policy : Policy}
  {path : String}

/-- A generation that ends well reports the writing last. -/
theorem generate_events_of_ok (h : (generate tree here refusals t policy path).2.outcome = .ok ()) :
    ∃ text, (composeText t policy).outcome = .ok text ∧
      (generate tree here refusals t policy path).2.events =
        (composeText t policy).events ++ [.written text.utf8ByteSize path] := by
  unfold generate at h ⊢
  cases composed : (composeText t policy).outcome with
  | error failure => simp [composed, Run.bind_error composed] at h
  | ok text =>
    refine ⟨text, rfl, ?_⟩
    simp only [composed, Run.bind_ok composed, writeText, reportWritten] at h ⊢
    split at h
    · simp [Run.report]
    · cases h

/-- One that fails reports none. -/
theorem generate_events_of_error {failure : Failure}
    (h : (generate tree here refusals t policy path).2.outcome = .error failure) :
    (generate tree here refusals t policy path).2.events = (composeText t policy).events := by
  unfold generate at h ⊢
  cases composed : (composeText t policy).outcome with
  | error failure => simp [composed, Run.bind_error composed]
  | ok text =>
    simp only [composed, Run.bind_ok composed, writeText, reportWritten] at h ⊢
    split at h
    · cases h
    · simp [Run.silent]

end Generation

/-! ## The log -/

namespace CommandLine

/-- The line of the log that is about an event. -/
def line (e : Event) : Level × String := (e.level, Text.plain (Text.hanging logIndent e.message))

/-- The log has the lines of the events that are no details. -/
theorem mem_log_iff {events : List Event} {l : Level × String} :
    l ∈ log events ↔ ∃ e ∈ events, e.level = .info ∧ line e = l := by
  simp [log, line, and_assoc]

/-- The character that the message of an event begins with. -/
def initial : Event → Char
  | .bandSplit .. => 'п'
  | .pageSplit .. => 'с'
  | .totals .. => 'н'
  | .page .. => ' '
  | .multibyte .. => ' '
  | .range .. => ' '
  | .written .. => 'з'

theorem head?_message (e : Event) : e.message.toList.head? = some (initial e) := by
  cases e <;>
  · unfold Event.message
    simp only [String.toList_append, List.head?_append]
    rfl

/-- The line begins with it too. -/
theorem head?_line (e : Event) : (line e).2.toList.head? = some (initial e) := by
  obtain ⟨rest, message⟩ := List.head?_eq_some_iff.mp (head?_message e)
  have shown : Text.Plain.step .ground (initial e) = (.ground, true) ∧ initial e ≠ '\n' := by
    cases e <;>
    · simp only [initial]
      decide
  simp [line, Text.plain, Text.hanging, message, shown, Text.Plain.scan]

/-- The lines of other events do not begin as those about a file that was written. -/
theorem isWritten_of_line_eq {e : Event} {bytes : Nat} {path : String}
    (h : line e = line (.written bytes path)) : e.IsWritten := by
  have same : initial e = 'з' := by
    have heads := (head?_line e).symm.trans (h ▸ head?_line (.written bytes path))
    exact Option.some.inj heads
  cases e with
  | written bytes path => exact ⟨bytes, path, rfl⟩
  | _ => exact absurd same (by simp only [initial]; decide)

/-- Where no file was written, no line of the log is about one. -/
theorem line_not_mem_log {events : List Event} (h : ∀ e ∈ events, ¬ e.IsWritten) (bytes : Nat)
    (path : String) : line (.written bytes path) ∉ log events := by
  intro hmem
  obtain ⟨e, he, _, hline⟩ := mem_log_iff.mp hmem
  exact h e he (isWritten_of_line_eq hline)

end CommandLine

end Marc8
