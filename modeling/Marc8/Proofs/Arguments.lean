/-
Marc8.Proofs.Arguments — what the command line asks for, told without reading it.

`Asks` lists the forms that arguments may have, each with what it asks for. The
reader goes from left to right and keeps an OUTPUT in mind that it has not
looked at yet; the forms have the whole list before them. Arguments in none of
these forms are a misuse.

  `asks_iff`    — the reader finds the form that the arguments have;
  `Asks.unique` — and there is one at most.
-/
import Marc8.CommandLine

namespace Marc8.CommandLine

open Invocation

/-! ## Forms -/

/-- The argument is an OUTPUT or a command, and no option: it is not a dash with something behind. -/
def Operand (argument : String) : Prop := ∀ rest, argument.toList = '-' :: rest → rest = []

/-- The argument is an option: two dashes and its name, or a dash and its letter. Behind the letter
anything may follow. -/
def Flag (name : String) (letter : Char) (argument : String) : Prop :=
  argument = "--" ++ name ∨ ∃ rest, argument.toList = '-' :: letter :: rest

/-- The forms of the command line. -/
inductive Asks : List String → Invocation → Prop
  | help {flag rest} (isFlag : Flag "help" 'h' flag) : Asks (flag :: rest) (.help .program)
  | version {flag rest} (isFlag : Flag "version" 'V' flag) : Asks (flag :: rest) .version
  | helpCommand : Asks ["help"] (.help .program)
  | helpGenerate : Asks ["help", "generate"] (.help .generate)
  | helpHelp : Asks ["help", "help"] (.help .help)
  | explain {flag rest} (isFlag : Flag "help" 'h' flag) :
      Asks ("generate" :: flag :: rest) (.help .generate)
  /-- Help is asked for behind an OUTPUT, which is not used then. -/
  | explainBehind {output flag rest} (operand : Operand output) (ne : output ≠ "")
      (isFlag : Flag "help" 'h' flag) :
      Asks ("generate" :: output :: flag :: rest) (.help .generate)
  | omitted : Asks ["generate"] (.generate defaultOutput)
  | omittedEnd : Asks ["generate", "--"] (.generate defaultOutput)
  | output {output} (operand : Operand output) (ne : output ≠ "") :
      Asks ["generate", output] (.generate output)
  | outputEnd {output} (operand : Operand output) (ne : output ≠ "") :
      Asks ["generate", output, "--"] (.generate output)
  /-- Behind two dashes an OUTPUT may look like an option. -/
  | behind {output} (ne : output ≠ "") : Asks ["generate", "--", output] (.generate output)

/-! ## Shapes -/

variable {argument name : String} {letter : Char} {arguments rest : List String}
  {invocation : Invocation}

/-- The four shapes of an argument, with what tells them apart. -/
theorem shape_cases (argument : String) :
    (argument.toList = ['-', '-'] ∧ Shape.ofArgument argument = .separator) ∨
      (∃ c rest, argument.toList = '-' :: '-' :: c :: rest ∧
        Shape.ofArgument argument = .long (String.ofList (c :: rest))) ∨
      (∃ letter rest, letter ≠ '-' ∧ argument.toList = '-' :: letter :: rest ∧
        Shape.ofArgument argument = .short letter) ∨
      (Operand argument ∧ Shape.ofArgument argument = .operand) := by
  unfold Shape.ofArgument Operand
  split
  · next h => exact .inl ⟨h, rfl⟩
  · next name noSeparator h =>
    cases name with
    | nil => exact absurd rfl noSeparator
    | cons c rest => exact .inr (.inl ⟨c, rest, h, rfl⟩)
  · next letter rest noSeparator noLong h =>
    exact .inr (.inr (.inl ⟨letter, rest, noLong, h, rfl⟩))
  · next noSeparator noLong noShort =>
    refine .inr (.inr (.inr ⟨fun rest h => ?_, rfl⟩))
    cases rest with
    | nil => rfl
    | cons letter rest => exact absurd h (noShort letter rest)

theorem eq_separator_iff : argument = "--" ↔ argument.toList = ['-', '-'] :=
  ⟨fun h => h ▸ by decide, fun h => String.toList_inj.mp (h.trans (by decide))⟩

theorem shape_eq_separator_iff : Shape.ofArgument argument = .separator ↔ argument = "--" := by
  rw [eq_separator_iff]
  obtain ⟨h, shape⟩ | ⟨c, rest, h, shape⟩ | ⟨letter, rest, ne, h, shape⟩ | ⟨operand, shape⟩ :=
    shape_cases argument
  · simp [h, shape]
  · simp [h, shape]
  · simp [h, shape, ne]
  · have hne : argument.toList ≠ ['-', '-'] := fun h => by simpa using operand _ h
    simp [shape, hne]

theorem shape_eq_operand_iff : Shape.ofArgument argument = .operand ↔ Operand argument := by
  obtain ⟨h, shape⟩ | ⟨c, rest, h, shape⟩ | ⟨letter, rest, ne, h, shape⟩ | ⟨operand, shape⟩ :=
    shape_cases argument
  · simp [Operand, h, shape]
  · simp [Operand, h, shape]
  · simp [Operand, h, shape]
  · simp [operand, shape]

/-- An option with the name or the letter has the shape of one or of the other. -/
theorem flag_iff (hname : name ≠ "") (hletter : letter ≠ '-') : Flag name letter argument ↔
    Shape.ofArgument argument = .long name ∨ Shape.ofArgument argument = .short letter := by
  have long : argument = "--" ++ name ↔ argument.toList = '-' :: '-' :: name.toList := by
    rw [← String.toList_inj, String.toList_append]
    rfl
  have name_ne : name.toList ≠ [] := fun h => hname (String.toList_inj.mp (h.trans (by decide)))
  rw [Flag, long]
  obtain ⟨h, shape⟩ | ⟨c, rest, h, shape⟩ | ⟨other, rest, ne, h, shape⟩ | ⟨operand, shape⟩ :=
    shape_cases argument
  · simp [h, shape, name_ne.symm, hletter.symm]
  · have hrest : c :: rest = name.toList ↔ String.ofList (c :: rest) = name := by
      rw [← String.toList_inj, String.toList_ofList]
    simp [h, shape, hrest, hletter.symm]
  · simp [h, shape, ne]
  · refine iff_of_false (fun h => ?_) (by simp [shape])
    rcases h with h | ⟨rest, h⟩
    · simpa using operand _ h
    · simpa using operand _ h

theorem flag_help_iff : Flag "help" 'h' argument ↔
    Shape.ofArgument argument = .long "help" ∨ Shape.ofArgument argument = .short 'h' :=
  flag_iff (by decide) (by decide)

theorem flag_version_iff : Flag "version" 'V' argument ↔
    Shape.ofArgument argument = .long "version" ∨ Shape.ofArgument argument = .short 'V' :=
  flag_iff (by decide) (by decide)

/-! ## Reading the forms -/

theorem ofArguments_generate (rest : List String) :
    ofArguments ("generate" :: rest) = ofGenerate none rest := by
  have shape : Shape.ofArgument "generate" = .operand := by decide
  simp [ofArguments, shape]

/-- An OUTPUT that is not empty is settled without more. -/
theorem settle_of_ne {output : String} (ne : output ≠ "") (next : Invocation) :
    settle (some output) next = next := by
  simp [settle, ne]

theorem ofGenerate_flag (isFlag : Flag "help" 'h' argument) (pending : Option String) :
    ofGenerate pending (argument :: rest) = settle pending (.help .generate) := by
  rcases flag_help_iff.mp isFlag with shape | shape <;> simp [ofGenerate, shape]

theorem ofGenerate_separator (pending : Option String) :
    ofGenerate pending ("--" :: rest) = ofOperands pending rest := by
  simp [ofGenerate, shape_eq_separator_iff.mpr rfl]

theorem ofGenerate_operand (operand : Operand argument) :
    ofGenerate none (argument :: rest) = ofGenerate (some argument) rest := by
  rw [ofGenerate, shape_eq_operand_iff.mpr operand]

/-- The reader finds what a form asks for. -/
theorem Asks.ofArguments_eq (h : Asks arguments invocation) : ofArguments arguments = invocation := by
  cases h with
  | help isFlag => rcases flag_help_iff.mp isFlag with shape | shape <;> simp [ofArguments, shape]
  | version isFlag =>
    rcases flag_version_iff.mp isFlag with shape | shape <;> simp [ofArguments, shape]
  | helpCommand => decide
  | helpGenerate => decide
  | helpHelp => decide
  | explain isFlag => rw [ofArguments_generate, ofGenerate_flag isFlag]; rfl
  | explainBehind operand ne isFlag =>
    rw [ofArguments_generate, ofGenerate_operand operand, ofGenerate_flag isFlag, settle_of_ne ne]
  | omitted => rw [ofArguments_generate]; rfl
  | omittedEnd => rw [ofArguments_generate, ofGenerate_separator]; rfl
  | output operand ne =>
    rw [ofArguments_generate, ofGenerate_operand operand, ofGenerate, finish, settle_of_ne ne]
    rfl
  | outputEnd operand ne =>
    rw [ofArguments_generate, ofGenerate_operand operand, ofGenerate_separator, ofOperands, finish,
      settle_of_ne ne]
    rfl
  | behind ne =>
    rw [ofArguments_generate, ofGenerate_separator, ofOperands, ofOperands, finish, settle_of_ne ne]
    rfl

/-! ## Finding the form -/

/-- What is settled and is no misuse was not empty. -/
theorem of_settle {output : String} {next : Invocation}
    (h : settle (some output) next = invocation) (ne : invocation ≠ .misuse) :
    output ≠ "" ∧ next = invocation := by
  unfold settle at h
  split at h
  · exact absurd h.symm ne
  · next hne => exact ⟨fun heq => hne (by rw [heq]), h⟩

/-- Behind an OUTPUT there is nothing, or two dashes, or a request for help. -/
theorem asks_of_pending {output : String} (operand : Operand output)
    (h : ofGenerate (some output) rest = invocation) (ne : invocation ≠ .misuse) :
    Asks ("generate" :: output :: rest) invocation := by
  cases rest with
  | nil =>
    obtain ⟨hne, rfl⟩ := of_settle h ne
    exact .output operand hne
  | cons argument rest =>
    unfold ofGenerate at h
    split at h
    · next shape =>
      obtain rfl := shape_eq_separator_iff.mp shape
      cases rest with
      | nil =>
        obtain ⟨hne, rfl⟩ := of_settle h ne
        exact .outputEnd operand hne
      | cons more rest => exact absurd h.symm ne
    · next shape =>
      obtain ⟨hne, rfl⟩ := of_settle h ne
      exact .explainBehind operand hne (flag_help_iff.mpr (.inl shape))
    · next shape =>
      obtain ⟨hne, rfl⟩ := of_settle h ne
      exact .explainBehind operand hne (flag_help_iff.mpr (.inr shape))
    · exact absurd h.symm ne
    · exact absurd h.symm ne
    · exact absurd h.symm ne

/-- What follows the command to generate. -/
theorem asks_of_generate (h : ofGenerate none rest = invocation) (ne : invocation ≠ .misuse) :
    Asks ("generate" :: rest) invocation := by
  cases rest with
  | nil =>
    obtain rfl : .generate defaultOutput = invocation := h
    exact .omitted
  | cons argument rest =>
    unfold ofGenerate at h
    split at h
    · next shape =>
      obtain rfl := shape_eq_separator_iff.mp shape
      match rest with
      | [] =>
        obtain rfl : .generate defaultOutput = invocation := h
        exact .omittedEnd
      | [output] =>
        obtain ⟨hne, rfl⟩ := of_settle h ne
        exact .behind hne
      | output :: more :: rest => exact absurd h.symm ne
    · next shape =>
      obtain rfl : .help .generate = invocation := h
      exact .explain (flag_help_iff.mpr (.inl shape))
    · next shape =>
      obtain rfl : .help .generate = invocation := h
      exact .explain (flag_help_iff.mpr (.inr shape))
    · exact absurd h.symm ne
    · exact absurd h.symm ne
    · next shape => exact asks_of_pending (shape_eq_operand_iff.mp shape) h ne

/-- What follows the command to explain. -/
theorem asks_of_help (h : ofHelp rest = invocation) (ne : invocation ≠ .misuse) :
    Asks ("help" :: rest) invocation := by
  unfold ofHelp at h
  split at h
  · exact h ▸ .helpCommand
  · exact h ▸ .helpGenerate
  · exact h ▸ .helpHelp
  · exact absurd h.symm ne

/-- The reader finds the form that the arguments have; without a form they are a misuse. -/
theorem asks_iff :
    Asks arguments invocation ↔ ofArguments arguments = invocation ∧ invocation ≠ .misuse := by
  constructor
  · intro asks
    refine ⟨asks.ofArguments_eq, ?_⟩
    cases asks <;> exact nofun
  · intro ⟨h, ne⟩
    cases arguments with
    | nil => exact absurd h.symm ne
    | cons argument rest =>
      rw [Invocation.ofArguments] at h
      split at h
      · exact absurd h.symm ne
      · next shape => exact h ▸ .help (flag_help_iff.mpr (.inl shape))
      · next shape => exact h ▸ .version (flag_version_iff.mpr (.inl shape))
      · exact absurd h.symm ne
      · next shape => exact h ▸ .help (flag_help_iff.mpr (.inr shape))
      · next shape => exact h ▸ .version (flag_version_iff.mpr (.inr shape))
      · exact absurd h.symm ne
      · split at h
        · next heq => exact heq ▸ asks_of_generate h ne
        · split at h
          · next heq => exact heq ▸ asks_of_help h ne
          · exact absurd h.symm ne

/-- Arguments have one form at most. -/
theorem Asks.unique {other : Invocation} (h : Asks arguments invocation)
    (h' : Asks arguments other) : invocation = other :=
  h.ofArguments_eq.symm.trans h'.ofArguments_eq

end Marc8.CommandLine
