/-
Marc8.CommandLine — what the command line asks for, and a whole run of it.

    prepare generate [OUTPUT]   write the fragment of the bundled table
    prepare help [COMMAND]      explain the program, or a command
    prepare -h | --help         explain the program
    prepare -V | --version      name the program and its version

Arguments are read from left to right and the first thing that decides ends the
reading: a request for help or for the version, or a misuse. An OUTPUT that has
been read is looked at when the next flag is met or the arguments end, and an
empty one is a misuse. Behind `--` everything is an OUTPUT.

  `Invocation.ofArguments` — what the arguments ask for;
  `run`                    — the run of the program on a tree;
  `log`                    — what the program shows of the events of a run.
-/
import Marc8.Bundled
import Marc8.Generate
import Marc8.Text.Hanging
import Marc8.Text.Plain

namespace Marc8.CommandLine

open Marc8.Files

/-- Where the fragment goes when no OUTPUT is given. -/
def defaultOutput : String := "./../data/codetable.rs.txt"

/-- What help is about. -/
inductive Topic
  | program
  | generate
  | help
  deriving DecidableEq, Repr

/-- What the arguments ask for. -/
inductive Invocation
  | help (topic : Topic)
  | version
  | generate (output : String)
  | misuse
  deriving DecidableEq, Repr

namespace Invocation

/-- The arguments behind `help`: names of commands, each within the one before. -/
def ofHelp : List String → Invocation
  | [] => help .program
  | ["generate"] => help .generate
  | ["help"] => help .help
  | _ => misuse

/-- An OUTPUT that has been read, if any, is settled. -/
def settle (pending : Option String) (next : Invocation) : Invocation :=
  if pending = some "" then misuse else next

/-- The end of the arguments of `generate`. -/
def finish (pending : Option String) : Invocation :=
  settle pending (generate (pending.getD defaultOutput))

/-- The arguments of `generate` behind `--`. -/
def ofOperands (pending : Option String) : List String → Invocation
  | [] => finish pending
  | argument :: rest =>
    match pending with
    | some _ => misuse
    | none => ofOperands (some argument) rest

/-- What an argument looks like. -/
inductive Shape
  /-- Two dashes and nothing else. -/
  | separator
  /-- Two dashes and a name. -/
  | long (name : String)
  /-- One dash and letters, of which the first is kept. -/
  | short (letter : Char)
  /-- Anything else, a lone dash included. -/
  | operand
  deriving DecidableEq, Repr

/-- The shape of an argument. -/
def Shape.ofArgument (argument : String) : Shape :=
  match argument.toList with
  | ['-', '-'] => separator
  | '-' :: '-' :: name => long (String.ofList name)
  | '-' :: letter :: _ => short letter
  | _ => operand

/-- The arguments behind `generate`. -/
def ofGenerate (pending : Option String) : List String → Invocation
  | [] => finish pending
  | argument :: rest =>
    match Shape.ofArgument argument with
    | .separator => ofOperands pending rest
    | .long "help" => settle pending (help .generate)
    | .short 'h' => settle pending (help .generate)
    | .long _ => misuse
    | .short _ => misuse
    | .operand =>
      match pending with
      | some _ => misuse
      | none => ofGenerate (some argument) rest

/-- What the arguments ask for. -/
def ofArguments : List String → Invocation
  | [] => misuse
  | argument :: rest =>
    match Shape.ofArgument argument with
    | .separator => misuse
    | .long "help" => help .program
    | .long "version" => version
    | .long _ => misuse
    | .short 'h' => help .program
    | .short 'V' => version
    | .short _ => misuse
    | .operand =>
      if argument = "generate" then ofGenerate none rest
      else if argument = "help" then ofHelp rest
      else misuse

end Invocation

/-! ## Texts -/

/-- The explanation of a topic. -/
def helpText : Topic → String
  | .program => Text.ofLines [
      "генератор кода таблицы перекодировки MARC-8 -> Unicode",
      "",
      "Usage: prepare <COMMAND>",
      "",
      "Commands:",
      "  generate  сгенерировать таблицу",
      "  help      Print this message or the help of the given subcommand(s)",
      "",
      "Options:",
      "  -h, --help     Print help",
      "  -V, --version  Print version"]
  | .generate => Text.ofLines [
      "сгенерировать таблицу",
      "",
      "Usage: prepare generate [OUTPUT]",
      "",
      "Arguments:",
      "  [OUTPUT]  куда записать сгенерированный код [default: " ++ defaultOutput ++ "]",
      "",
      "Options:",
      "  -h, --help  Print help"]
  | .help => Text.ofLines [
      "Print this message or the help of the given subcommand(s)",
      "",
      "Usage: prepare help [COMMAND]...",
      "",
      "Arguments:",
      "  [COMMAND]...  Print help for the subcommand(s)"]

/-- The name of the program and its version. -/
def versionText : String := "marc8_codetable_prepare 0.1.0\n"

/-! ## A run -/

/-- What a run of the program leaves behind. -/
structure Outcome where
  exitCode : UInt32
  stdout : String
  tree : Tree
  events : List Event
  /-- Why a generation failed. -/
  failure : Option Failure

/-- A generation ends a run: its failure, if it failed, is that of the run. -/
def Outcome.ofGeneration (generated : Tree × Run Unit) : Outcome :=
  match generated.2.outcome with
  | .ok () => ⟨0, "", generated.1, generated.2.events, none⟩
  | .error failure => ⟨1, "", generated.1, generated.2.events, some failure⟩

/-- A run of the program in a working directory of a tree. -/
def run (tree : Tree) (here : Location) (refusals : Refusals) (arguments : List String) :
    Outcome :=
  match Invocation.ofArguments arguments with
  | .misuse => ⟨2, "", tree, [], none⟩
  | .help topic => ⟨0, helpText topic, tree, [], none⟩
  | .version => ⟨0, versionText, tree, [], none⟩
  | .generate output =>
    .ofGeneration (generate tree here refusals Bundled.table .standard output)

/-- How far the log sets in the further lines of a message. -/
def logIndent : Nat := 4

/-- What the log shows: the events that are not details. A path in a message may hold line feeds and
control sequences; further lines are set in first, then the control sequences are taken out. -/
def log (events : List Event) : List (Level × String) :=
  (events.filter (·.level = .info)).map fun e =>
    (e.level, Text.plain (Text.hanging logIndent e.message))

end Marc8.CommandLine
