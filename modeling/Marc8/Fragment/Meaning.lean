/-
Marc8.Fragment.Meaning — what a fragment computes.

A call names a routine; the first routine of that name answers, with its
parameters set to the numbers of the call. Statements are carried out in order,
arms are tried from the top, the array is searched by halving. There is no
meaning where a name is not defined, where the number of operands is wrong,
where a search has no array or one without its declared length, and where calls
lead in a circle: a chain of calls that enters no routine twice is no longer
than the fragment, and a longer chain is given up.

  `Fragment.call?`        — the answer of a routine;
  `Fragment.decode?`      — the routine `decode`;
  `Fragment.lookup?`      — the routine `lookup`, the search without retry;
  `Fragment.isCombining?` — the routine `is_combining`.
-/
import Marc8.Block
import Marc8.Fragment.Basic

namespace Marc8.Fragment

/-- What a routine answers. -/
inductive Value
  | bool (b : Bool)
  | lookup (answer : Lookup)
  deriving DecidableEq, Repr

/-- The answer as a yes or no. -/
def Value.bool? : Value → Option Bool
  | bool b => some b
  | lookup _ => none

/-- The answer as that of a search. -/
def Value.lookup? : Value → Option Lookup
  | bool _ => none
  | lookup answer => some answer

/-- The values of variables, the innermost first. -/
abbrev Scope := List (String × UInt32)

/-- How calls are answered. -/
abbrev Caller := String → List UInt32 → Option Value

/-- The array of a routine: its declared length and its rows. -/
abbrev Table := Nat × List Entry

def Operand.eval (scope : Scope) : Operand → Option UInt32
  | var name => scope.lookup name
  | flip name bits => (scope.lookup name).map (· ^^^ bits)

/-- The values of all operands. -/
def operandValues (scope : Scope) : List Operand → Option (List UInt32)
  | [] => some []
  | operand :: rest => do
    let value ← operand.eval scope
    let values ← operandValues scope rest
    return value :: values

def Call.eval (caller : Caller) (scope : Scope) (c : Call) : Option Value := do
  caller c.callee (← operandValues scope c.operands)

def Test.eval (scope : Scope) : Test → Option Bool
  | upTo name bound => (scope.lookup name).map (· ≤ bound)
  | equal name value => (scope.lookup name).map (· = value)
  | within span name => (scope.lookup name).map span.contains

def Atom.eval (caller : Caller) (scope : Scope) : Atom → Option Value
  | never => some (.bool false)
  | oneOf name value others =>
    (scope.lookup name).map fun found => .bool ((value :: others).contains found)
  | unmapped => some (.lookup .unmapped)
  | unknownCharset => some (.lookup .unknownCharset)
  | found c => some (.lookup (.char c))
  | blank => some (.lookup (.char ' '))
  | call c => c.eval caller scope

def Tail.eval (caller : Caller) (scope : Scope) (table : Option Table) : Tail → Option Value
  | atom answer => answer.eval caller scope
  | choice name arms other => do
    let value ← scope.lookup name
    match arms.find? (·.1 = value) with
    | some arm => arm.2.eval caller scope
    | none => other.eval caller scope
  | orElse first second => do
    match ← (← first.eval caller scope).lookup? with
    | .unmapped => second.eval caller scope
    | answer => some (.lookup answer)
  | search name => do
    let value ← scope.lookup name
    let (length, rows) ← table
    if rows.length = length then some (.lookup (searchEntries rows.toArray value)) else none

/-- Carry out statements, and answer with the last expression unless one of them answers. -/
def carryOut (caller : Caller) (tail : Tail) : Scope → Option Table → List Stmt → Option Value
  | scope, table, [] => tail.eval caller scope table
  | scope, table, .pick name test yes no :: rest => do
    let chosen ← scope.lookup (if ← test.eval scope then yes else no)
    carryOut caller tail ((name, chosen) :: scope) table rest
  | scope, table, .returnIf test answer :: rest => do
    if ← test.eval scope then answer.eval caller scope
    else carryOut caller tail scope table rest
  | scope, _, .entries length rows :: rest =>
    carryOut caller tail scope (some (length, rows)) rest

/-- What a routine answers to some numbers. -/
def Routine.eval (caller : Caller) (r : Routine) (arguments : List UInt32) : Option Value :=
  if r.parameters.length = arguments.length then
    carryOut caller r.tail (r.parameters.zip arguments) none r.statements
  else none

/-- The first routine of a name. -/
def routine? (f : Fragment) (name : String) : Option Routine :=
  f.routines.find? (·.name = name)

/-- The answer of a call, with at most `depth` calls in a chain. -/
def call? (f : Fragment) : Nat → Caller
  | 0, _, _ => none
  | depth + 1, name, arguments => do (← f.routine? name).eval (f.call? depth) arguments

/-- The answer of a routine that is called from outside. -/
def answer? (f : Fragment) (name : String) (arguments : List UInt32) : Option Value :=
  f.call? f.routines.length name arguments

/-- The character of a code, as the fragment finds it. -/
def decode? (f : Fragment) (code : Code) (mode : Selector) : Option Lookup :=
  (f.answer? "decode" [code, mode]).bind Value.lookup?

/-- What the charset `mode` says about a code, without retry. -/
def lookup? (f : Fragment) (code : Code) (mode : Selector) : Option Lookup :=
  (f.answer? "lookup" [code, mode]).bind Value.lookup?

/-- Does the code combine, as the fragment says? -/
def isCombining? (f : Fragment) (code : Code) (g0 g1 : Selector) : Option Bool :=
  (f.answer? "is_combining" [code, g0, g1]).bind Value.bool?

end Marc8.Fragment
