/-
Marc8.Failure — why nothing is generated.

Each failure is a cause with the codes or spans concerned; `Failure.message`
is the one place with their wording.
-/
import Marc8.Files.Fault
import Marc8.Span

namespace Marc8

open Marc8.Text

/-- Why nothing is generated. -/
inductive Failure
  /-- A code of the multi-byte charset lies in no block. -/
  | uncovered (code : Code)
  /-- A code lies in several blocks. -/
  | contested (code : Code)
  /-- Two neighbouring bands overlap or stand in the wrong order. -/
  | bandOrder (first second : Span)
  /-- A band whose ends are the wrong way round. -/
  | emptyBand (band : Span)
  /-- A block would have to end below code zero. -/
  | nothingBelowZero
  /-- The result cannot be written. -/
  | output (path : String) (cause : Files.Fault)
  deriving DecidableEq, Repr

namespace Failure

/-- The wording of a failure. -/
def message : Failure → String
  | uncovered code =>
    "код " ++ Hex.literal code ++ " многобайтовой страницы не попал ни в один диапазон"
  | contested code =>
    "код " ++ Hex.literal code ++ " многобайтовой страницы попал в несколько диапазонов"
  | bandOrder first second =>
    "диапазоны " ++ first.text ++ " и " ++ second.text ++
      " пересекаются или идут не по возрастанию"
  | emptyBand band => "пустой диапазон " ++ band.text
  | nothingBelowZero => "нет кода перед 0x0"
  | output path cause => "не удалось записать " ++ path ++ ": " ++ cause.text

/-- The wording of the cause behind a failure, if there is one. -/
def causeText : Failure → Option String
  | output _ cause => some cause.text
  | _ => none

end Failure

end Marc8
