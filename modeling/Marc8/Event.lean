/-
Marc8.Event — what a generation reports while it runs.

An event is what happened, with its numbers; `Event.message` is its wording and
`Event.level` tells the statistics of the result from the details of the way.
-/
import Marc8.Span

namespace Marc8

open Marc8.Text

/-- How important an event is. -/
inductive Level
  | debug
  | info
  deriving DecidableEq, Repr

/-- The word for a level. -/
def Level.text : Level → String
  | debug => "DEBUG"
  | info => "INFO"

/-- What a generation reports. -/
inductive Event
  /-- A band held more entries than one block takes. -/
  | bandSplit (band : Span) (entries blocks : Nat)
  /-- A charset held more entries than one block takes. -/
  | pageSplit (entries blocks : Nat)
  /-- The size of the compiled table. -/
  | totals (charsets combining entries : Nat)
  /-- The size of a charset. -/
  | page (selector : Selector) (entries blocks : Nat)
  /-- The number of ranges of the multi-byte charset, and the routine that chooses among them. -/
  | multibyte (selector : Selector) (ranges : Nat) (router : String)
  /-- The size of one range of the multi-byte charset. -/
  | range (span : Span) (entries : Nat)
  /-- The result was written. -/
  | written (bytes : Nat) (path : String)
  deriving DecidableEq, Repr

namespace Event

/-- Splits are details; the rest is the result. -/
def level : Event → Level
  | bandSplit .. => .debug
  | pageSplit .. => .debug
  | _ => .info

/-- The wording of an event. -/
def message : Event → String
  | bandSplit band entries blocks =>
    s!"полоса {band.text} ({entries} записей) разделена на {blocks} диапазонов"
  | pageSplit entries blocks => s!"страница ({entries} записей) разделена на {blocks} блоков"
  | totals charsets combining entries =>
    s!"наборов символов: {charsets}, наборов комбинируемых символов: {combining}, " ++
      s!"записей: {entries}"
  | page selector entries blocks =>
    s!"  {Hex.literal selector}: {entries} записей, {blocks} блоков"
  | multibyte selector ranges router =>
    s!"  {Hex.literal selector}: многобайтовая страница, {ranges} диапазонов ({router})"
  | range span entries => s!"    {span.text}: {entries} записей"
  | written bytes path => s!"записано {bytes} байт: {path}"

/-- The event as a line of a log. -/
def line (e : Event) : String := e.level.text ++ " " ++ e.message

end Event

end Marc8
