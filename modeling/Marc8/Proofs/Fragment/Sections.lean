/-
Marc8.Proofs.Fragment.Sections — the parts of the fragment of a compiled table.

Behind its first three routines the fragment has a *section* for each charset.
A section consists of *units* and a *route*: a unit looks a code up among
entries of its own, and the route sends a code to the first unit whose span holds
it. A charset whose only block stands for all of it has one unit and no route.

Whether a routine is a unit or a route is seen from the routine itself, and so
are the entries of the one (`Routine.entries?`) and the spans and callees of the
other (`Routine.route?`):

  `entries?_eq_some_iff`, `route?_eq_some_iff` — each determines what the routine
                              does, up to the form in which a unit is written;
  `section_charsetRoutines` — the routines of a charset are its section.

So what holds of every section need not be shown of one form, or of one kind of
charset, after the other.
-/
import Marc8.Proofs.Fragment.Naming
import Marc8.Proofs.Lists

namespace Marc8

namespace Fragment

/-! ## Units -/

/-- What a unit says about a listed code. -/
def Atom.value? : Atom → Option (Option Char)
  | found c => some (some c)
  | unmapped => some none
  | never | oneOf .. | unknownCharset | blank | call _ => none

/-- The entries among which a routine looks a code up, if it does just that: by an arm for each of
them, or in an array of the declared length. -/
def Routine.entries? (r : Routine) : Option (List Entry) :=
  match r.statements, r.tail with
  | [], .choice _ arms .unmapped => arms.mapM fun arm => arm.2.value?.map (arm.1, ·)
  | [.entries length rows], .search _ => if length = rows.length then some rows else none
  | _, _ => none

theorem Atom.value?_eq_some_iff {a : Atom} {value : Option Char} :
    a.value? = some value ↔ a = listed value := by
  cases a <;> cases value <;> simp [Atom.value?, listed]

theorem arm_value?_eq_some_iff (arm : UInt32 × Atom) (e : Entry) :
    (arm.2.value?.map (arm.1, ·)) = some e ↔ arm = (e.1, listed e.2) := by
  obtain ⟨n, a⟩ := arm
  obtain ⟨code, value⟩ := e
  simp only [Option.map_eq_some_iff, Atom.value?_eq_some_iff, Prod.mk.injEq]
  constructor
  · rintro ⟨_, ha, rfl, rfl⟩
    exact ⟨rfl, ha⟩
  · rintro ⟨rfl, ha⟩
    exact ⟨value, ha, rfl, rfl⟩

/-- A routine that looks a code up among entries has one of two forms. -/
theorem Routine.entries?_eq_some_iff {r : Routine} {entries : List Entry} :
    r.entries? = some entries ↔
      (r.statements = [] ∧
        ∃ x, r.tail = .choice x (entries.map fun e => (e.1, listed e.2)) .unmapped) ∨
      (r.statements = [.entries entries.length entries] ∧ ∃ x, r.tail = .search x) := by
  unfold entries?
  split
  · next x arms hstatements htail =>
    rw [mapM_eq_some_iff_eq_map arm_value?_eq_some_iff, hstatements, htail]
    simp
  · next length rows x hstatements htail =>
    rw [hstatements, htail]
    simp only [Option.ite_none_right_eq_some, Option.some.injEq, reduceCtorEq, exists_false,
      and_false, List.cons.injEq, Stmt.entries.injEq, and_true, false_or, Tail.search.injEq,
      exists_eq']
    constructor
    · rintro ⟨rfl, rfl⟩
      exact ⟨rfl, rfl⟩
    · rintro ⟨rfl, rfl⟩
      exact ⟨rfl, rfl⟩
  · next hchoice hsearch =>
    simp only [reduceCtorEq, false_iff]
    rintro (⟨hstatements, x, htail⟩ | ⟨hstatements, x, htail⟩)
    · exact hchoice _ _ hstatements htail
    · exact hsearch _ _ _ hstatements htail

/-- A routine of this name that looks its argument up among these entries. -/
structure Routine.IsUnit (r : Routine) (name : String) (entries : List Entry) : Prop where
  name : r.name = name
  inner : r.exported = false
  parameters : r.parameters.length = 1
  result : r.result = .lookup
  entries : r.entries? = some entries

theorem isUnit_entriesRoutine (form : BlockForm) (comment : Option String) (name : String)
    (entries : List Entry) : (entriesRoutine form comment name entries).IsUnit name entries := by
  refine ⟨rfl, rfl, rfl, rfl, Routine.entries?_eq_some_iff.mpr ?_⟩
  cases form with
  | matchTree => exact .inl ⟨rfl, _, rfl⟩
  | sortedArray => exact .inr ⟨rfl, _, rfl⟩

/-! ## Routes -/

/-- The span for which a statement hands the code on, and to which routine. -/
def Stmt.target? : Stmt → Option (Span × String)
  | returnIf (.within span x) (.call c) =>
    if x = "code" ∧ c.operands = [.var "code"] then some (span, c.callee) else none
  | _ => none

/-- The spans for which a routine hands the code on, each with the routine to which it does so, if
it does just that. -/
def Routine.route? (r : Routine) : Option (List (Span × String)) :=
  match r.tail with
  | .atom .unmapped => r.statements.mapM Stmt.target?
  | _ => none

/-- The statement that hands a code on. -/
def Stmt.handOn (target : Span × String) : Stmt :=
  .returnIf (.within target.1 "code") (.call ⟨target.2, [.var "code"]⟩)

theorem Stmt.target?_eq_some_iff (stmt : Stmt) (target : Span × String) :
    stmt.target? = some target ↔ stmt = handOn target := by
  unfold target?
  split
  · next span x c =>
    obtain ⟨callee, operands⟩ := c
    obtain ⟨span', callee'⟩ := target
    simp only [Option.ite_none_right_eq_some, Option.some.injEq, Prod.mk.injEq, handOn,
      Stmt.returnIf.injEq, Test.within.injEq, Atom.call.injEq, Call.mk.injEq]
    tauto
  · next hother =>
    simp only [reduceCtorEq, false_iff]
    rintro rfl
    exact hother _ _ _ rfl

/-- A routine that hands a code on says so span by span, and ends with the answer for none. -/
theorem Routine.route?_eq_some_iff {r : Routine} {targets : List (Span × String)} :
    r.route? = some targets ↔
      r.tail = .atom .unmapped ∧ r.statements = targets.map Stmt.handOn := by
  unfold route?
  split
  · next htail => simp [htail, mapM_eq_some_iff_eq_map Stmt.target?_eq_some_iff]
  · next hother =>
    simp only [reduceCtorEq, false_iff]
    exact fun h => hother h.1

/-- A routine of this name that hands its argument on to these others. -/
structure Routine.IsRoute (r : Routine) (name : String) (targets : List (Span × String)) :
    Prop where
  name : r.name = name
  inner : r.exported = false
  parameters : r.parameters.length = 1
  result : r.result = .lookup
  targets : r.route? = some targets

theorem isRoute_routeRoutine (name : String) (blockName : Span → String) (spans : List Span) :
    (routeRoutine name blockName spans).IsRoute name
      (spans.map fun span => (span, blockName span)) := by
  refine ⟨rfl, rfl, ?_, rfl, Routine.route?_eq_some_iff.mpr ⟨rfl, ?_⟩⟩
  · cases spans <;> rfl
  · rw [List.map_map]
    rfl

/-- No route is a unit. -/
theorem Routine.IsRoute.entries?_eq_none {r : Routine} {name : String}
    {targets : List (Span × String)} (h : r.IsRoute name targets) : r.entries? = none := by
  have htail := (route?_eq_some_iff.mp h.targets).1
  rw [Option.eq_none_iff_forall_ne_some]
  intro entries hentries
  rcases entries?_eq_some_iff.mp hentries with ⟨_, x, hunit⟩ | ⟨_, x, hunit⟩
  · rw [htail] at hunit
    cases hunit
  · rw [htail] at hunit
    cases hunit

/-! ## Sections -/

/-- The routines to which the route of a charset hands codes on. -/
def targets (charset : Charset) : List (Span × String) :=
  charset.layout.blocks.map fun block => (block.span, blockName charset block.span)

/-- The routines of a charset, in their order: the unit of its only block, which takes the name of
the charset; or a unit for each block, with the ends of the block in its name, and the route. -/
inductive Section (charset : Charset) : List Routine → Prop
  | whole {block unit} (only : charset.layout = .page [block])
      (isUnit : unit.IsUnit (charsetName charset) block.entries.toList) : Section charset [unit]
  | routed {units route} (several : ∀ block, charset.layout ≠ .page [block])
      (areUnits : List.Forall₂ (fun block (unit : Routine) =>
        unit.IsUnit (blockName charset block.span) block.entries.toList)
        charset.layout.blocks units)
      (isRoute : route.IsRoute (charsetName charset) (targets charset)) :
      Section charset (units ++ [route])

/-- The routines that are made for a charset are its section. -/
theorem section_charsetRoutines (form : BlockForm) (charset : Charset) :
    Section charset (charsetRoutines form charset) := by
  obtain ⟨label, _, ⟨block, only, heq⟩ | ⟨several, heq⟩⟩ := charsetRoutines_cases form charset
  · rw [heq]
    exact .whole only (isUnit_entriesRoutine ..)
  · rw [heq]
    refine .routed several ?_ ?_
    · rw [List.forall₂_map_right_iff, List.forall₂_same]
      exact fun block _ => isUnit_entriesRoutine ..
    · have hroute := isRoute_routeRoutine (charsetName charset) (blockName charset)
        (charset.layout.blocks.map (·.span))
      rwa [List.map_map] at hroute

variable {charset : Charset} {routines : List Routine}

/-- Each routine of a section is the unit of some block, or the route. -/
theorem Section.unit_or_route (h : Section charset routines) {r : Routine} (hr : r ∈ routines) :
    (∃ block ∈ charset.layout.blocks, ∃ name, r.IsUnit name block.entries.toList) ∨
      r.IsRoute (charsetName charset) (targets charset) := by
  cases h with
  | @whole block unit only isUnit =>
    obtain rfl := List.mem_singleton.mp hr
    exact .inl ⟨block, by simp [only, Layout.blocks], _, isUnit⟩
  | routed several areUnits isRoute =>
    rcases List.mem_append.mp hr with hr | hr
    · obtain ⟨block, hblock, isUnit⟩ := exists_left_of_forall₂ areUnits hr
      exact .inl ⟨block, hblock, _, isUnit⟩
    · obtain rfl := List.mem_singleton.mp hr
      exact .inr isRoute

/-- A section can be entered under the name of its charset. -/
theorem Section.exists_entrance (h : Section charset routines) :
    ∃ r ∈ routines, r.name = charsetName charset ∧ r.parameters.length = 1 := by
  cases h with
  | whole only isUnit => exact ⟨_, by simp, isUnit.name, isUnit.parameters⟩
  | routed several areUnits isRoute => exact ⟨_, by simp, isRoute.name, isRoute.parameters⟩

end Fragment

end Marc8
