/-
Marc8.Proofs.Files.Interleaving — writers that share a tree.

A company is a tree with writers on it, whose moves are interleaved in any way.
A writer may be refused at any step, and one that is not moved any more has been
killed. `Company.Inv` is what every move keeps (`Inv.act`), and so what holds in
every state that can be reached (`Reachable.inv`):

  - a temporary file belongs to one writer, is no target, and stands where
    nothing stood in the beginning;
  - everywhere else stands what `lastRenamed` tells from the order of the renames.

A writer renames its temporary file only when all of its content is in there.
So whoever looks at a target finds either what stood there in the beginning or
all that some writer had to write (`target_shows_last_rename`).
-/
import Marc8.Proofs.Files.Moving
import Mathlib.Logic.Function.Basic

namespace Marc8.Files

/-- Has the writer renamed its file? -/
def Stage.isCommitted : Stage → Bool
  | .committed => true
  | _ => false

theorem Stage.isCommitted_iff {stage : Stage} :
    stage.isCommitted = true ↔ stage = .committed := by
  cases stage <;> simp [isCommitted]

/-- Writers on a tree. -/
structure Company (ι : Type) where
  tree : Tree
  writers : ι → Writer
  /-- Who has renamed a file, the latest in front. -/
  renamed : List ι

namespace Company

variable {ι : Type}

/-- The company before the first move. -/
def gather (tree : Tree) (writers : ι → Writer) : Company ι where
  tree
  writers i := (writers i).withStage .waiting
  renamed := []

/-- A name for a temporary file is admitted when the file is not in the way of anybody's target. -/
def Admits (c : Company ι) (i : ι) : Move → Prop
  | .create name => ∀ temporary,
      c.tree.beside (c.writers i).here (c.writers i).target name = .ok temporary →
        ∀ j, ¬ (c.writers j).Targets c.tree temporary
  | _ => True

/-! ## What the order of the renames tells -/

section LastRenamed

variable {tree : Tree} {writers : ι → Writer} {place : Location} {renamed : List ι}

/-- What stands at a place behind some renames, the latest in front. -/
def lastRenamed (tree : Tree) (writers : ι → Writer) (place : Location) : List ι → Option Node
  | [] => tree.node? place
  | i :: earlier =>
    if (writers i).Targets tree place then some (.file (writers i).content)
    else lastRenamed tree writers place earlier

/-- A place without a rename to it keeps what stood there. -/
theorem lastRenamed_of_forall_not (h : ∀ i ∈ renamed, ¬ (writers i).Targets tree place) :
    lastRenamed tree writers place renamed = tree.node? place := by
  induction renamed with
  | nil => rfl
  | cons i earlier ih =>
    rw [List.forall_mem_cons] at h
    rw [lastRenamed, if_neg h.1, ih h.2]

/-- At any other place stands the content of the last writer that renamed its file to it. -/
theorem lastRenamed_of_exists (h : ∃ i ∈ renamed, (writers i).Targets tree place) :
    ∃ i later earlier, renamed = later ++ i :: earlier ∧ (writers i).Targets tree place ∧
      (∀ j ∈ later, ¬ (writers j).Targets tree place) ∧
      lastRenamed tree writers place renamed = some (.file (writers i).content) := by
  induction renamed with
  | nil => simp at h
  | cons i earlier ih =>
    by_cases target : (writers i).Targets tree place
    · exact ⟨i, [], earlier, rfl, target, by simp, by rw [lastRenamed, if_pos target]⟩
    · obtain ⟨j, later, rest, rfl, target', apart, eq⟩ := ih (by simpa [target] using h)
      refine ⟨j, i :: later, rest, rfl, target', ?_, ?_⟩
      · exact List.forall_mem_cons.mpr ⟨target, apart⟩
      · rw [lastRenamed, if_neg target, eq]

end LastRenamed

/-! ## The invariant -/

/-- What holds in a company that was gathered on a tree, whatever its writers have done. -/
structure Inv (tree : Tree) (writers : ι → Writer) (c : Company ι) : Prop where
  /-- Of a writer only the stage has changed. -/
  same : ∀ i, c.writers i = (writers i).withStage (c.writers i).stage
  /-- No directory has been made or removed. -/
  directories : Tree.SameDirectories tree c.tree
  /-- The temporary files hold what their writers put into them. -/
  backed : ∀ i, (c.writers i).Backed c.tree
  /-- A temporary file has one writer. -/
  alone : ∀ {i j place bytes bytes'}, (c.writers i).held? = some (place, bytes) →
    (c.writers j).held? = some (place, bytes') → i = j
  /-- A temporary file is in nobody's way. -/
  aside : ∀ {i place bytes}, (c.writers i).held? = some (place, bytes) →
    tree.node? place = none ∧ ∀ j, ¬ (writers j).Targets tree place
  /-- Who has renamed a file is done. -/
  ended : ∀ i, i ∈ c.renamed ↔ (c.writers i).stage = .committed
  /-- Where no temporary file stands, the order of the renames tells what stands there. -/
  shown : ∀ place, (∀ i bytes, (c.writers i).held? ≠ some (place, bytes)) →
    c.tree.node? place = lastRenamed tree writers place c.renamed

/-- Before the first move nothing has happened. -/
theorem inv_gather (tree : Tree) (writers : ι → Writer) :
    Inv tree writers (gather tree writers) where
  same _ := rfl
  directories := .refl tree
  backed _ := by simp [Writer.Backed, gather, Writer.held?, Writer.withStage]
  alone held := by simp [gather, Writer.held?, Writer.withStage] at held
  aside held := by simp [gather, Writer.held?, Writer.withStage] at held
  ended _ := by simp [gather, Writer.withStage]
  shown _ _ := rfl

/-- The targets are where they were. -/
theorem Inv.targets {tree : Tree} {writers : ι → Writer} {c : Company ι}
    (inv : Inv tree writers c) (i : ι) {place : Location} :
    (c.writers i).Targets c.tree place ↔ (writers i).Targets tree place := by
  rw [inv.same i]
  exact inv.directories.replaceTarget.symm

/-- Whether a name for a temporary file is admitted was told in the beginning. -/
theorem Inv.admits_create {tree : Tree} {writers : ι → Writer} {c : Company ι}
    (inv : Inv tree writers c) {i : ι} {name : String}
    (apart : ∀ temporary, tree.beside (writers i).here (writers i).target name = .ok temporary →
      ∀ j, ¬ (writers j).Targets tree temporary) : c.Admits i (.create name) := by
  intro temporary beside j
  rw [inv.targets j]
  rw [inv.same i] at beside
  exact apart temporary (inv.directories.beside.mpr beside) j

/-! ## Moves -/

/-- Does the move rename the file of its writer? -/
def renames (c : Company ι) (i : ι) (m : Move) : Bool :=
  ((c.writers i).move c.tree m).2.stage.isCommitted && !(c.writers i).stage.isCommitted

variable [DecidableEq ι]

/-- One writer makes one move. -/
def act (c : Company ι) (i : ι) (m : Move) : Company ι where
  tree := ((c.writers i).move c.tree m).1
  writers := Function.update c.writers i ((c.writers i).move c.tree m).2
  renamed := if c.renames i m then i :: c.renamed else c.renamed

/-- The states that are reached from a company when its writers are moved in any order. -/
inductive Reachable (start : Company ι) : Company ι → Prop
  | start : Reachable start start
  | act {c i m} (reached : Reachable start c) (admits : c.Admits i m) : Reachable start (c.act i m)

section Act

variable {tree : Tree} {writers : ι → Writer} {c : Company ι} {i j : ι} {m : Move}

theorem moved_act (c : Company ι) (i : ι) (m : Move) :
    (c.writers i).Moved c.tree m (c.act i m).tree ((c.act i m).writers i) := by
  simpa [act] using Writer.moved_move (c.writers i) c.tree m

/-- The other writers stay as they are. -/
theorem writers_act_of_ne (ne : j ≠ i) : (c.act i m).writers j = c.writers j :=
  Function.update_of_ne ne _ _

theorem renames_iff : c.renames i m = true ↔
    ((c.act i m).writers i).stage = .committed ∧ (c.writers i).stage ≠ .committed := by
  simp [renames, act, ← Stage.isCommitted_iff]

theorem mem_renamed_act :
    j ∈ (c.act i m).renamed ↔ j ∈ c.renamed ∨ j = i ∧ c.renames i m = true := by
  by_cases h : c.renames i m = true
  · simp [act, h, or_comm]
  · simp [act, h]

namespace Inv

variable (inv : Inv tree writers c)

include inv

theorem ended_act (j : ι) :
    j ∈ (c.act i m).renamed ↔ ((c.act i m).writers j).stage = .committed := by
  rw [mem_renamed_act, inv.ended j, renames_iff]
  by_cases ne : j = i
  · subst ne
    constructor
    · rintro (before | ⟨-, after, -⟩)
      · exact (moved_act c j m).committed before
      · exact after
    · intro after
      by_cases before : (c.writers j).stage = .committed
      · exact .inl before
      · exact .inr ⟨rfl, after, before⟩
  · simp [ne, writers_act_of_ne ne]

theorem shown_act (place : Location)
    (unheld : ∀ j bytes, ((c.act i m).writers j).held? ≠ some (place, bytes)) :
    (c.act i m).tree.node? place = lastRenamed tree writers place (c.act i m).renamed := by
  have moved := moved_act c i m
  by_cases taken : c.renames i m = true ∧ (writers i).Targets tree place
  · obtain ⟨renames, target⟩ := taken
    obtain ⟨after, before⟩ := renames_iff.mp renames
    rw [moved.node?_of_renamed (inv.backed i) after before ((inv.targets i).mpr target), inv.same i]
    simp [Company.act, renames, lastRenamed, target, Writer.withStage]
  · -- the move renames nothing to this place
    have same : lastRenamed tree writers place (c.act i m).renamed =
        lastRenamed tree writers place c.renamed := by
      by_cases renames : c.renames i m = true
      · have apart : ¬ (writers i).Targets tree place := fun target => taken ⟨renames, target⟩
        simp [Company.act, renames, lastRenamed, apart]
      · simp [Company.act, renames]
    rw [same]
    by_cases before : ∃ bytes, (c.writers i).held? = some (place, bytes)
    · -- the temporary file stood there, and is let go
      obtain ⟨bytes, held⟩ := before
      obtain ⟨free, apart⟩ := inv.aside held
      rw [moved.node?_of_released (inv.backed i) held (unheld i) (mt (inv.targets i).mp (apart i)),
        lastRenamed_of_forall_not fun j _ => apart j, free]
    · rw [not_exists] at before
      rw [moved.node?_of_apart (inv.backed i) before (unheld i)]
      · refine inv.shown place fun j bytes held => ?_
        by_cases ne : j = i
        · exact before bytes (ne ▸ held)
        · exact unheld j bytes (by rwa [writers_act_of_ne ne])
      · exact fun after first target =>
          taken ⟨renames_iff.mpr ⟨after, first⟩, (inv.targets i).mp target⟩

variable (admits : c.Admits i m)

include admits

/-- A temporary file behind a move was its writer's before the move, or is a new file that is in
nobody's way. -/
theorem held_act {place : Location} {bytes : ByteArray}
    (held : ((c.act i m).writers j).held? = some (place, bytes)) :
    (∃ before, (c.writers j).held? = some (place, before)) ∨
      j = i ∧ c.tree.node? place = none ∧ ∀ k, ¬ (writers k).Targets tree place := by
  by_cases ne : j = i
  · subst ne
    obtain before | ⟨free, name, rfl, beside⟩ := (moved_act c j m).held_or_created held
    · exact .inl before
    · exact .inr ⟨rfl, free, fun k => mt (inv.targets k).mpr (admits place beside k)⟩
  · rw [writers_act_of_ne ne] at held
    exact .inl ⟨bytes, held⟩

theorem alone_act {k : ι} {place : Location} {bytes bytes' : ByteArray}
    (hj : ((c.act i m).writers j).held? = some (place, bytes))
    (hk : ((c.act i m).writers k).held? = some (place, bytes')) : j = k := by
  obtain ⟨_, beforej⟩ | ⟨rfl, freej, -⟩ := inv.held_act admits hj <;>
    obtain ⟨_, beforek⟩ | ⟨rfl, freek, -⟩ := inv.held_act admits hk
  · exact inv.alone beforej beforek
  · simp [inv.backed j beforej] at freek
  · simp [inv.backed k beforek] at freej
  · rfl

theorem aside_act {place : Location} {bytes : ByteArray}
    (held : ((c.act i m).writers j).held? = some (place, bytes)) :
    tree.node? place = none ∧ ∀ k, ¬ (writers k).Targets tree place := by
  obtain ⟨_, before⟩ | ⟨rfl, free, apart⟩ := inv.held_act admits held
  · exact inv.aside before
  · refine ⟨?_, apart⟩
    have unheld : ∀ k bytes, (c.writers k).held? ≠ some (place, bytes) := by
      intro k bytes hk
      simp [inv.backed k hk] at free
    rw [← free, inv.shown place unheld, lastRenamed_of_forall_not fun k _ => apart k]

theorem backed_act (j : ι) : ((c.act i m).writers j).Backed (c.act i m).tree := by
  by_cases ne : j = i
  · subst ne
    exact (moved_act c j m).backed (inv.backed j)
  · intro place bytes held
    rw [writers_act_of_ne ne] at held
    have stands := inv.backed j held
    -- the file of another writer is not touched by the move
    rw [(moved_act c i m).node?_of_apart (inv.backed i), stands]
    · exact fun bytes' held' => ne (inv.alone held held')
    · intro bytes' held'
      obtain ⟨_, before⟩ | ⟨-, free, -⟩ := inv.held_act admits held'
      · exact ne (inv.alone held before)
      · simp [stands] at free
    · exact fun _ _ => mt (inv.targets i).mp ((inv.aside held).2 i)

/-- **A move of any writer keeps the invariant.** -/
theorem act : Inv tree writers (c.act i m) where
  same j := by
    by_cases ne : j = i
    · subst ne
      rw [(moved_act c j m).eq_withStage, inv.same j]
      rfl
    · rw [writers_act_of_ne ne]
      exact inv.same j
  directories := inv.directories.trans ((moved_act c i m).sameDirectories (inv.backed i))
  backed := inv.backed_act admits
  alone := inv.alone_act admits
  aside := inv.aside_act admits
  ended := inv.ended_act
  shown := inv.shown_act

end Inv

end Act

/-- **Whatever the writers do, and in whatever order, the invariant holds.** -/
theorem Reachable.inv {tree : Tree} {writers : ι → Writer} {c : Company ι}
    (reached : Reachable (gather tree writers) c) : Inv tree writers c := by
  induction reached with
  | start => exact inv_gather tree writers
  | act _ admits ih => exact ih.act admits

end Company

/-! ## What a reader sees -/

section Reader

variable {ι : Type} [DecidableEq ι]

/-- **No reader ever sees a part of an artifact.** However many writers there are, whatever they
write and wherever, in whatever order they are moved, refused and killed: the path of a writer
leads to the same place all the time. What stands there is what stood there in the beginning, as
long as nobody has renamed a file to it, and then all that the last one to do so had to write. -/
theorem target_shows_last_rename {tree : Tree} {writers : ι → Writer} {c : Company ι}
    (reached : (Company.gather tree writers).Reachable c) (i : ι) (place : Location) :
    ((c.writers i).Targets c.tree place ↔ (writers i).Targets tree place) ∧
      ((writers i).Targets tree place →
        ((∀ j, (c.writers j).stage = .committed → ¬ (writers j).Targets tree place) ∧
            c.tree.node? place = tree.node? place) ∨
          ∃ j later earlier, c.renamed = later ++ j :: earlier ∧
            (writers j).Targets tree place ∧ (∀ k ∈ later, ¬ (writers k).Targets tree place) ∧
            (c.writers j).stage = .committed ∧
            c.tree.node? place = some (.file (writers j).content)) := by
  have inv := reached.inv
  refine ⟨inv.targets i, fun target => ?_⟩
  have unheld : ∀ j bytes, (c.writers j).held? ≠ some (place, bytes) :=
    fun j bytes held => (inv.aside held).2 i target
  rw [inv.shown place unheld]
  by_cases taken : ∃ j ∈ c.renamed, (writers j).Targets tree place
  · obtain ⟨j, later, earlier, order, target', apart, eq⟩ := Company.lastRenamed_of_exists taken
    have ended : (c.writers j).stage = .committed := (inv.ended j).mp (by simp [order])
    exact .inr ⟨j, later, earlier, order, target', apart, ended, eq⟩
  · have apart : ∀ j ∈ c.renamed, ¬ (writers j).Targets tree place :=
      fun j mem target => taken ⟨j, mem, target⟩
    exact .inl ⟨fun j ended => apart j ((inv.ended j).mpr ended),
      Company.lastRenamed_of_forall_not apart⟩

/-- Three runs to one file: the first two rename theirs, the second one earlier than the first, and
the third is killed when half of its content is written. The file is the first one's. -/
theorem target_shows_last_rename_three_runs :
    let tree := Tree.empty.set ["out"] (.file ⟨#[0]⟩)
    let writers : Fin 3 → Writer := fun i =>
      ⟨[], ⟨false, ["out"]⟩, [⟨#[1, 2]⟩, ⟨#[3]⟩, ⟨#[4, 5]⟩][i], .waiting⟩
    let c := (Company.gather tree writers).act 0 (.create ".a")
      |>.act 1 (.create ".b") |>.act 2 (.create ".c") |>.act 2 (.append 1)
      |>.act 0 (.append 1) |>.act 1 (.append 1) |>.act 1 .sync |>.act 0 (.append 1)
      |>.act 1 .rename |>.act 0 .sync |>.act 0 .rename
    (Company.gather tree writers).Reachable c ∧
      c.tree.node? ["out"] = some (.file ⟨#[1, 2]⟩) := by
  intro tree writers c
  have target : ∀ j, (writers j).Targets tree ["out"] := by decide +kernel
  have apart (i : Fin 3) (name : String) (ne : name ≠ "out") (temporary : Location)
      (beside : tree.beside (writers i).here (writers i).target name = .ok temporary)
      (j : Fin 3) : ¬ (writers j).Targets tree temporary := by
    obtain ⟨-, -, directory, walk, rfl⟩ := Tree.beside_eq_ok_iff.mp beside
    obtain rfl : [] = directory := Except.ok.inj walk
    intro other
    have same := Except.ok.inj ((target j).symm.trans other)
    exact ne (List.cons.inj same).1.symm
  have made0 := Company.Reachable.start.act
    ((Company.inv_gather tree writers).admits_create (apart 0 ".a" (by decide)))
  have made1 := made0.act (made0.inv.admits_create (apart 1 ".b" (by decide)))
  have made2 := made1.act (made1.inv.admits_create (apart 2 ".c" (by decide)))
  have half2 := made2.act (i := 2) (m := .append 1) trivial
  have half0 := half2.act (i := 0) (m := .append 1) trivial
  have full1 := half0.act (i := 1) (m := .append 1) trivial
  have synced1 := full1.act (i := 1) (m := .sync) trivial
  have full0 := synced1.act (i := 0) (m := .append 1) trivial
  have renamed1 := full0.act (i := 1) (m := .rename) trivial
  have synced0 := renamed1.act (i := 0) (m := .sync) trivial
  have reached : (Company.gather tree writers).Reachable c :=
    synced0.act (i := 0) (m := .rename) trivial
  refine ⟨reached, ?_⟩
  have renamed : c.renamed = [0, 1] := by decide +kernel
  obtain ⟨nobody, -⟩ | ⟨j, later, earlier, order, -, apart, -, shown⟩ :=
    (target_shows_last_rename reached 0 ["out"]).2 (target 0)
  · have ended : (c.writers 0).stage = .committed := (reached.inv.ended 0).mp (by simp [renamed])
    exact absurd (target 0) (nobody 0 ended)
  · rw [renamed] at order
    cases later with
    | nil =>
      obtain rfl : 0 = j := (List.cons.inj order).1
      exact shown
    | cons k rest => exact absurd (target k) (apart k (by simp))

end Reader

end Marc8.Files
