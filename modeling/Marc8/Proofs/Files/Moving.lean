/-
Marc8.Proofs.Files.Moving — what one move of a writer does.

`Writer.Moved` lists it: a writer makes a temporary file where nothing stood,
fills it, renames it to its target when all of the content is in there, or
gives up and removes it. Any other move leaves the tree alone (`moved_move`).
Whatever is asked about a move is told from this list: where it touches the
tree, and what stands there behind it (`Moved.node?_of_apart`,
`Moved.node?_of_released`, `Moved.node?_of_renamed`, `Moved.backed`).

A path leads through directories only, and no move makes or removes one
(`Moved.sameDirectories`). So a path that leads somewhere leads to the same
place all the time, whatever the writers are doing:

  `replaceTarget_eq_ok_iff` — when a file can take a path, and which place;
  `SameDirectories.replaceTarget`, `SameDirectories.beside`
                            — this is told by the directories alone.
-/
import Marc8.Files.Commit
import Mathlib.Tactic.SplitIfs

namespace Marc8.Files

/-! ## Places -/

namespace Tree

variable {t t' t'' : Tree} {here place : Location} {p : Path}

/-- A step is entered when it stays, goes up, or names a directory. -/
theorem enter_eq_ok_iff {step : String} : t.enter here step = .ok place ↔
    if Path.stays step then here = place
    else if step = ".." then here.dropLast = place
    else ¬ maxName < step.utf8ByteSize ∧ t.node? (here ++ [step]) = some .directory ∧
      here ++ [step] = place := by
  unfold enter
  split_ifs with hstays hup hlong
  · simp
  · simp
  · simp [hlong]
  · rcases t.node? (here ++ [step]) with _ | _ | _ <;> simp [hlong]

theorem walk_cons_eq_ok_iff {step : String} {steps : List String} :
    t.walk here (step :: steps) = .ok place ↔
      ∃ next, t.enter here step = .ok next ∧ t.walk next steps = .ok place := by
  rw [walk]
  cases t.enter here step <;> simp

/-- A new file can be made beside a path whose directory part leads to a directory. -/
theorem beside_eq_ok_iff {name : String} : t.beside here p name = .ok place ↔
    p.parent.hasZero = false ∧
      ¬ maxPath < p.parent.sizeFromRoot here + 1 + name.utf8ByteSize ∧
      ∃ directory, t.walk (p.parent.start here) p.parent.steps = .ok directory ∧
        directory ++ [name] = place := by
  unfold beside
  split_ifs with hzero hlong
  · simp [hzero]
  · simp [hlong]
  · cases t.walk (p.parent.start here) p.parent.steps <;> simp [hzero, hlong]

/-- A file can take a path that is no directory's and whose last step is a name in a directory. -/
theorem replaceTarget_eq_ok_iff : t.replaceTarget here p = .ok place ↔
    p.hasZero = false ∧ p.isBlank = false ∧ ¬ maxPath < p.size ∧
      ∃ name, p.trimmed.getLast? = some name ∧
        ∃ directory, t.walk (p.start here) p.trimmed.dropLast = .ok directory ∧
          ¬ (name = "." || name = "..") ∧ ¬ maxName < name.utf8ByteSize ∧
          p.trailingSlash = false ∧ t.node? (directory ++ [name]) ≠ some .directory ∧
          directory ++ [name] = place := by
  unfold replaceTarget
  by_cases hzero : p.hasZero = true
  · simp [hzero]
  by_cases hblank : p.isBlank = true
  · simp [hzero, hblank]
  by_cases hlong : maxPath < p.size
  · simp [hzero, hblank, hlong]
  rw [if_neg hzero, if_neg hblank, if_neg hlong]
  simp only [Bool.not_eq_true] at hzero hblank
  simp only [hzero, hblank, hlong, not_false_eq_true, true_and]
  rcases p.trimmed.getLast? with _ | name
  · simp
  rcases t.walk (p.start here) p.trimmed.dropLast with fault | directory
  · simp
  simp only [Option.some.injEq, Except.ok.injEq, exists_eq_left']
  split_ifs with hdots hname hslash
  · simp [hdots]
  · simp [hname]
  · simp [hslash]
  · rcases t.node? (directory ++ [name]) with _ | _ | _ <;> simp [hdots, hname, hslash]

/-- A place that a file can take is not the root. -/
theorem ne_nil_of_replaceTarget (h : t.replaceTarget here p = .ok place) : place ≠ [] := by
  obtain ⟨_, _, _, name, _, directory, _, _, _, _, _, rfl⟩ := replaceTarget_eq_ok_iff.mp h
  simp

theorem ne_nil_of_beside {name : String} (h : t.beside here p name = .ok place) : place ≠ [] := by
  obtain ⟨_, _, directory, _, rfl⟩ := beside_eq_ok_iff.mp h
  simp

/-- A file does not stand at the root. -/
theorem ne_nil_of_file {bytes : ByteArray} (h : t.node? place = some (.file bytes)) :
    place ≠ [] := by
  rintro rfl
  simp [node?] at h

theorem node?_of_replaceTarget (h : t.replaceTarget here p = .ok place) :
    t.node? place ≠ some .directory := by
  obtain ⟨_, _, _, name, _, directory, _, _, _, _, hnode, rfl⟩ := replaceTarget_eq_ok_iff.mp h
  exact hnode

/-! ## Directories -/

/-- The same places are directories. -/
def SameDirectories (t t' : Tree) : Prop :=
  ∀ place, t.node? place = some .directory ↔ t'.node? place = some .directory

namespace SameDirectories

theorem refl (t : Tree) : SameDirectories t t := fun _ => Iff.rfl

theorem trans (h : SameDirectories t t') (h' : SameDirectories t' t'') : SameDirectories t t'' :=
  fun place => (h place).trans (h' place)

/-- Steps lead to the same place in both trees, or in neither anywhere. -/
theorem walk (h : SameDirectories t t') {steps : List String} :
    t.walk here steps = .ok place ↔ t'.walk here steps = .ok place := by
  induction steps generalizing here with
  | nil => rfl
  | cons step rest ih =>
    rw [walk_cons_eq_ok_iff, walk_cons_eq_ok_iff]
    simp only [enter_eq_ok_iff, h (here ++ [step]), ih]

theorem beside (h : SameDirectories t t') {name : String} :
    t.beside here p name = .ok place ↔ t'.beside here p name = .ok place := by
  simp only [beside_eq_ok_iff, h.walk]

theorem replaceTarget (h : SameDirectories t t') :
    t.replaceTarget here p = .ok place ↔ t'.replaceTarget here p = .ok place := by
  simp only [replaceTarget_eq_ok_iff, h.walk, ne_eq, h _]

end SameDirectories

/-- A file in a place that is no directory leaves the directories as they are. -/
theorem sameDirectories_set (ne : place ≠ []) (free : t.node? place ≠ some .directory)
    (content : ByteArray) : SameDirectories t (t.set place (.file content)) := by
  intro other
  rw [node?_set t ne]
  split
  · next heq => simp [heq, free]
  · rfl

/-- So does the removal of something that is no directory. -/
theorem sameDirectories_remove (ne : place ≠ []) (file : t.node? place ≠ some .directory) :
    SameDirectories t (t.remove place) := by
  intro other
  rw [node?_remove t ne]
  split
  · next heq => simp [heq, file]
  · rfl

end Tree

/-! ## Moves -/

namespace Writer

/-- The place that the target of the writer stands for. -/
def Targets (w : Writer) (t : Tree) (place : Location) : Prop :=
  t.replaceTarget w.here w.target = .ok place

instance (w : Writer) (t : Tree) (place : Location) : Decidable (w.Targets t place) :=
  match h : t.replaceTarget w.here w.target with
  | .ok other => decidable_of_iff (other = place) (by simp [Targets, h])
  | .error fault => .isFalse (by simp [Targets, h])

/-- The temporary file of a writer, with what the writer has put into it. -/
def held? (w : Writer) : Option (Location × ByteArray) :=
  match w.stage with
  | .filling temporary written => some (temporary, w.content.extract 0 written)
  | .synced temporary => some (temporary, w.content)
  | _ => none

theorem held?_filling {w : Writer} {temporary : Location} {written : Nat}
    (stage : w.stage = .filling temporary written) :
    w.held? = some (temporary, w.content.extract 0 written) := by
  simp [held?, stage]

theorem held?_synced {w : Writer} {temporary : Location} (stage : w.stage = .synced temporary) :
    w.held? = some (temporary, w.content) := by
  simp [held?, stage]

theorem held?_inj {w : Writer} {a b : Location} {bytes bytes' : ByteArray}
    (h : w.held? = some (a, bytes)) (h' : w.held? = some (b, bytes')) : a = b ∧ bytes = bytes' :=
  Prod.mk.inj (Option.some.inj (h.symm.trans h'))

/-- The temporary file of the writer stands in the tree and holds what was put into it. -/
def Backed (w : Writer) (t : Tree) : Prop :=
  ∀ ⦃temporary bytes⦄, w.held? = some (temporary, bytes) →
    t.node? temporary = some (.file bytes)

/-- What a move may do to the tree and to the writer. -/
inductive Moved (w : Writer) (t : Tree) : Move → Tree → Writer → Prop
  /-- Nothing happens to the tree; the writer goes on, or gives up before it has anything. -/
  | kept {m stage} (held : (w.withStage stage).held? = w.held?)
      (ended : stage = .committed ↔ w.stage = .committed) : Moved w t m t (w.withStage stage)
  /-- An empty temporary file is made where nothing stood. -/
  | created {name temporary} (stage : w.stage = .waiting)
      (beside : t.beside w.here w.target name = .ok temporary) (free : t.node? temporary = none) :
      Moved w t (.create name) (t.set temporary (.file .empty)) (w.withStage (.filling temporary 0))
  /-- The temporary file holds more of the content. -/
  | filled {m temporary written more} (stage : w.stage = .filling temporary written) :
      Moved w t m (t.set temporary (.file (w.content.extract 0 more)))
        (w.withStage (.filling temporary more))
  /-- The temporary file, with all of the content, takes the place of the target. -/
  | renamed {m temporary place node} (stage : w.stage = .synced temporary)
      (target : w.Targets t place) (stands : t.node? temporary = some node) :
      Moved w t m ((t.remove temporary).set place node) (w.withStage .committed)
  /-- The writer gives up and removes its temporary file. -/
  | dropped {m temporary bytes fault} (held : w.held? = some (temporary, bytes)) :
      Moved w t m (t.remove temporary) (w.withStage (.failed fault))

variable {w w' : Writer} {t t' : Tree} {m : Move}

theorem moved_idle : w.Moved t m t w :=
  @Moved.kept w t m w.stage rfl Iff.rfl

theorem moved_abandon (fault : Fault) :
    w.Moved t m (w.abandon t fault).1 (w.abandon t fault).2 := by
  obtain ⟨here, target, content, stage⟩ := w
  cases stage with
  | waiting => exact .kept rfl (by simp)
  | filling temporary written => exact .dropped rfl
  | synced temporary => exact .dropped rfl
  | committed => exact moved_idle
  | failed fault => exact moved_idle

/-- A move does one of the things listed. -/
theorem moved_move (w : Writer) (t : Tree) (m : Move) :
    w.Moved t m (w.move t m).1 (w.move t m).2 := by
  cases m with
  | create name =>
    simp only [move]
    split
    · next stage =>
      split
      · exact moved_abandon _
      · next temporary beside =>
        split
        · exact moved_idle
        · next free => exact .created stage beside free
    · exact moved_idle
  | append count =>
    simp only [move]
    split
    · next stage => exact .filled stage
    · exact moved_idle
  | sync =>
    simp only [move]
    split
    · next temporary written stage =>
      split
      · next full => exact .kept (by simp [held?, withStage, stage, full]) (by simp [stage])
      · exact moved_idle
    · exact moved_idle
  | rename =>
    simp only [move]
    split
    · next temporary stage =>
      split
      · exact moved_abandon _
      · exact moved_abandon _
      · next place node target stands => exact .renamed stage target stands
    · exact moved_idle
  | refuse fault => exact moved_abandon _

namespace Moved

/-- Only the stage of a writer changes. -/
theorem eq_withStage (moved : w.Moved t m t' w') : w' = w.withStage w'.stage := by
  cases moved <;> rfl

/-- A writer that has renamed its file is done. -/
theorem committed (moved : w.Moved t m t' w') (h : w.stage = .committed) :
    w'.stage = .committed := by
  cases moved with
  | kept held ended => exact ended.mpr h
  | created stage => simp [h] at stage
  | filled stage => simp [h] at stage
  | renamed stage => simp [h] at stage
  | dropped held => simp [held?, h] at held

/-- A temporary file was there before, or it is made by the move where nothing stood. -/
theorem held_or_created (moved : w.Moved t m t' w') {temporary : Location} {bytes : ByteArray}
    (held : w'.held? = some (temporary, bytes)) :
    (∃ before, w.held? = some (temporary, before)) ∨
      t.node? temporary = none ∧
        ∃ name, m = .create name ∧ t.beside w.here w.target name = .ok temporary := by
  cases moved with
  | kept same => exact .inl ⟨bytes, same ▸ held⟩
  | @created name temporary' stage beside free =>
    obtain ⟨rfl, -⟩ : temporary' = temporary ∧ _ := by simpa [held?, withStage] using held
    exact .inr ⟨free, name, rfl, beside⟩
  | @filled m temporary' written more stage =>
    obtain ⟨rfl, -⟩ : temporary' = temporary ∧ _ := by simpa [held?, withStage] using held
    exact .inl ⟨_, held?_filling stage⟩
  | renamed => simp [held?, withStage] at held
  | dropped => simp [held?, withStage] at held

section Backed

variable (moved : w.Moved t m t' w') (backed : w.Backed t)

include moved backed

/-- No move makes or removes a directory. -/
theorem sameDirectories : Tree.SameDirectories t t' := by
  cases moved with
  | kept => exact .refl t
  | created stage beside free =>
    exact Tree.sameDirectories_set (Tree.ne_nil_of_beside beside) (by simp [free]) _
  | filled stage =>
    have stands := backed (held?_filling stage)
    exact Tree.sameDirectories_set (Tree.ne_nil_of_file stands) (by simp [stands]) _
  | renamed stage target stands =>
    have full := backed (held?_synced stage)
    obtain rfl := Option.some.inj (stands.symm.trans full)
    have ne := Tree.ne_nil_of_file full
    have removed := Tree.sameDirectories_remove (t := t) ne (by simp [full])
    refine removed.trans (Tree.sameDirectories_set (Tree.ne_nil_of_replaceTarget target) ?_ _)
    exact mt (removed _).mpr (Tree.node?_of_replaceTarget target)
  | dropped held =>
    exact Tree.sameDirectories_remove (Tree.ne_nil_of_file (backed held)) (by simp [backed held])

/-- A place that is neither the temporary file's nor taken by a rename stays as it is. -/
theorem node?_of_apart {other : Location} (before : ∀ bytes, w.held? ≠ some (other, bytes))
    (after : ∀ bytes, w'.held? ≠ some (other, bytes))
    (apart : w'.stage = .committed → w.stage ≠ .committed → ¬ w.Targets t other) :
    t'.node? other = t.node? other := by
  cases moved with
  | kept => rfl
  | @created name temporary stage beside free =>
    have ne : other ≠ temporary := by
      rintro rfl
      exact after _ (held?_filling rfl)
    rw [Tree.node?_set t (Tree.ne_nil_of_beside beside), if_neg ne]
  | @filled m temporary written more stage =>
    have ne : other ≠ temporary := by
      rintro rfl
      exact before _ (held?_filling stage)
    rw [Tree.node?_set t (Tree.ne_nil_of_file (backed (held?_filling stage))), if_neg ne]
  | @renamed m temporary place node stage target stands =>
    have held := held?_synced stage
    have ne : other ≠ temporary := by
      rintro rfl
      exact before _ held
    have ne' : other ≠ place := by
      rintro rfl
      exact apart rfl (by simp [stage]) target
    rw [Tree.node?_set _ (Tree.ne_nil_of_replaceTarget target), if_neg ne',
      Tree.node?_remove t (Tree.ne_nil_of_file (backed held)), if_neg ne]
  | @dropped m temporary bytes fault held =>
    have ne : other ≠ temporary := by
      rintro rfl
      exact before _ held
    rw [Tree.node?_remove t (Tree.ne_nil_of_file (backed held)), if_neg ne]

/-- Nothing stands any more where a temporary file was let go. -/
theorem node?_of_released {temporary : Location} {bytes : ByteArray}
    (before : w.held? = some (temporary, bytes))
    (after : ∀ bytes, w'.held? ≠ some (temporary, bytes)) (apart : ¬ w.Targets t temporary) :
    t'.node? temporary = none := by
  have ne := Tree.ne_nil_of_file (backed before)
  cases moved with
  | kept same => exact absurd (same.trans before) (after bytes)
  | created stage => simp [held?, stage] at before
  | filled stage =>
    obtain ⟨rfl, -⟩ := held?_inj before (held?_filling stage)
    exact absurd (held?_filling rfl) (after _)
  | @renamed m _ place node stage target stands =>
    obtain ⟨rfl, -⟩ := held?_inj before (held?_synced stage)
    have ne' : temporary ≠ place := by
      rintro rfl
      exact apart target
    rw [Tree.node?_set _ (Tree.ne_nil_of_replaceTarget target), if_neg ne',
      Tree.node?_remove t ne, if_pos rfl]
  | dropped held =>
    obtain ⟨rfl, -⟩ := held?_inj before held
    rw [Tree.node?_remove t ne, if_pos rfl]

/-- A rename puts all of the content at the target. -/
theorem node?_of_renamed {place : Location} (after : w'.stage = .committed)
    (before : w.stage ≠ .committed) (target : w.Targets t place) :
    t'.node? place = some (.file w.content) := by
  cases moved with
  | kept held ended => exact absurd (ended.mp after) before
  | created => cases after
  | filled => cases after
  | renamed stage target' stands =>
    have full := backed (held?_synced stage)
    obtain rfl := Option.some.inj (stands.symm.trans full)
    obtain rfl := Except.ok.inj (target.symm.trans target')
    rw [Tree.node?_set _ (Tree.ne_nil_of_replaceTarget target), if_pos rfl]
  | dropped => cases after

/-- The temporary file still holds what was put into it. -/
protected theorem backed : w'.Backed t' := by
  intro temporary bytes held
  cases moved with
  | kept same => exact backed (same ▸ held)
  | created stage beside free =>
    obtain ⟨rfl, rfl⟩ := held?_inj (held?_filling rfl) held
    rw [Tree.node?_set t (Tree.ne_nil_of_beside beside), if_pos rfl]
    simp
  | filled stage =>
    obtain ⟨rfl, rfl⟩ := held?_inj (held?_filling rfl) held
    rw [Tree.node?_set t (Tree.ne_nil_of_file (backed (held?_filling stage))), if_pos rfl]
    rfl
  | renamed => cases held
  | dropped => cases held

end Backed

end Moved

end Writer

end Marc8.Files
