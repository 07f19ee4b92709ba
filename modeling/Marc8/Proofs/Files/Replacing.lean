/-
Marc8.Proofs.Files.Replacing — the replacement of a file by one writer alone.

A writer alone is a company of one, so what holds of companies holds of it:
behind a refusal the tree is as before, and behind the rename it differs at the
target only (`node?_moves_of_failed`, `node?_moves_of_committed`), in whatever
pieces the content was written and whichever step was refused.

A replacement takes a temporary name that stands nowhere in the tree and is no
step of the target (`freshName_not_mem`), and so its writer always comes to an
end (`concludes_schedule`): `replaceFile_spec` tells when to the good one, and
what the tree is like then. A writer that cannot know which names are free tries
some, and all or nothing holds of it as well (`attempts_all_or_nothing`).
-/
import Marc8.Proofs.Files.Interleaving
import Mathlib.Data.List.Nodup
import Mathlib.Data.List.Perm.Subperm

namespace Marc8.Files

/-! ## Temporary names -/

/-- The number of a temporary name can be read off it. -/
theorem temporaryName_injective : Function.Injective temporaryName := by
  intro n n' h
  have digits := congrArg String.toList h
  simp only [temporaryName, String.toList_append, String.toList_ofList,
    List.append_cancel_left_eq] at digits
  have value := congrArg (Nat.ofDigitChars 10 · 0) digits
  simpa [Nat.ofDigitChars_append, Nat.ofDigitChars_replicate_zero] using value

/-- A fresh name is not among the used ones: there is one candidate more than used names. -/
theorem freshName_not_mem (used : List String) : freshName used ∉ used := by
  let candidates := (List.range (used.length + 1)).map temporaryName
  have eq : freshName used =
      (candidates.find? fun name => !used.contains name).getD (temporaryName 0) := rfl
  rw [eq]
  cases h : candidates.find? fun name => !used.contains name with
  | some name => simpa using List.find?_some h
  | none =>
    have all : candidates ⊆ used := by
      intro name mem
      simpa using List.find?_eq_none.mp h name mem
    have nodup : candidates.Nodup := List.Nodup.map temporaryName_injective List.nodup_range
    have short : used.length + 1 ≤ used.length := by
      simpa [candidates] using (nodup.subperm all).length_le
    omega

namespace Tree

variable {t : Tree} {here place : Location} {p : Path} {name : String}

/-- A name that stands nowhere in the tree is free in every directory. -/
theorem node?_eq_none_of_fresh (fresh : name ∉ t.nodes.keys.flatten)
    (beside : t.beside here p name = .ok place) : t.node? place = none := by
  obtain ⟨-, -, directory, -, rfl⟩ := beside_eq_ok_iff.mp beside
  have absent : directory ++ [name] ∉ t.nodes.keys :=
    fun mem => fresh (List.mem_flatten.mpr ⟨_, mem, by simp⟩)
  simpa [node?, Assoc.mem_keys_iff, Assoc.contains] using absent

/-- A file with a name that is no step of a path is not where the path leads. -/
theorem replaceTarget_ne_of_fresh (fresh : name ∉ p.steps)
    (beside : t.beside here p name = .ok place) : t.replaceTarget here p ≠ .ok place := by
  obtain ⟨-, -, directory, -, rfl⟩ := beside_eq_ok_iff.mp beside
  intro target
  obtain ⟨-, -, -, last, hlast, directory', -, -, -, -, -, eq⟩ := replaceTarget_eq_ok_iff.mp target
  obtain rfl : last = name := by simpa using (List.append_inj_right' eq rfl)
  refine fresh ?_
  have mem := List.mem_of_getLast? hlast
  simp only [Path.trimmed, List.mem_reverse] at mem
  simpa using (List.dropWhile_sublist _).mem mem

end Tree

/-! ## A writer alone -/

namespace Writer

variable {w : Writer} {t : Tree} {moves : List Move}

/-- The names that the writer gives to temporary files are not in the way of its own target. -/
def NamesApart (w : Writer) (t : Tree) (moves : List Move) : Prop :=
  ∀ name, .create name ∈ moves → ∀ temporary,
    t.beside w.here w.target name = .ok temporary → ¬ w.Targets t temporary

theorem namesApart_of_forall_not_mem (fresh : ∀ name, .create name ∈ moves → name ∉ w.target.steps) :
    w.NamesApart t moves :=
  fun name mem _ beside => Tree.replaceTarget_ne_of_fresh (fresh name mem) beside

/-- A writer alone is a company of one. -/
theorem exists_company (waiting : w.stage = .waiting) (apart : w.NamesApart t moves) :
    ∃ c : Company Unit, (Company.gather t fun _ => w).Reachable c ∧
      c.tree = (w.moves t moves).1 ∧ ∀ i, c.writers i = (w.moves t moves).2 := by
  -- the company may have come some way already
  have go (c : Company Unit) (reached : (Company.gather t fun _ => w).Reachable c) :
      ∃ c' : Company Unit, (Company.gather t fun _ => w).Reachable c' ∧
        c'.tree = ((c.writers ()).moves c.tree moves).1 ∧
        ∀ i, c'.writers i = ((c.writers ()).moves c.tree moves).2 := by
    induction moves generalizing c with
    | nil => exact ⟨c, reached, rfl, fun _ => rfl⟩
    | cons m rest ih =>
      have admits : c.Admits () m := by
        cases m with
        | create name =>
          exact reached.inv.admits_create fun temporary beside _ =>
            apart name (by simp) temporary beside
        | _ => trivial
      obtain ⟨c', reached', tree, writers⟩ :=
        ih (fun name mem => apart name (by simp [mem])) _ (reached.act admits)
      refine ⟨c', reached', ?_⟩
      simp only [Company.act, Function.update_self] at tree writers
      exact ⟨tree, writers⟩
  have first : w.withStage .waiting = w := by rw [withStage, ← waiting]
  simpa [Company.gather, first] using go _ .start

section Alone

variable (waiting : w.stage = .waiting) (apart : w.NamesApart t moves)

include waiting apart

/-- A writer alone makes and removes no directory. -/
theorem sameDirectories_moves : Tree.SameDirectories t (w.moves t moves).1 := by
  obtain ⟨c, reached, tree, -⟩ := exists_company waiting apart
  rw [← tree]
  exact reached.inv.directories

/-- **Behind a refusal, whichever step was refused, everything is as it was.** -/
theorem node?_moves_of_failed {fault : Fault} (failed : (w.moves t moves).2.stage = .failed fault)
    (place : Location) : (w.moves t moves).1.node? place = t.node? place := by
  obtain ⟨c, reached, tree, writers⟩ := exists_company waiting apart
  have inv := reached.inv
  have unheld : ∀ i bytes, (c.writers i).held? ≠ some (place, bytes) := by
    simp [writers, held?, failed]
  rw [← tree, inv.shown place unheld]
  refine Company.lastRenamed_of_forall_not fun i mem => ?_
  have ended := (inv.ended i).mp mem
  simp [writers, failed] at ended

/-- **Behind the rename the target holds all of the content, and everything else is as it was.** -/
theorem node?_moves_of_committed (committed : (w.moves t moves).2.stage = .committed)
    (place : Location) : (w.moves t moves).1.node? place =
      if w.Targets t place then some (.file w.content) else t.node? place := by
  obtain ⟨c, reached, tree, writers⟩ := exists_company waiting apart
  have inv := reached.inv
  have unheld : ∀ i bytes, (c.writers i).held? ≠ some (place, bytes) := by
    simp [writers, held?, committed]
  rw [← tree, inv.shown place unheld]
  split
  · next target =>
    have ended : (c.writers ()).stage = .committed := by rw [writers, committed]
    obtain ⟨-, -, -, -, -, -, shown⟩ :=
      @Company.lastRenamed_of_exists Unit t (fun _ => w) place c.renamed
        ⟨(), (inv.ended ()).mpr ended, target⟩
    exact shown
  · next away => exact Company.lastRenamed_of_forall_not fun _ _ => away

end Alone

/-- A writer that was refused does nothing any more. -/
theorem moves_of_failed {fault : Fault} (failed : w.stage = .failed fault) :
    w.moves t moves = (t, w) := by
  induction moves with
  | nil => rfl
  | cons m rest ih =>
    have idle : w.move t m = (t, w) := by
      cases m <;> simp [move, abandon, failed]
    rw [Writer.moves, idle, ih]

section Next

variable {temporary : Location} {rest : List Move}

theorem moves_create {name : String} (stage : w.stage = .waiting)
    (beside : t.beside w.here w.target name = .ok temporary) (free : t.node? temporary = none) :
    w.moves t (.create name :: rest) =
      (w.withStage (.filling temporary 0)).moves (t.set temporary (.file .empty)) rest := by
  simp [moves, move, stage, beside, free]

theorem moves_append {written count : Nat} (stage : w.stage = .filling temporary written) :
    w.moves t (.append count :: rest) =
      (w.withStage (.filling temporary (min (written + count) w.content.size))).moves
        (t.set temporary (.file (w.content.extract 0 (min (written + count) w.content.size))))
        rest := by
  simp [moves, move, stage]

theorem moves_sync (stage : w.stage = .filling temporary w.content.size) :
    w.moves t (.sync :: rest) = (w.withStage (.synced temporary)).moves t rest := by
  simp [moves, move, stage]

end Next

/-- The writer has not come to an end. -/
def Busy (w : Writer) : Prop := w.stage ≠ .committed ∧ ∀ fault, w.stage ≠ .failed fault

theorem busy_waiting (stage : w.stage = .waiting) : w.Busy := by
  simp [Busy, stage]

theorem busy_filling {temporary : Location} {written : Nat}
    (stage : w.stage = .filling temporary written) : w.Busy := by
  simp [Busy, stage]

theorem busy_synced {temporary : Location} (stage : w.stage = .synced temporary) : w.Busy := by
  simp [Busy, stage]

/-- The writer comes to an end, to the good one under the condition given. -/
def Concludes (w : Writer) (good : Prop) : Prop :=
  (w.stage = .committed ∧ good) ∨ ((∃ fault, w.stage = .failed fault) ∧ ¬ good)

section Concludes

variable {good : Prop} {rest : List Move} {m : Move}

/-- A writer that gives up before its end has failed. -/
theorem concludes_of_abandon (fault : Fault) (busy : w.Busy)
    (abandon : w.move t m = w.abandon t fault) (bad : ¬ good) :
    (w.moves t (m :: rest)).2.Concludes good := by
  have failed : (w.abandon t fault).2.stage = .failed fault := by
    unfold Writer.abandon
    split
    · rfl
    · rfl
    · rfl
    · next stage => exact absurd stage busy.1
    · next stage => exact absurd stage (busy.2 _)
  refine .inr ⟨⟨fault, ?_⟩, bad⟩
  rw [Writer.moves, abandon, moves_of_failed failed, failed]

/-- It is enough to look at a step that is not refused, when the condition forbids to refuse it. -/
theorem concludes_guard {refusals : Refusals} {step : Step} (busy : w.Busy)
    (needed : good → refusals step = none)
    (permitted : refusals step = none → (w.moves t (m :: rest)).2.Concludes good) :
    (w.moves t (refusals.guard step m :: rest)).2.Concludes good := by
  cases h : refusals step with
  | none => simpa [Refusals.guard, h] using permitted h
  | some fault =>
    refine concludes_of_abandon fault busy ?_ fun holds => ?_
    · simp [Refusals.guard, h, move]
    · simp [needed holds] at h

end Concludes

/-! ## Several tries -/

section Attempts

variable {names : List String} {temporary : Location} {rest : List Move}

/-- A writer that has a temporary file creates no other. -/
theorem moves_creates_of_filling {written : Nat} (stage : w.stage = .filling temporary written) :
    w.moves t (names.map .create ++ rest) = w.moves t rest := by
  induction names with
  | nil => rfl
  | cons name names ih =>
    have idle : w.move t (.create name) = (t, w) := by simp [move, stage]
    rw [List.map_cons, List.cons_append, moves, idle, ih]

/-- The tries behind the one that was good are idle, and the others bring the writer to an end. -/
theorem ended_of_filling (stage : w.stage = .filling temporary 0) :
    (w.moves t (attempts names w.content.size)).2.stage = .committed ∨
      ∃ fault, (w.moves t (attempts names w.content.size)).2.stage = .failed fault := by
  rw [attempts, moves_creates_of_filling stage, moves_append stage, Nat.zero_add, Nat.min_self,
    moves_sync rfl, moves, moves]
  simp only [move, withStage]
  split
  · exact .inr ⟨_, rfl⟩
  · exact .inr ⟨_, rfl⟩
  · exact .inl rfl

/-- A writer that tries several names comes to an end, unless all of them are taken. -/
theorem ended_attempts (t : Tree) (waiting : w.stage = .waiting) (names : List String) :
    w.moves t (attempts names w.content.size) = (t, w) ∨
      (w.moves t (attempts names w.content.size)).2.stage = .committed ∨
        ∃ fault, (w.moves t (attempts names w.content.size)).2.stage = .failed fault := by
  induction names with
  | nil => exact .inl (by simp [attempts, moves, move, waiting])
  | cons name names ih =>
    have first : attempts (name :: names) w.content.size =
      .create name :: attempts names w.content.size := rfl
    rw [first]
    cases beside : t.beside w.here w.target name with
    | error fault =>
      have refused : w.move t (.create name) = (t, w.withStage (.failed fault)) := by
        simp [move, abandon, waiting, beside]
      rw [moves, refused, moves_of_failed rfl]
      exact .inr (.inr ⟨fault, rfl⟩)
    | ok temporary =>
      cases stands : t.node? temporary with
      | some node =>
        have taken : w.move t (.create name) = (t, w) := by simp [move, waiting, beside, stands]
        rw [moves, taken]
        exact ih
      | none =>
        rw [moves_create waiting beside stands]
        exact .inr (ended_of_filling rfl)

/-- **A writer that tries several names leaves the target with all of its content, or it leaves
everything as it was.** -/
theorem attempts_all_or_nothing (w : Writer) (t : Tree) (waiting : w.stage = .waiting)
    (first count : Nat) :
    let after := w.moves t (attempts (candidateNames first count w.target) w.content.size)
    (after.2.stage = .committed ∧ ∀ place, after.1.node? place =
        if w.Targets t place then some (.file w.content) else t.node? place) ∨
      (after.2.stage ≠ .committed ∧ ∀ place, after.1.node? place = t.node? place) := by
  intro after
  have apart : w.NamesApart t (attempts (candidateNames first count w.target) w.content.size) := by
    refine namesApart_of_forall_not_mem fun name mem => ?_
    have candidate : name ∈ candidateNames first count w.target := by simpa [attempts] using mem
    simpa [candidateNames] using (List.mem_filter.mp candidate).2
  obtain idle | committed | ⟨fault, failed⟩ :=
    ended_attempts t waiting (candidateNames first count w.target)
  · exact .inr (by simp [after, idle, waiting])
  · exact .inl ⟨committed, node?_moves_of_committed waiting apart committed⟩
  · exact .inr ⟨by simp [after, failed], node?_moves_of_failed waiting apart failed⟩

end Attempts

end Writer

/-! ## Replacements -/

namespace Tree

variable {t : Tree} {here place : Location} {refusals : Refusals} {target : Path}

/-- The name of the temporary file of a replacement. -/
def temporaryFor (t : Tree) (target : Path) : String :=
  freshName (t.nodes.keys.flatten ++ target.steps)

/-- Nothing stands in the way of a replacement. -/
structure Replaceable (t : Tree) (here : Location) (refusals : Refusals) (target : Path) :
    Prop where
  permitted : ∀ step, refusals step = none
  room : ∃ temporary, t.beside here target (t.temporaryFor target) = .ok temporary
  aim : ∃ place, t.replaceTarget here target = .ok place

theorem free_of_temporaryFor (beside : t.beside here target (t.temporaryFor target) = .ok place) :
    t.node? place = none :=
  node?_eq_none_of_fresh
    (fun mem => freshName_not_mem _ (List.mem_append_left target.steps mem)) beside

theorem eq_create_of_guard {step : Step} {m : Move} {name : String}
    (h : refusals.guard step m = .create name) : m = .create name := by
  unfold Refusals.guard at h
  split at h
  · cases h
  · exact h

theorem namesApart_schedule (t : Tree) (here : Location) (refusals : Refusals) (target : Path)
    (content : ByteArray) :
    (Writer.mk here target content .waiting).NamesApart t
      (t.schedule refusals target content.size) := by
  refine Writer.namesApart_of_forall_not_mem fun name mem => ?_
  simp only [schedule, List.mem_cons, List.not_mem_nil, or_false] at mem
  obtain create | append | sync | rename := mem
  · obtain rfl := Move.create.inj (eq_create_of_guard create.symm)
    exact fun mem => freshName_not_mem _ (List.mem_append_right _ mem)
  · cases eq_create_of_guard append.symm
  · cases eq_create_of_guard sync.symm
  · cases eq_create_of_guard rename.symm

/-- **A replacement comes to an end, and to a good one when nothing stands in its way.** -/
theorem concludes_schedule (t : Tree) (here : Location) (refusals : Refusals) (target : Path)
    (content : ByteArray) :
    ((Writer.mk here target content .waiting).moves t
      (t.schedule refusals target content.size)).2.Concludes
        (t.Replaceable here refusals target) := by
  show (Writer.moves _ t (refusals.guard .create (.create (t.temporaryFor target)) ::
    [refusals.guard .append _, refusals.guard .sync _, refusals.guard .rename _])).2.Concludes _
  refine Writer.concludes_guard (Writer.busy_waiting rfl) (·.permitted _) fun create => ?_
  cases beside : t.beside here target (t.temporaryFor target) with
  | error fault =>
    refine Writer.concludes_of_abandon fault (Writer.busy_waiting rfl) ?_ fun free => ?_
    · simp [Writer.move, beside]
    · simpa [beside] using free.room
  | ok temporary =>
  have ne := ne_nil_of_beside beside
  have free := free_of_temporaryFor beside
  rw [Writer.moves_create rfl beside free]
  refine Writer.concludes_guard (Writer.busy_filling rfl) (·.permitted _) fun append => ?_
  rw [Writer.moves_append rfl]
  refine Writer.concludes_guard (Writer.busy_filling rfl) (·.permitted _) fun sync => ?_
  rw [@Writer.moves_sync _ _ temporary _ (by simp [Writer.withStage])]
  refine Writer.concludes_guard (Writer.busy_synced rfl) (·.permitted _) fun rename => ?_
  set filled := (t.set temporary (.file .empty)).set temporary _ with hfilled
  have made : t.SameDirectories (t.set temporary (.file .empty)) :=
    sameDirectories_set ne (by simp [free]) _
  have directories : t.SameDirectories filled :=
    made.trans (sameDirectories_set ne (by simp [node?_set t ne]) _)
  obtain ⟨node, stands⟩ : ∃ node, filled.node? temporary = some node :=
    ⟨_, by rw [hfilled, node?_set _ ne, if_pos rfl]⟩
  cases aim : filled.replaceTarget here target with
  | error fault =>
    refine Writer.concludes_of_abandon fault (Writer.busy_synced rfl) ?_ fun free => ?_
    · simp [Writer.move, Writer.withStage, aim]
    · obtain ⟨place, target⟩ := free.aim
      simp [directories.replaceTarget.mp target] at aim
  | ok place =>
    have aim' := directories.replaceTarget.mpr aim
    refine .inl ⟨?_, fun step => ?_, ⟨temporary, beside⟩, place, aim'⟩
    · simp [Writer.moves, Writer.move, Writer.withStage, aim, stands]
    · cases step <;> assumption

/-- A replacement, however it ends, makes and removes no directory. -/
theorem sameDirectories_replaceFile (text : String) :
    t.SameDirectories (t.replaceFile here refusals target text).1 :=
  Writer.sameDirectories_moves rfl (namesApart_schedule t here refusals target _)

/-- **All or nothing.** A replacement with nothing in its way succeeds, and then the target holds
the text and everything else is as it was. Any other one fails, and everything is as it was. -/
theorem replaceFile_spec (t : Tree) (here : Location) (refusals : Refusals) (target : Path)
    (text : String) :
    ((t.replaceFile here refusals target text).2 = .ok () ∧ t.Replaceable here refusals target ∧
        ∃ place, t.replaceTarget here target = .ok place ∧
          ∀ other, (t.replaceFile here refusals target text).1.node? other =
            if other = place then some (.file text.toUTF8) else t.node? other) ∨
      ((∃ fault, (t.replaceFile here refusals target text).2 = .error fault) ∧
        ¬ t.Replaceable here refusals target ∧
        ∀ other, (t.replaceFile here refusals target text).1.node? other = t.node? other) := by
  have apart := namesApart_schedule t here refusals target text.toUTF8
  simp only [replaceFile]
  obtain ⟨committed, free⟩ | ⟨⟨fault, failed⟩, bad⟩ :=
    concludes_schedule t here refusals target text.toUTF8
  · obtain ⟨place, aim⟩ := free.aim
    refine .inl ⟨by rw [Writer.result, committed], free, place, aim, fun other => ?_⟩
    rw [Writer.node?_moves_of_committed rfl apart committed other]
    simp [Writer.Targets, aim, eq_comm]
  · refine .inr ⟨⟨fault, by rw [Writer.result, failed]⟩, bad, fun other => ?_⟩
    exact Writer.node?_moves_of_failed rfl apart failed other

end Tree

end Marc8.Files
