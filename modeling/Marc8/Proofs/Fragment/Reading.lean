/-
Marc8.Proofs.Fragment.Reading — the reader gives back what was printed.

Each part of the grammar is read from its own tokens, whatever stands behind
them; where the reader has to look ahead, the lemma says what must not stand
there. What is fixed is passed by `expect_append` and `accept_append`, and what
is asked for in vain is told by its first token (`Misses`).

  `ofText?_text` — a fragment that can be printed is read back from its text.
-/
import Marc8.Fragment.Reader
import Marc8.Proofs.Fragment.Printing

namespace Marc8.Fragment

open Token Text

namespace Reader

variable {α β : Type}

/-! ## Fixed tokens -/

@[simp] theorem bind_apply (r : Reader α) (next : α → Reader β) (tokens : List Token) :
    (r >>= next) tokens = (r tokens).bind fun p => next p.1 p.2 := rfl

/-- After a part that can be read, the rest is read from what stands behind it. -/
theorem bind_of_eq {r : Reader α} {next : α → Reader β} {tokens rest : List Token} {a : α}
    (h : r tokens = some (a, rest)) : (r >>= next) tokens = next a rest := by
  rw [bind_apply, h, Option.bind_some]

@[simp] theorem pure_apply (a : α) (tokens : List Token) :
    (pure a : Reader α) tokens = some (a, tokens) := rfl

@[simp] theorem map_apply (f : α → β) (r : Reader α) (tokens : List Token) :
    (f <$> r) tokens = (r tokens).map fun p => (f p.1, p.2) := by
  show (r tokens).bind (fun p => some (f p.1, p.2)) = _
  cases r tokens <;> rfl

theorem behind_append (given rest : List Token) : behind given (given ++ rest) = some rest := by
  induction given with
  | nil => rfl
  | cons t given ih => simp [behind, ih]

@[simp] theorem expect_append (text : String) (rest : List Token) :
    expect text (ofText text ++ rest) = some ((), rest) := by
  simp [expect, behind_append]

@[simp] theorem accept_append (text : String) (rest : List Token) :
    accept text (ofText text ++ rest) = some (true, rest) := by
  simp [accept, behind_append]

/-- Other tokens than those of the text come next. -/
def Misses (text : String) (tokens : List Token) : Prop := behind (ofText text) tokens = none

theorem Misses.accept {text : String} {tokens : List Token} (h : Misses text tokens) :
    accept text tokens = some (false, tokens) := by
  unfold Reader.accept
  rw [h]

theorem Misses.expect {text : String} {tokens : List Token} (h : Misses text tokens) :
    expect text tokens = none := by
  unfold Reader.expect
  rw [h]
  rfl

theorem misses_cons {text : String} {t : Token} (h : (ofText text).head?.any (· ≠ t) = true)
    (rest : List Token) : Misses text (t :: rest) := by
  cases htokens : ofText text with
  | nil => simp [htokens] at h
  | cons t' more =>
    have hne : t' ≠ t := by simpa [htokens] using h
    simp [Misses, htokens, behind, hne]

/-- Two fixed texts begin with different tokens. -/
def Differ (text other : String) : Prop :=
  ((ofText other).head?.any fun t => (ofText text).head?.any (· ≠ t)) = true

instance (text other : String) : Decidable (Differ text other) :=
  inferInstanceAs (Decidable (_ = _))

theorem Differ.misses {text other : String} (h : Differ text other) (rest : List Token) :
    Misses text (ofText other ++ rest) := by
  cases htokens : ofText other with
  | nil => simp [Differ, htokens] at h
  | cons t more => exact misses_cons (by simpa [Differ, htokens] using h) (more ++ rest)

/-- The text begins with a mark or with a word that is no name. -/
def Foreign (text : String) : Prop :=
  ((ofText text).head?.any fun
    | .word w => reserved.any (·.toList = w)
    | .mark _ => true
    | _ => false) = true

instance (text : String) : Decidable (Foreign text) := inferInstanceAs (Decidable (_ = _))

theorem Foreign.misses {text x : String} (h : Foreign text) (hx : IsName x) (rest : List Token) :
    Misses text (nameToken x :: rest) := by
  refine misses_cons ?_ rest
  unfold Foreign at h
  cases htokens : (ofText text).head? with
  | none => simp [htokens] at h
  | some t =>
    cases t with
    | word w =>
      obtain ⟨k, hk, hw⟩ : ∃ k ∈ reserved, k.toList = w := by simpa [htokens] using h
      have hne : w ≠ x.toList := fun heq =>
        hx.free (String.toList_inj.mp (hw.trans heq) ▸ hk)
      simpa using hne
    | mark c => simp
    | _ => simp [htokens] at h

/-! ## Words and literals -/

@[simp] theorem number_numberToken (n : UInt32) (rest : List Token) :
    number (numberToken n :: rest) = some (n, rest) := by
  have hdigits := (Hex.ofDigits?_upper n).1
  have hlt : n.toNat < 4294967296 := n.toNat_lt
  simp [number, word, Hex.literal, hdigits, hlt]

theorem name_nameToken {x : String} (h : IsName x) (rest : List Token) :
    name (nameToken x :: rest) = some (x, rest) := by
  obtain ⟨⟨hne, _⟩, hstart, _⟩ := h
  cases hchars : x.toList with
  | nil => exact absurd hchars hne
  | cons c more =>
    have hc : c.isDigit = false := by simpa [hchars] using hstart
    have hx : String.ofList (c :: more) = x := by rw [← hchars, String.ofList_toList]
    rw [nameToken, hchars]
    simp [name, word, hc, hx]

@[simp] theorem decimal_toString (n : Nat) (rest : List Token) :
    decimal (nameToken (toString n) :: rest) = some (n, rest) := by
  have htext : (toString n).toList = Nat.toDigits 10 n := Nat.toList_repr
  have hdigits : (Nat.toDigits 10 n).all Char.isDigit = true :=
    List.all_eq_true.mpr fun c hc => Nat.isDigit_of_mem_toDigits (by decide) (by decide) hc
  have hne : Nat.toDigits 10 n ≠ [] := Nat.toDigits_ne_nil
  rw [nameToken, htext]
  simp [decimal, word, hdigits, hne]

theorem length_upper_val_le (c : Char) : (Hex.upper c.val).length ≤ 6 := by
  have hlt : c.val.toNat < 0x110000 := by
    have hvalid := c.valid
    unfold UInt32.isValidChar Nat.isValidChar at hvalid
    omega
  have h7 : c.val.toNat / 0x10000000 % 16 = 0 := by
    rw [Nat.div_eq_of_lt (by omega)]
  have h6 : c.val.toNat / 0x1000000 % 16 = 0 := by
    rw [Nat.div_eq_of_lt (by omega)]
  rw [Hex.upper, List.length_map]
  unfold Hex.nibbles Hex.places
  rw [List.map_cons, List.map_cons, h7, h6]
  split
  · simp
  · next digits h =>
    -- The first two of the eight digits are dropped, and maybe more.
    have hdrop := (List.dropWhile_suffix (l := ([0x100000, 0x10000, 0x1000, 0x100, 0x10, 1].map
      fun place => c.val.toNat / place % 16)) fun d => decide (d = 0)).length_le
    simpa using hdrop

theorem charOfNumber_charBody (c : Char) : charOfNumber (charBody c) = some c := by
  have hdigits := (Hex.ofDigits?_upper c.val).1
  have hread : (if h : c.val.toNat.isValidChar then some (Char.ofNatAux c.val.toNat h) else none) =
      some c := by
    rw [dif_pos c.valid]
    exact congrArg some (Char.ext (UInt32.toNat_inj.mp rfl))
  rw [charBody, charOfNumber, if_pos ⟨by simp, by simp [length_upper_val_le]⟩, List.dropLast_concat,
    hdigits]
  exact hread

theorem quoted_charOfNumber (c : Char) (rest : List Token) :
    quoted charOfNumber (.quoted (charBody c) :: rest) = some (c, rest) := by
  simp [quoted, charOfNumber_charBody]

theorem quoted_charAtom (c : Char) (rest : List Token) :
    quoted charAtom (.quoted (charBody c) :: rest) = some (.found c, rest) := by
  have hne : charBody c ≠ [' '] := by simp [charBody]
  simp [quoted, charAtom, hne, charOfNumber_charBody]

/-! ## Repetition -/

/-- Items are read one behind another. `ok` says what may stand behind an item. -/
theorem many_flatMap (ok : List Token → Prop) {item : Reader α} {tokens : α → List Token}
    {rest : List Token} (stops : item rest = none) (hrest : ok rest) :
    ∀ {items : List α},
      (∀ a ∈ items, ∀ more, ok more → item (tokens a ++ more) = some (a, more)) →
      (∀ a ∈ items, tokens a ≠ [] ∧ ∀ more, ok (tokens a ++ more)) →
      many item (items.flatMap tokens ++ rest) = some (items, rest)
  | [], _, _ => by
    rw [List.flatMap_nil, List.nil_append, many.eq_def, stops]
  | a :: items, reads, begins => by
    obtain ⟨hne, _⟩ := begins a (by simp)
    have hok : ok (items.flatMap tokens ++ rest) := by
      cases items with
      | nil => simpa using hrest
      | cons b items =>
        rw [List.flatMap_cons, List.append_assoc]
        exact (begins b (by simp)).2 _
    have hitem := reads a (by simp) _ hok
    have hmore := many_flatMap ok stops hrest (fun b hb => reads b (List.mem_cons_of_mem _ hb))
      fun b hb => begins b (List.mem_cons_of_mem _ hb)
    have hpos : 0 < (tokens a).length := List.length_pos_iff.mpr hne
    rw [List.flatMap_cons, List.append_assoc, many.eq_def, hitem]
    simp only
    rw [if_pos (by simp only [List.length_append]; omega), hmore]
    rfl

/-- A comma or the closing bracket of a list stands in front. -/
def EndsItem (rest : List Token) : Prop :=
  ∃ more, rest = ofText "," ++ more ∨ rest = ofText ")" ++ more

/-- A list is read up to its closing bracket. -/
theorem listed_listTokens {item : Reader α} {tokens : α → List Token} {items : List α}
    (reads : ∀ a ∈ items, ∀ more, EndsItem more → item (tokens a ++ more) = some (a, more))
    (begins : ∀ a ∈ items, ∀ more, Misses ")" (tokens a ++ more)) (rest : List Token) :
    listed item (listTokens tokens items ++ rest) = some (items, rest) := by
  cases items with
  | nil => simp [listed, listTokens]
  | cons first items =>
    have hmany : many (do expect ","; item)
        (items.flatMap (fun a => ofText "," ++ tokens a) ++ (ofText ")" ++ rest)) =
          some (items, ofText ")" ++ rest) := by
      refine many_flatMap EndsItem ?_ ⟨rest, .inr rfl⟩ ?_ ?_
      · have hnot : Differ "," ")" := by decide
        simp [(hnot.misses rest).expect]
      · intro a ha more hmore
        simp [reads a (List.mem_cons_of_mem _ ha) more hmore]
      · intro a _
        refine ⟨?_, fun more => ⟨tokens a ++ more, .inl (by simp)⟩⟩
        simp [show ofText "," ≠ [] by decide]
    have hends : EndsItem (items.flatMap (fun a => ofText "," ++ tokens a) ++ (ofText ")" ++ rest)) := by
      cases items with
      | nil => exact ⟨rest, .inr (by simp)⟩
      | cons second items =>
        refine ⟨tokens second ++ (items.flatMap (fun a => ofText "," ++ tokens a)
          ++ (ofText ")" ++ rest)), .inl ?_⟩
        simp only [List.flatMap_cons, List.append_assoc]
    have hfirst := reads first (by simp) _ hends
    have hbegin := fun more => (begins first (by simp) more).accept
    simp only [listed, listTokens, List.append_assoc, bind_apply, hbegin, Option.bind_some,
      Bool.false_eq_true, if_false, hfirst, hmany, expect_append, pure_apply]

/-! ## Calls and tests -/

theorem operand_tokens {o : Operand} (h : ∀ x ∈ o.names, IsName x) {rest : List Token}
    (hrest : EndsItem rest) : operand (o.tokens ++ rest) = some (o, rest) := by
  cases o with
  | var x =>
    have hx := h x (by simp [Operand.names])
    have hnot : accept "^" rest = some (false, rest) := by
      rcases hrest with ⟨more, rfl | rfl⟩
      · exact (Differ.misses (by decide) more).accept
      · exact (Differ.misses (by decide) more).accept
    simp [operand, Operand.tokens, name_nameToken hx, hnot]
  | flip x bits =>
    have hx := h x (by simp [Operand.names])
    simp [operand, Operand.tokens, name_nameToken hx]

theorem misses_operand {o : Operand} (h : ∀ x ∈ o.names, IsName x) (rest : List Token) :
    Misses ")" (o.tokens ++ rest) := by
  have hclose : Foreign ")" := by decide
  cases o with
  | var x => exact hclose.misses (h x (by simp [Operand.names])) rest
  | flip x bits =>
    simpa [Operand.tokens] using hclose.misses (h x (by simp [Operand.names])) _

theorem operands_tokens {operands : List Operand}
    (h : ∀ x ∈ operands.flatMap Operand.names, IsName x) (rest : List Token) :
    listed operand (listTokens Operand.tokens operands ++ rest) = some (operands, rest) := by
  have names : ∀ o ∈ operands, ∀ x ∈ o.names, IsName x := fun o ho x hx =>
    h x (List.mem_flatMap.mpr ⟨o, ho, hx⟩)
  exact listed_listTokens (fun o ho _ hmore => operand_tokens (names o ho) hmore)
    (fun o ho _ => misses_operand (names o ho) _) rest

theorem call_tokens {c : Call} (h : ∀ x ∈ c.names, IsName x) (rest : List Token) :
    call (c.tokens ++ rest) = some (c, rest) := by
  have hcallee := h c.callee (by simp [Call.names])
  have hoperands := operands_tokens (fun x hx => h x (List.mem_cons_of_mem _ hx)) rest
  simp [call, Call.tokens, name_nameToken hcallee, hoperands]

theorem test_tokens {t : Test} (h : ∀ x ∈ t.names, IsName x) (rest : List Token) :
    test (t.tokens ++ rest) = some (t, rest) := by
  have hopen : Foreign "(" := by decide
  cases t with
  | upTo x bound =>
    have hx := h x (by simp [Test.names])
    simp [test, Test.tokens, (hopen.misses hx _).accept, name_nameToken hx]
  | equal x value =>
    have hx := h x (by simp [Test.names])
    have hnot : Differ "<=" "==" := by decide
    simp [test, Test.tokens, (hopen.misses hx _).accept, name_nameToken hx,
      (hnot.misses _).accept]
  | within span x =>
    have hx := h x (by simp [Test.names])
    simp [test, Test.tokens, name_nameToken hx]

/-! ## Answers -/

theorem atom_tokens {a : Atom} (h : ∀ x ∈ a.names, IsName x) (rest : List Token) :
    atom (a.tokens ++ rest) = some (a, rest) := by
  have hmatches : Differ "false" "matches!(" := by decide
  have hlookup : Differ "false" "Lookup::" ∧ Differ "matches!(" "Lookup::" := by decide
  cases a with
  | never => simp [atom, Atom.tokens]
  | oneOf x value others =>
    have hx := h x (by simp [Atom.names])
    have hothers : many (do expect "|"; number)
        (others.flatMap (fun n => ofText "|" ++ [numberToken n]) ++ (ofText ")" ++ rest)) =
          some (others, ofText ")" ++ rest) := by
      have hnot : Differ "|" ")" := by decide
      refine many_flatMap (fun _ => True) ?_ trivial ?_ ?_
      · simp [(hnot.misses rest).expect]
      · intro n _ more _
        simp
      · intro n _
        exact ⟨by simp, fun _ => trivial⟩
    simp only [atom, Atom.tokens, List.append_assoc, List.cons_append, List.nil_append, bind_apply,
      (hmatches.misses _).accept, accept_append, Option.bind_some, Bool.false_eq_true, if_false,
      if_true, name_nameToken hx, expect_append, number_numberToken, hothers, pure_apply]
  | unmapped =>
    simp [atom, Atom.tokens, (hlookup.1.misses _).accept, (hlookup.2.misses _).accept]
  | unknownCharset =>
    have hnot : Differ "Unmapped" "UnknownCharset" := by decide
    simp [atom, Atom.tokens, (hlookup.1.misses _).accept, (hlookup.2.misses _).accept,
      (hnot.misses _).accept]
  | found c =>
    have hnot : Differ "Unmapped" "Char(" ∧ Differ "UnknownCharset" "Char(" := by decide
    simp [atom, Atom.tokens, (hlookup.1.misses _).accept, (hlookup.2.misses _).accept,
      (hnot.1.misses _).accept, (hnot.2.misses _).accept, quoted_charAtom]
  | blank =>
    have hnot : Differ "Unmapped" "Char(" ∧ Differ "UnknownCharset" "Char(" := by decide
    simp [atom, Atom.tokens, (hlookup.1.misses _).accept, (hlookup.2.misses _).accept,
      (hnot.1.misses _).accept, (hnot.2.misses _).accept, quoted, charAtom]
  | call c =>
    have hc := h c.callee (by simp [Atom.names, Call.names])
    have hforeign : Foreign "false" ∧ Foreign "matches!(" ∧ Foreign "Lookup::" := by decide
    have hcall := call_tokens h rest
    have hhead : c.tokens ++ rest =
        nameToken c.callee :: (ofText "(" ++ (listTokens Operand.tokens c.operands ++ rest)) := by
      simp [Call.tokens]
    rw [hhead] at hcall
    rw [Atom.tokens, hhead]
    simp [atom, (hforeign.1.misses hc _).accept, (hforeign.2.1.misses hc _).accept,
      (hforeign.2.2.misses hc _).accept, hcall]

/-- The text begins as no answer does. -/
def Unanswering (text : String) : Prop :=
  Foreign text ∧ Differ text "false" ∧ Differ text "matches!(" ∧ Differ text "Lookup::"

instance (text : String) : Decidable (Unanswering text) :=
  inferInstanceAs (Decidable (_ ∧ _))

theorem Unanswering.misses {text : String} (ht : Unanswering text) {a : Atom}
    (h : ∀ x ∈ a.names, IsName x) (rest : List Token) : Misses text (a.tokens ++ rest) := by
  obtain ⟨hforeign, hfalse, hmatches, hlookup⟩ := ht
  cases a with
  | never => exact hfalse.misses rest
  | oneOf x value others =>
    simpa only [Atom.tokens, List.append_assoc] using hmatches.misses _
  | call c =>
    have hc := hforeign.misses (h c.callee (by simp [Atom.names, Call.names]))
    simpa only [Atom.tokens, Call.tokens, List.append_assoc, List.cons_append, List.nil_append]
      using hc _
  | _ => simpa only [Atom.tokens, List.append_assoc] using hlookup.misses _

theorem cell_tokens (value : Option Char) (rest : List Token) :
    cell (cellTokens value ++ rest) = some (value, rest) := by
  cases value with
  | none => simp [cell, cellTokens]
  | some c =>
    have hnot : Differ "None" "Some(" := by decide
    simp [cell, cellTokens, (hnot.misses _).accept, quoted_charOfNumber]

/-! ## Rows and arms -/

theorem many_rows (rows : List Entry) (rest : List Token) :
    many row (rows.flatMap rowTokens ++ (ofText "];" ++ rest)) = some (rows, ofText "];" ++ rest) := by
  have hnot : Differ "(" "];" := by decide
  refine many_flatMap (fun _ => True) ?_ trivial ?_ ?_
  · simp [row, (hnot.misses rest).expect]
  · intro r _ more _
    simp [row, rowTokens, cell_tokens]
  · intro r _
    have hne : ofText "(" ≠ [] := by decide
    exact ⟨by simp [rowTokens, hne], fun _ => trivial⟩

theorem many_arms {arms : List (UInt32 × Atom)} (h : ∀ arm ∈ arms, ∀ x ∈ arm.2.names, IsName x)
    (rest : List Token) :
    many arm (arms.flatMap armTokens ++ (ofText "_ =>" ++ rest)) =
      some (arms, ofText "_ =>" ++ rest) := by
  have hlast : ofText "_ =>" = .word ['_'] :: ofText "=>" := by decide
  refine many_flatMap (fun _ => True) ?_ trivial ?_ ?_
  · simp [hlast, arm, number, word]
  · intro a ha more _
    simp [arm, armTokens, atom_tokens (h a ha)]
  · intro a _
    exact ⟨by simp [armTokens], fun _ => trivial⟩

/-! ## Statements and tails -/

theorem statement_tokens {stmt : Stmt} (h : ∀ x ∈ stmt.names, IsName x) (rest : List Token) :
    statement (stmt.tokens ++ rest) = some (stmt, rest) := by
  have hlet : Differ "let" "if" ∧ Differ "let" "static ENTRIES: [(u32, Option<char>);" ∧
      Differ "if" "static ENTRIES: [(u32, Option<char>);" := by decide +kernel
  cases stmt with
  | pick x t yes no =>
    have hx := h x (by simp [Stmt.names])
    have hyes := h yes (by simp [Stmt.names])
    have hno := h no (by simp [Stmt.names])
    have htest (more) : test (t.tokens ++ more) = some (t, more) :=
      test_tokens (fun y hy => h y (by simp [Stmt.names, hy])) more
    simp [statement, Stmt.tokens, name_nameToken hx, name_nameToken hyes, name_nameToken hno, htest]
  | returnIf t a =>
    have htest (more) : test (t.tokens ++ more) = some (t, more) :=
      test_tokens (fun y hy => h y (by simp [Stmt.names, hy])) more
    have hanswer (more) : atom (a.tokens ++ more) = some (a, more) :=
      atom_tokens (fun y hy => h y (by simp [Stmt.names, hy])) more
    simp [statement, Stmt.tokens, (hlet.1.misses _).accept, htest, hanswer]
  | entries length rows =>
    simp only [statement, Stmt.tokens, List.append_assoc, List.cons_append, List.nil_append,
      bind_apply, (hlet.2.1.misses _).accept, (hlet.2.2.misses _).accept, Option.bind_some,
      Bool.false_eq_true, if_false, expect_append, decimal_toString, many_rows, pure_apply]

theorem tail_tokens {t : Tail} (h : ∀ x ∈ t.names, IsName x) (rest : List Token) :
    tail (t.tokens ++ rest) = some (t, rest) := by
  have hentries : Foreign "ENTRIES.binary_search_by_key(&" := by decide +kernel
  have hparen : Differ "(" "\x7b" := by decide
  cases t with
  | atom a =>
    have hmatch : Unanswering "match" := by decide
    simp [tail, Tail.tokens, (hmatch.misses h _).accept, atom_tokens h]
  | choice x arms other =>
    have hx := h x (by simp [Tail.names])
    have hother (more) : atom (other.tokens ++ more) = some (other, more) :=
      atom_tokens (fun y hy => h y (by simp [Tail.names, hy])) more
    have names : ∀ a ∈ arms, ∀ y ∈ a.2.names, IsName y := fun a ha y hy => h y <| by
      simp only [Tail.names, List.cons_append, List.mem_cons, List.mem_append, List.mem_flatMap]
      exact .inr (.inl ⟨a, ha, hy⟩)
    have harms := many_arms names
    simp only [tail, choice, Tail.tokens, List.append_assoc, List.cons_append, List.nil_append,
      bind_apply, accept_append, Option.bind_some, if_true, (hentries.misses hx _).accept,
      Bool.false_eq_true, if_false, name_nameToken hx, (hparen.misses _).accept, expect_append,
      harms, hother, pure_apply]
  | orElse first second =>
    have hfirst := h first.callee (by simp [Tail.names, Call.names])
    have names : ∀ y ∈ first.operands.flatMap Operand.names, IsName y := fun y hy => h y <| by
      simp only [Tail.names, Call.names, List.mem_append, List.mem_cons]
      exact .inl (.inr hy)
    have hoperands := operands_tokens names
    have hsecond (more) : call (second.tokens ++ more) = some (second, more) :=
      call_tokens (fun y hy => h y (by simp [Tail.names, hy])) more
    have hcall : first.tokens =
        [nameToken first.callee] ++ ofText "(" ++ listTokens Operand.tokens first.operands := rfl
    simp only [tail, choice, Tail.tokens, hcall, List.append_assoc, List.cons_append,
      List.nil_append, bind_apply, accept_append, Option.bind_some, if_true,
      (hentries.misses hfirst _).accept, Bool.false_eq_true, if_false, name_nameToken hfirst,
      expect_append, hoperands, hsecond, pure_apply]
  | search x =>
    have hx := h x (by simp [Tail.names])
    simp [tail, choice, Tail.tokens, name_nameToken hx]

theorem misses_tail {text : String} (ht : Unanswering text) (hmatch : Differ text "match")
    {t : Tail} (h : ∀ x ∈ t.names, IsName x) (rest : List Token) :
    Misses text (t.tokens ++ rest) := by
  cases t with
  | atom a => exact ht.misses h rest
  | _ => simpa only [Tail.tokens, List.append_assoc] using hmatch.misses _

/-- Statements are read until something else begins. -/
theorem many_statements {statements : List Stmt}
    (h : ∀ stmt ∈ statements, ∀ x ∈ stmt.names, IsName x) {t : Tail}
    (ht : ∀ x ∈ t.names, IsName x) (rest : List Token) :
    many statement (statements.flatMap Stmt.tokens ++ (t.tokens ++ rest)) =
      some (statements, t.tokens ++ rest) := by
  have hlet : Unanswering "let" ∧ Differ "let" "match" := by decide
  have hif : Unanswering "if" ∧ Differ "if" "match" := by decide
  have hstatic : Unanswering "static ENTRIES: [(u32, Option<char>);" ∧
      Differ "static ENTRIES: [(u32, Option<char>);" "match" := by decide +kernel
  refine many_flatMap (fun _ => True) ?_ trivial ?_ ?_
  · simp [statement, (misses_tail hlet.1 hlet.2 ht rest).accept,
      (misses_tail hif.1 hif.2 ht rest).accept, (misses_tail hstatic.1 hstatic.2 ht rest).expect]
  · intro stmt hstmt more _
    exact statement_tokens (h stmt hstmt) more
  · intro stmt _
    refine ⟨?_, fun _ => trivial⟩
    have hne : ofText "let" ≠ [] ∧ ofText "if" ≠ [] := by decide
    cases stmt <;> simp [Stmt.tokens, hne]

/-! ## Routines -/

theorem parameters_tokens {parameters : List String} (h : ∀ x ∈ parameters, IsName x)
    (rest : List Token) :
    listed parameter (listTokens parameterTokens parameters ++ rest) = some (parameters, rest) := by
  have hclose : Foreign ")" := by decide
  refine listed_listTokens (fun x hx more _ => ?_) (fun x hx more => ?_) rest
  · simp [parameter, parameterTokens, name_nameToken (h x hx)]
  · simpa [parameterTokens] using hclose.misses (h x hx) _

theorem result_text (r : Result) (rest : List Token) :
    result (ofText r.text ++ rest) = some (r, rest) := by
  have hnot : Differ "bool" "Lookup" := by decide
  cases r with
  | bool => simp [result, Result.text]
  | lookup => simp [result, Result.text, (hnot.misses _).accept]

/-- The line of documentation of a routine, if it has one, is read without the blank in front. -/
theorem documentation_tokens (comment : Option String) (t : Token) (rest : List Token)
    (ht : ∀ text, t ≠ .documentation text) :
    documentation (comment.toList.map (fun c => .documentation (' ' :: c.toList)) ++ t :: rest) =
      some (comment, t :: rest) := by
  cases comment with
  | none =>
    cases t with
    | documentation text => exact absurd rfl (ht text)
    | _ => rfl
  | some c => simp [documentation]

theorem routine_tokens {r : Routine} (h : r.Printable) (rest : List Token) :
    routine (r.tokens ++ rest) = some (r, rest) := by
  obtain ⟨comment, exported, x, parameters, result, statements, t⟩ := r
  have hpub : ofText "pub" = [.word "pub".toList] := by decide
  have hfn : ofText "fn" = [.word "fn".toList] := by decide
  obtain ⟨_, hx, hparameters, hstatements, ht⟩ := h
  have hdocumentation (more : List Token) :
      documentation (comment.toList.map (fun c => .documentation (' ' :: c.toList))
          ++ ((if exported then ofText "pub" else []) ++ (ofText "fn" ++ more))) =
        some (comment, (if exported then ofText "pub" else []) ++ (ofText "fn" ++ more)) := by
    cases exported with
    | false => simpa [hfn] using documentation_tokens comment _ more (by simp)
    | true => simpa [hpub] using documentation_tokens comment _ (ofText "fn" ++ more) (by simp)
  have hexported (more : List Token) :
      accept "pub" ((if exported then ofText "pub" else []) ++ (ofText "fn" ++ more)) =
        some (exported, ofText "fn" ++ more) := by
    have hnot : Differ "pub" "fn" := by decide
    cases exported with
    | false => simpa using (hnot.misses more).accept
    | true => simp
  simp only [Routine.tokens, List.append_assoc, List.cons_append, List.nil_append]
  rw [routine, bind_of_eq (hdocumentation _), bind_of_eq (hexported _),
    bind_of_eq (expect_append "fn" _), bind_of_eq (name_nameToken hx _),
    bind_of_eq (expect_append "(" _), bind_of_eq (parameters_tokens hparameters _),
    bind_of_eq (expect_append "->" _), bind_of_eq (result_text result _),
    bind_of_eq (expect_append "\x7b" _), bind_of_eq (many_statements hstatements ht _),
    bind_of_eq (tail_tokens ht _), bind_of_eq (expect_append "\x7d" _), pure_apply]

end Reader

/-- A fragment that can be printed is read back from its text. -/
theorem ofText?_text {f : Fragment} (h : f.Printable) : ofText? f.text = some f := by
  obtain ⟨routines⟩ := f
  have hmany : Reader.many Reader.routine (routines.flatMap Routine.tokens ++ []) =
      some (routines, []) := by
    refine Reader.many_flatMap (fun _ => True) (by decide +kernel) trivial ?_ ?_
    · intro r hr more _
      exact Reader.routine_tokens (h r hr) more
    · intro r _
      exact ⟨by simp [Routine.tokens], fun _ => trivial⟩
  rw [List.append_nil] at hmany
  rw [ofText?, ofText_text h, tokens, hmany]

end Marc8.Fragment
