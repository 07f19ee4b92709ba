/-
Marc8.Proofs.Fragment.Naming — the names in the fragment of a compiled table.

Names are made of parts with underscores between them, and a part holds no
underscore, so a name tells its parts (`joined_injective`). The parts of a
charset's routines begin with the mark of the charset, which is made of its
selector unless it is the multi-byte charset; the ends of a span tell its blocks
apart.

  `charsetRoutines_cases` — the routines of a charset have one of two shapes;
  `nodup_names`           — no two routines of a compiled table share a name, so
                            a routine is found under its name
                            (`routine?_of_mem`);
  `printable_ofCompiled`  — all names are names, and comments keep to their line.
-/
import Marc8.Fragment.Emit
import Marc8.Fragment.Meaning
import Marc8.Proofs.Fragment.Printing
import Marc8.Proofs.WellFormed
import Mathlib.Data.List.Nodup

namespace Marc8.Fragment

open Token Text

/-! ## Parts of names -/

/-- Parts with underscores between them. -/
def joined (parts : List String) : String := "_".intercalate parts

/-- There are parts, and none holds an underscore. -/
def Plain (parts : List String) : Prop := parts ≠ [] ∧ ∀ part ∈ parts, '_' ∉ part.toList

/-- A name tells its parts. -/
theorem joined_injective {xs ys : List String} (hx : Plain xs) (hy : Plain ys)
    (h : joined xs = joined ys) : xs = ys := by
  have split : ∀ {parts}, Plain parts →
      (joined parts).toList.splitOn '_' = parts.map String.toList := by
    intro parts hparts
    have hsep : "_".toList = ['_'] := by decide
    rw [joined, String.toList_intercalate, hsep]
    refine List.splitOn_intercalate '_' (fun part hpart => ?_) (by simpa using hparts.1)
    obtain ⟨text, htext, rfl⟩ := List.mem_map.mp hpart
    exact hparts.2 text htext
  have heq : xs.map String.toList = ys.map String.toList := by rw [← split hx, ← split hy, h]
  exact List.map_injective_iff.mpr (fun _ _ => String.toList_inj.mp) heq

/-- A number, as names hold it. -/
def hexPart (n : UInt32) : String := String.ofList (Hex.lower n)

theorem hexPart_injective {m n : UInt32} (h : hexPart m = hexPart n) : m = n := by
  have hchars : Hex.lower m = Hex.lower n := by
    simpa [hexPart] using congrArg String.toList h
  have hread := (Hex.ofDigits?_upper m).2
  rw [hchars, (Hex.ofDigits?_upper n).2] at hread
  exact (UInt32.toNat_inj.mp (by simpa using hread)).symm

theorem underscore_not_mem_hexPart (n : UInt32) : '_' ∉ (hexPart n).toList := by
  intro h
  simp only [hexPart, String.toList_ofList] at h
  obtain ⟨d, hd, hchar⟩ := List.mem_map.mp h
  have hread := (Hex.digitValue?_digitChar (Hex.lt_of_mem_nibbles hd)).2
  have hnone : Hex.digitValue? '_' = none := by decide
  rw [hchar, hnone] at hread
  cases hread

/-- The ends of a span, as parts. -/
def spanParts (s : Span) : List String := [hexPart s.first, hexPart s.last]

/-- With what the names of a charset's routines begin. -/
def mark (charset : Charset) : List String :=
  match charset.layout with
  | .page _ => ["lookup", "charset", hexPart charset.selector]
  | .multibyte _ => ["lookup", "multibyte"]

/-- The routine of one block of a charset that has a route. -/
def blockName (charset : Charset) : Span → String :=
  match charset.layout with
  | .page _ => partName charset.selector
  | .multibyte _ => rangeName

theorem charsetName_eq (charset : Charset) : charsetName charset = joined (mark charset) := by
  unfold charsetName mark joined
  cases charset.layout with
  | page blocks =>
    have hfront : "lookup" ++ "_" ++ ("charset" ++ "_") = "lookup_charset_" := by decide
    have hname : pageName charset.selector = "lookup_charset_" ++ hexPart charset.selector := rfl
    simp only [hname, String.intercalate_cons_cons, String.intercalate_singleton, ← hfront,
      String.append_assoc]
  | multibyte blocks =>
    have hname : multibyteName = "_".intercalate ["lookup", "multibyte"] := by decide
    exact hname

theorem blockName_eq (charset : Charset) (s : Span) :
    blockName charset s = joined (mark charset ++ spanParts s) := by
  have hne : mark charset ≠ [] := by
    unfold mark
    cases charset.layout <;> simp
  have hname : blockName charset s = charsetName charset ++ spanSuffix s := by
    unfold blockName charsetName
    cases charset.layout <;> rfl
  rw [hname, charsetName_eq, joined, joined, String.intercalate_append_of_ne_nil hne (by simp [spanParts])]
  simp only [spanSuffix, spanParts, String.intercalate_cons_cons, String.intercalate_singleton,
    hexPart, String.append_assoc]

theorem plain_mark (charset : Charset) : Plain (mark charset) := by
  unfold mark
  cases charset.layout with
  | page blocks =>
    have hfixed : '_' ∉ "lookup".toList ∧ '_' ∉ "charset".toList := by decide
    refine ⟨by simp, fun part hpart => ?_⟩
    simp only [List.mem_cons, List.not_mem_nil, or_false] at hpart
    rcases hpart with rfl | rfl | rfl
    · exact hfixed.1
    · exact hfixed.2
    · exact underscore_not_mem_hexPart _
  | multibyte blocks =>
    have hfixed : ∀ part ∈ ["lookup", "multibyte"], '_' ∉ part.toList := by decide
    exact ⟨by simp, hfixed⟩

theorem plain_append_spanParts {parts : List String} (h : Plain parts) (s : Span) :
    Plain (parts ++ spanParts s) := by
  refine ⟨by simp [h.1], fun part hpart => ?_⟩
  rcases List.mem_append.mp hpart with hpart | hpart
  · exact h.2 part hpart
  · simp only [spanParts, List.mem_cons, List.not_mem_nil, or_false] at hpart
    rcases hpart with rfl | rfl <;> exact underscore_not_mem_hexPart _

/-! ## Comments -/

theorem oneLine_ofList {chars : List Char} (h : '\n' ∉ chars) : OneLine (String.ofList chars) := by
  rwa [OneLine, String.toList_ofList]

theorem OneLine.append {a b : String} (ha : OneLine a) (hb : OneLine b) : OneLine (a ++ b) := by
  rw [OneLine, String.toList_append, List.mem_append, not_or]
  exact ⟨ha, hb⟩

theorem oneLine_literal (n : UInt32) : OneLine (Hex.literal n) := fun h =>
  absurd ((isWord_literal n).2 _ h) (by decide)

theorem oneLine_text (s : Span) : OneLine s.text :=
  ((oneLine_literal _).append (oneLine_ofList (by decide))).append (oneLine_literal _)

theorem oneLine_label (selector : Selector) : OneLine (pageRoutines.label selector) :=
  (oneLine_ofList (by decide)).append (oneLine_literal selector)

/-! ## The routines of a charset -/

/-- A charset has one of two shapes of routines: that of its only block, which takes the name of the
charset; or those of its blocks, under names made of their spans, and the route to them. -/
theorem charsetRoutines_cases (form : BlockForm) (charset : Charset) :
    ∃ label, OneLine label ∧
      ((∃ block, charset.layout = .page [block] ∧ charsetRoutines form charset =
        [entriesRoutine form (some label) (charsetName charset) block.entries.toList]) ∨
      ((∀ block, charset.layout ≠ .page [block]) ∧ charsetRoutines form charset =
        routed form label (charsetName charset) (blockName charset) charset.layout.blocks)) := by
  obtain ⟨selector, layout⟩ := charset
  cases layout with
  | page blocks =>
    refine ⟨pageRoutines.label selector, oneLine_label selector, ?_⟩
    match blocks with
    | [block] => exact .inl ⟨block, rfl, rfl⟩
    | [] => exact .inr ⟨by simp, rfl⟩
    | first :: second :: rest => exact .inr ⟨by simp, rfl⟩
  | multibyte blocks => exact ⟨_, oneLine_ofList (by decide), .inr ⟨by simp, rfl⟩⟩

/-! ## The names of all routines -/

/-- The parts of the names of a charset's routines. -/
def charsetParts (charset : Charset) : List (List String) :=
  match charset.layout with
  | .page [_] => [mark charset]
  | layout => layout.blocks.map (fun block => mark charset ++ spanParts block.span)
    ++ [mark charset]

/-- The parts of all names. -/
def nameParts (p : CompiledTable) : List (List String) :=
  [["is", "combining"], ["decode"], ["lookup"]] ++ p.charsets.toList.flatMap charsetParts

theorem mem_charsetParts {charset : Charset} {parts : List String}
    (h : parts ∈ charsetParts charset) :
    parts = mark charset ∨ ∃ block ∈ charset.layout.blocks,
      parts = mark charset ++ spanParts block.span := by
  unfold charsetParts at h
  split at h
  · exact .inl (by simpa using h)
  · next layout _ =>
    rcases List.mem_append.mp h with h | h
    · obtain ⟨block, hblock, rfl⟩ := List.mem_map.mp h
      exact .inr ⟨block, hblock, rfl⟩
    · exact .inl (by simpa using h)

theorem plain_of_mem_nameParts {p : CompiledTable} : ∀ parts ∈ nameParts p, Plain parts := by
  intro parts h
  rcases List.mem_append.mp h with h | h
  · have hfixed : ∀ fixed ∈ [["is", "combining"], ["decode"], ["lookup"]],
        ∀ part ∈ fixed, '_' ∉ part.toList := by decide
    have hne : ∀ fixed ∈ [["is", "combining"], ["decode"], ["lookup"]], fixed ≠ [] := by decide
    exact ⟨hne parts h, hfixed parts h⟩
  · obtain ⟨charset, _, hparts⟩ := List.mem_flatMap.mp h
    rcases mem_charsetParts hparts with rfl | ⟨block, _, rfl⟩
    · exact plain_mark charset
    · exact plain_append_spanParts (plain_mark charset) block.span

/-- Routed blocks have names made of their spans, and the route has its own. -/
theorem map_name_routed (form : BlockForm) (label name : String) (blockName : Span → String)
    (blocks : List Block) :
    (routed form label name blockName blocks).map (·.name) =
      blocks.map (fun block => blockName block.span) ++ [name] := by
  simp [routed, entriesRoutine, routeRoutine, Function.comp_def]

theorem charsetParts_of_routed {charset : Charset}
    (several : ∀ block, charset.layout ≠ .page [block]) : charsetParts charset =
      charset.layout.blocks.map (fun block => mark charset ++ spanParts block.span)
        ++ [mark charset] := by
  unfold charsetParts
  split
  · next block hlayout => exact absurd hlayout (several block)
  · rfl

theorem map_name_charsetRoutines (form : BlockForm) (charset : Charset) :
    (charsetRoutines form charset).map (·.name) = (charsetParts charset).map joined := by
  obtain ⟨label, _, ⟨block, only, heq⟩ | ⟨several, heq⟩⟩ := charsetRoutines_cases form charset
  · have hparts : charsetParts charset = [mark charset] := by simp only [charsetParts, only]
    rw [heq, hparts]
    exact congrArg (fun name => [name]) (charsetName_eq charset)
  · rw [heq, map_name_routed, charsetParts_of_routed several]
    simp [blockName_eq, charsetName_eq, Function.comp_def]

/-- The names of a compiled table's routines are put together from parts. -/
theorem map_name_ofCompiled (p : CompiledTable) (form : BlockForm) :
    (ofCompiled p form).routines.map (·.name) = (nameParts p).map joined := by
  have hfixed : ["is_combining", "decode", "lookup"] =
      [["is", "combining"], ["decode"], ["lookup"]].map joined := by decide
  have hcharsets : (p.charsets.toList.flatMap (charsetRoutines form)).map (·.name) =
      (p.charsets.toList.flatMap charsetParts).map joined := by
    simp only [List.map_flatMap, map_name_charsetRoutines]
  rw [nameParts, List.map_append, ← hfixed, ← hcharsets]
  rfl

/-! ## Distinct names -/

/-- Blocks that lie one behind the other have different spans. -/
theorem nodup_spanParts {blocks : List Block} {entries : List Entry}
    (h : Block.Divides blocks entries) (parts : List String) :
    (blocks.map fun block => parts ++ spanParts block.span).Nodup := by
  refine List.pairwise_map.mpr (h.apart.imp_of_mem fun {a b} ha _ before heq => ?_)
  have hends : spanParts a.span = spanParts b.span := List.append_cancel_left heq
  have hfirst : a.span.first = b.span.first := hexPart_injective (List.cons.inj hends).1
  have hlt : a.span.last < b.span.first := before
  rw [← hfirst] at hlt
  exact absurd (UInt32.lt_of_lt_of_le hlt (h.sound a ha).nonempty) (UInt32.lt_irrefl _)

theorem nodup_charsetParts {charset : Charset} {entries : List Entry}
    (h : Block.Divides charset.layout.blocks entries) : (charsetParts charset).Nodup := by
  unfold charsetParts
  split
  · exact List.nodup_singleton _
  · next layout hlayout =>
    refine List.nodup_append.mpr ⟨nodup_spanParts h _, List.nodup_singleton _, ?_⟩
    intro parts hparts mark' hmark heq
    obtain ⟨block, _, rfl⟩ := List.mem_map.mp hparts
    obtain rfl : mark' = mark charset := by simpa using hmark
    have hlength := congrArg List.length heq
    simp [spanParts] at hlength

/-- Charsets with a name in common have one selector, or are both the multi-byte charset. -/
theorem mark_of_mem_charsetParts {a b : Charset} {parts : List String} (ha : parts ∈ charsetParts a)
    (hb : parts ∈ charsetParts b) :
    a.selector = b.selector ∨
      ∃ blocks blocks', a.layout = .multibyte blocks ∧ b.layout = .multibyte blocks' := by
  have begins : ∀ {charset}, parts ∈ charsetParts charset → mark charset <+: parts := by
    intro charset h
    rcases mem_charsetParts h with rfl | ⟨block, _, rfl⟩
    · exact List.prefix_refl _
    · exact List.prefix_append _ _
  obtain ⟨front, hfront⟩ := begins ha
  obtain ⟨back, hback⟩ := begins hb
  rw [← hback] at hfront
  unfold mark at hfront
  obtain ⟨s, la⟩ := a
  obtain ⟨s', lb⟩ := b
  cases la with
  | page blocks =>
    cases lb with
    | page blocks' =>
      obtain ⟨hselector, _⟩ : hexPart s = hexPart s' ∧ front = back := by simpa using hfront
      exact .inl (hexPart_injective hselector)
    | multibyte blocks' => simp at hfront
  | multibyte blocks =>
    cases lb with
    | page blocks' => simp at hfront
    | multibyte blocks' => exact .inr ⟨blocks, blocks', rfl, rfl⟩

theorem nodup_nameParts {p : CompiledTable} (h : p.WellFormed) : (nameParts p).Nodup := by
  refine List.nodup_append.mpr ⟨by decide, List.nodup_flatMap.mpr ⟨?_, ?_⟩, ?_⟩
  · intro charset hcharset
    obtain ⟨entries, divides⟩ := h.divides charset (Array.mem_toList_iff.mp hcharset)
    exact nodup_charsetParts divides
  · refine h.charsets.imp_of_mem fun {a b} ha hb hlt parts hpa hpb => ?_
    have hne : a.selector ≠ b.selector := Std.ne_of_lt hlt
    rcases mark_of_mem_charsetParts hpa hpb with heq | ⟨blocks, blocks', hla, hlb⟩
    · exact hne heq
    · obtain ⟨multibyte, honly⟩ := h.multibyte
      have hsa := honly a (Array.mem_toList_iff.mp ha) blocks hla
      have hsb := honly b (Array.mem_toList_iff.mp hb) blocks' hlb
      exact hne (hsa.trans hsb.symm)
  · intro fixed hfixed parts hparts heq
    subst heq
    obtain ⟨charset, _, hparts⟩ := List.mem_flatMap.mp hparts
    -- A charset's name has two parts at least, and the second is not "combining".
    have hmark : ∃ rest, mark charset = "lookup" :: "charset" :: rest ∨
        mark charset = "lookup" :: "multibyte" :: rest := by
      unfold mark
      cases charset.layout with
      | page blocks => exact ⟨_, .inl rfl⟩
      | multibyte blocks => exact ⟨_, .inr rfl⟩
    obtain ⟨rest, hrest | hrest⟩ := hmark
    · rcases mem_charsetParts hparts with rfl | ⟨block, _, rfl⟩ <;> simp [hrest] at hfixed
    · rcases mem_charsetParts hparts with rfl | ⟨block, _, rfl⟩ <;> simp [hrest] at hfixed

/-- No two routines of a compiled table share a name. -/
theorem nodup_names {p : CompiledTable} (h : p.WellFormed) (form : BlockForm) :
    ((ofCompiled p form).routines.map (·.name)).Nodup := by
  rw [map_name_ofCompiled]
  refine (nodup_nameParts h).map_on fun xs hxs ys hys heq => ?_
  exact joined_injective (plain_of_mem_nameParts xs hxs) (plain_of_mem_nameParts ys hys) heq

/-- Among routines with different names each is found under its own. -/
theorem routine?_of_mem {f : Fragment} (h : (f.routines.map (·.name)).Nodup) {r : Routine}
    (hr : r ∈ f.routines) : f.routine? r.name = some r := by
  have hsome : (f.routines.find? (·.name = r.name)).isSome = true :=
    List.find?_isSome.mpr ⟨r, hr, by simp⟩
  obtain ⟨r', hfind⟩ := Option.isSome_iff_exists.mp hsome
  have hname : r'.name = r.name := by simpa using List.find?_some hfind
  have heq : r' = r :=
    List.inj_on_of_nodup_map h (List.mem_of_find?_eq_some hfind) hr hname
  rw [routine?, hfind, heq]

/-! ## Printing -/

theorem isWord_hexPart (n : UInt32) : IsWord (hexPart n) := (isWord_hex n).2

theorem isWord_joined : ∀ {parts : List String}, parts ≠ [] → (∀ part ∈ parts, IsWord part) →
    IsWord (joined parts)
  | [], hne, _ => absurd rfl hne
  | [part], _, h => by simpa [joined] using h part (by simp)
  | part :: next :: rest, _, h => by
    have hpart := h part (by simp)
    have hunderscore : IsWord "_" := by decide
    have hrest : IsWord (joined (next :: rest)) :=
      isWord_joined (by simp) fun p hp => h p (List.mem_cons_of_mem _ hp)
    rw [joined, String.intercalate_cons_cons]
    exact (hpart.append hunderscore).append hrest

/-- What begins with `lookup_` is a name. -/
theorem isName_joined {parts : List String} (hne : parts ≠ [])
    (h : ∀ part ∈ parts, IsWord part) : IsName (joined ("lookup" :: parts)) := by
  have hfront : IsWord "lookup_" := by decide
  have htext : joined ("lookup" :: parts) = "lookup_" ++ joined parts := by
    have hfixed : "lookup" ++ "_" = "lookup_" := by decide
    rw [joined, String.intercalate_cons_of_ne_nil hne, hfixed, joined]
  rw [htext]
  refine ⟨hfront.append (isWord_joined hne h), by simp, fun hmem => ?_⟩
  have hprefix : ∀ k ∈ reserved, ¬ "lookup_".toList <+: k.toList := by decide
  refine hprefix _ hmem ?_
  rw [String.toList_append]
  exact List.prefix_append _ _

/-- A mark continues `lookup` with words. -/
theorem exists_mark_eq_cons (charset : Charset) : ∃ parts, mark charset = "lookup" :: parts ∧
    parts ≠ [] ∧ ∀ part ∈ parts, IsWord part := by
  unfold mark
  cases charset.layout with
  | page blocks =>
    have hcharset : IsWord "charset" := by decide
    refine ⟨["charset", hexPart charset.selector], rfl, by simp, fun part hpart => ?_⟩
    simp only [List.mem_cons, List.not_mem_nil, or_false] at hpart
    rcases hpart with rfl | rfl
    · exact hcharset
    · exact isWord_hexPart charset.selector
  | multibyte blocks =>
    have hfixed : ∀ part ∈ ["multibyte"], IsWord part := by decide
    exact ⟨["multibyte"], rfl, by simp, hfixed⟩

theorem isName_charsetName (charset : Charset) : IsName (charsetName charset) := by
  obtain ⟨parts, hmark, hne, hword⟩ := exists_mark_eq_cons charset
  rw [charsetName_eq, hmark]
  exact isName_joined hne hword

theorem isName_blockName (charset : Charset) (s : Span) : IsName (blockName charset s) := by
  obtain ⟨parts, hmark, hne, hword⟩ := exists_mark_eq_cons charset
  rw [blockName_eq, hmark, List.cons_append]
  refine isName_joined (by simp [hne]) fun part hpart => ?_
  rcases List.mem_append.mp hpart with hpart | hpart
  · exact hword part hpart
  · simp only [spanParts, List.mem_cons, List.not_mem_nil, or_false] at hpart
    rcases hpart with rfl | rfl <;> exact isWord_hexPart _

/-! ## Routines -/

theorem printable_entriesRoutine {form : BlockForm} {comment : Option String} {name : String}
    {entries : List Entry} (hname : IsName name) (hcomment : ∀ c ∈ comment, OneLine c) :
    (entriesRoutine form comment name entries).Printable := by
  have hcode : ∀ x ∈ ["code"], IsName x := by decide
  cases form with
  | matchTree =>
    have harms : ∀ e : Entry, (listed e.2).names = [] := by
      rintro ⟨code, _ | c⟩ <;> rfl
    refine ⟨hcomment, hname, hcode, by simp [entriesRoutine], fun x hx => hcode x ?_⟩
    have hother : Atom.unmapped.names = [] := rfl
    simpa [entriesRoutine, Tail.names, List.flatMap_map, harms, hother] using hx
  | sortedArray =>
    exact ⟨hcomment, hname, hcode, by simp [entriesRoutine, Stmt.names], hcode⟩

theorem printable_routeRoutine {name : String} {blockName : Span → String} {spans : List Span}
    (hname : IsName name) (hblock : ∀ s, IsName (blockName s)) :
    (routeRoutine name blockName spans).Printable := by
  have hcode : ∀ x ∈ ["code", "_code"], IsName x := by decide
  refine ⟨by simp [routeRoutine], hname, fun x hx => hcode x ?_, fun stmt hstmt x hx => ?_, ?_⟩
  · simp only [routeRoutine] at hx
    split at hx <;> simp_all
  · obtain ⟨s, _, rfl⟩ := List.mem_map.mp hstmt
    have hmem : x = "code" ∨ x = blockName s := by
      simpa [Stmt.names, Test.names, Atom.names, Call.names, Operand.names, or_comm] using hx
    rcases hmem with rfl | rfl
    · exact hcode _ (by simp)
    · exact hblock s
  · simp [routeRoutine, Tail.names, Atom.names]

theorem printable_routed {form : BlockForm} {label name : String} {nameOf : Span → String}
    {blocks : List Block} (hlabel : OneLine label) (hname : IsName name)
    (hblock : ∀ s, IsName (nameOf s)) : ∀ r ∈ routed form label name nameOf blocks, r.Printable := by
  intro r hr
  rcases List.mem_append.mp hr with hr | hr
  · obtain ⟨block, _, rfl⟩ := List.mem_map.mp hr
    refine printable_entriesRoutine (hblock block.span) fun c hc => ?_
    obtain rfl := Option.mem_some.mp hc
    exact (hlabel.append (oneLine_ofList (by decide))).append (oneLine_text block.span)
  · obtain rfl := List.mem_singleton.mp hr
    exact printable_routeRoutine hname hblock

theorem printable_charsetRoutines (form : BlockForm) (charset : Charset) :
    ∀ r ∈ charsetRoutines form charset, r.Printable := by
  obtain ⟨label, hlabel, ⟨block, _, heq⟩ | ⟨_, heq⟩⟩ := charsetRoutines_cases form charset
  · intro r hr
    rw [heq] at hr
    obtain rfl := List.mem_singleton.mp hr
    refine printable_entriesRoutine (isName_charsetName charset) fun c hc => ?_
    obtain rfl := Option.mem_some.mp hc
    exact hlabel
  · rw [heq]
    exact printable_routed hlabel (isName_charsetName charset) (isName_blockName charset)

theorem printable_combiningRoutine (sets : List CombiningSet) :
    (combiningRoutine sets).Printable := by
  have hfixed : ∀ x ∈ ["is_combining", "code", "g0", "g1", "selector"], IsName x := by decide
  have hmember : ∀ codes x, x ∈ (combiningRoutine.member codes).names → x = "code" := by
    intro codes x hx
    cases codes with
    | nil => cases hx
    | cons code others => simpa [combiningRoutine.member, Atom.names] using hx
  refine ⟨fun c hc => ?_, hfixed _ (by simp [combiningRoutine]), fun x hx => hfixed x ?_,
    fun stmt hstmt x hx => hfixed x ?_, fun x hx => hfixed x ?_⟩
  · obtain rfl := Option.mem_some.mp hc
    exact oneLine_ofList (by decide)
  · exact List.mem_cons_of_mem _ (List.mem_append_left ["selector"] hx)
  · obtain rfl := List.mem_singleton.mp hstmt
    revert x
    decide
  · rcases List.mem_cons.mp hx with rfl | hx
    · simp
    · rw [List.append_eq, List.mem_append] at hx
      rcases hx with hx | hx
      · obtain ⟨arm, harm, hx⟩ := List.mem_flatMap.mp hx
        obtain ⟨set, _, rfl⟩ := List.mem_map.mp harm
        simp [hmember _ _ hx]
      · cases hx

theorem printable_decodeRoutine : decodeRoutine.Printable := by
  have hfixed : ∀ x ∈ ["decode", "lookup", "code", "mode"], IsName x := by decide
  refine ⟨fun c hc => ?_, hfixed _ (by simp [decodeRoutine]), fun x hx => hfixed x ?_,
    (by simp [decodeRoutine]), fun x hx => hfixed x ?_⟩
  · obtain rfl := Option.mem_some.mp hc
    exact oneLine_ofList (by decide)
  · revert x
    decide
  · revert x
    decide

theorem printable_lookupRoutine (charsets : List Charset) : (lookupRoutine charsets).Printable := by
  have hfixed : ∀ x ∈ ["lookup", "code", "mode"], IsName x := by decide
  refine ⟨(by simp [lookupRoutine]), hfixed _ (by simp [lookupRoutine]), fun x hx => hfixed x ?_,
    fun stmt hstmt x hx => hfixed x ?_, fun x hx => ?_⟩
  · exact List.mem_cons_of_mem _ hx
  · obtain rfl := List.mem_singleton.mp hstmt
    revert x
    decide
  · rcases List.mem_cons.mp hx with rfl | hx
    · exact hfixed _ (by simp)
    · rw [List.append_eq, List.mem_append] at hx
      rcases hx with hx | hx
      · obtain ⟨arm, harm, hx⟩ := List.mem_flatMap.mp hx
        obtain ⟨charset, _, rfl⟩ := List.mem_map.mp harm
        rcases List.mem_cons.mp hx with rfl | hx
        · exact isName_charsetName charset
        · obtain rfl : x = "code" := by simpa [Operand.names] using hx
          exact hfixed _ (by simp)
      · cases hx

/-- The fragment of a compiled table can be printed. -/
theorem printable_ofCompiled (p : CompiledTable) (form : BlockForm) :
    (ofCompiled p form).Printable := by
  intro r hr
  simp only [ofCompiled, List.mem_cons, List.mem_flatMap] at hr
  rcases hr with rfl | rfl | rfl | ⟨charset, _, hr⟩
  · exact printable_combiningRoutine _
  · exact printable_decodeRoutine
  · exact printable_lookupRoutine _
  · exact printable_charsetRoutines form charset r hr

end Marc8.Fragment
