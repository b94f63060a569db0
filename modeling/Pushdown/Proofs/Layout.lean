/-
  Pushdown.Proofs.Layout — what is loaded does not depend on the layout of the text.

  Two texts differ in their layout only when they hold the same rejected characters and
  the same tokens, line by line, and their lines are indented in the same order. What is
  read from them is the same but for its places, so they are loaded alike
  (`load_of_layout`). Carriage returns, lines that say nothing, the distances
  between tokens and the depth of indents are layout.
-/

import Mathlib.Data.List.Forall2
import Pushdown.Proofs.Automaton.Relocation
import Pushdown.Proofs.Line.Layout
import Pushdown.Proofs.Line.Written
import Pushdown.Proofs.Section.Relocation

namespace Pushdown

open Text

/-- Two texts differ in their layout only. -/
structure SameButLayout (s t : String) : Prop where
  rejected : (invalidChars (scan s)).map Located.value = (invalidChars (scan t)).map Located.value
  tokens : ((linesOf (scan s)).map fun l => l.tokens.map Located.value) =
    (linesOf (scan t)).map fun l => l.tokens.map Located.value
  /-- Of any two lines the same one is deeper in both. -/
  indents : ∀ p ∈ (linesOf (scan s)).zip (linesOf (scan t)), ∀ q ∈ (linesOf (scan s)).zip (linesOf (scan t)),
    p.1.indent < q.1.indent ↔ p.2.indent < q.2.indent

/-- Two loads come to the same: to automata that are written alike and give the same
    results, or to the same messages in the same order. -/
def SameOutcome : Except Malformed Automaton → Except Malformed Automaton → Prop
  | .ok a, .ok b =>
    a.canonical = b.canonical ∧ ∀ input limit, a.runBounded input limit = b.runBounded input limit
  | .error e, .error e' => e.diagnostics.map Diagnostic.message = e'.diagnostics.map Diagnostic.message
  | _, _ => False

/-! ## Definitions that agree -/

/-- Two definitions agree on all that a load tells but for line numbers. -/
structure Definition.Agrees (d d' : Definition) : Prop where
  canonical : d.automaton.map Automaton.canonical = d'.automaton.map Automaton.canonical
  runs : ∀ input limit, (d.automaton.map fun a => a.runBounded input limit) =
    d'.automaton.map fun a => a.runBounded input limit
  messages : ((d.findings.filter Finding.isError).map fun f => f.problem.message) =
    (d'.findings.filter Finding.isError).map fun f => f.problem.message

namespace Definition

variable {d d' : Definition} {m : Relocation}

theorem agrees_move (d : Definition) (m : Relocation) : d.Agrees (d.move m) := by
  refine ⟨?_, ?_, ?_⟩
  · simp only [move, Option.map_map, Function.comp_def, Automaton.canonical_move]
  · intro input limit
    have hruns := fun a : Automaton => (a.alike_move (m := m)).runBounded input limit
    simp only [move, Option.map_map, Function.comp_def, ← hruns]
  · rw [move, errors_move, List.map_map]
    exact List.map_congr_left fun f _ => (Problem.message_move f.problem).symm

/-- Definitions are the same but for their places if they are once these are given up. -/
theorem agrees_of_move_eq (h : d.move m = d'.move m) : d.Agrees d' := by
  have hd := agrees_move d m
  have hd' := agrees_move d' m
  rw [← h] at hd'
  exact ⟨hd.canonical.trans hd'.canonical.symm, fun input limit => (hd.runs input limit).trans (hd'.runs input limit).symm,
    hd.messages.trans hd'.messages.symm⟩

end Definition

theorem messages_diagnostics (source : String) (findings : List Finding) :
    ((Report.ofFindings findings).diagnostics source).map Diagnostic.message =
      (findings.filter Finding.isError).map fun f => f.problem.message := by
  rw [Report.diagnostics_ofFindings, List.map_map]
  rfl

theorem sameOutcome_of_agrees {s t : String} (h : (Definition.ofSource s).Agrees (Definition.ofSource t)) :
    SameOutcome (load s) (load t) := by
  have hcanonical := h.canonical
  have hruns := h.runs
  cases hs : (Definition.ofSource s).automaton with
  | none =>
    cases ht : (Definition.ofSource t).automaton with
    | none =>
      simp only [load_of_none hs, load_of_none ht, SameOutcome, Definition.report, messages_diagnostics]
      exact h.messages
    | some b => simp [hs, ht] at hcanonical
  | some a =>
    cases ht : (Definition.ofSource t).automaton with
    | none => simp [hs, ht] at hcanonical
    | some b =>
      simp only [hs, ht, Option.map_some, Option.some.injEq] at hcanonical hruns
      simp only [load_of_some hs, load_of_some ht, SameOutcome]
      exact ⟨hcanonical, hruns⟩

/-! ## Texts that differ in their layout only -/

/-- The indents that the lines of one list have in another, where each stands first. -/
def indentIn (pairs : List (Line × Line)) (indent : Nat) : Nat :=
  match pairs.find? fun p => p.1.indent = indent with
  | some p => p.2.indent
  | none => 0

/-- Lines of one depth in the one list are of one depth in the other. -/
theorem indentIn_of_mem {pairs : List (Line × Line)}
    (h : ∀ p ∈ pairs, ∀ q ∈ pairs, p.1.indent < q.1.indent ↔ p.2.indent < q.2.indent) {p : Line × Line}
    (hp : p ∈ pairs) : indentIn pairs p.1.indent = p.2.indent := by
  unfold indentIn
  split
  · next q hq =>
    have hmem := List.mem_of_find?_eq_some hq
    have heq : q.1.indent = p.1.indent := by simpa using List.find?_some hq
    have hlt := h p hp q hmem
    have hgt := h q hmem p hp
    omega
  · next hnone =>
    have := List.find?_eq_none.mp hnone p hp
    simp at this

/-- Without their places the same values are equal. -/
theorem map_move_nowhere {α : Type} (values : List (Located α)) :
    values.map (Located.move .nowhere) = (values.map Located.value).map fun v => ⟨v, ⟨0, 0⟩⟩ := by
  rw [List.map_map]
  rfl

theorem move_nowhere_eq {l l' : Line} {indent indent' : Nat → Nat} (hi : indent l.indent = indent' l'.indent)
    (ht : l.tokens.map Located.value = l'.tokens.map Located.value) :
    l.move .nowhere indent = l'.move .nowhere indent' := by
  simp only [Line.move, hi, map_move_nowhere, ht]

theorem map_eq_map_iff_zip {α β γ : Type} {f : α → γ} {g : β → γ} {as : List α} {bs : List β} :
    as.map f = bs.map g ↔ as.length = bs.length ∧ ∀ p ∈ as.zip bs, f p.1 = g p.2 := by
  rw [← List.forall₂_eq_eq_eq, List.forall₂_map_left_iff, List.forall₂_map_right_iff, List.forall₂_iff_zip, Prod.forall]

theorem exists_mem_zip {α β : Type} {as : List α} {bs : List β} (h : as.length = bs.length) {a : α} (ha : a ∈ as) :
    ∃ b, (a, b) ∈ as.zip bs := by
  rw [← List.map_fst_zip (Nat.le_of_eq h)] at ha
  obtain ⟨p, hp, rfl⟩ := List.mem_map.mp ha
  exact ⟨p.2, hp⟩

theorem readSections_of_sameButLayout {s t : String} (h : SameButLayout s t) :
    (readSections (linesOf (scan s))).move .nowhere = (readSections (linesOf (scan t))).move .nowhere := by
  obtain ⟨hlength, htokens⟩ := map_eq_map_iff_zip.mp h.tokens
  have hindent := fun p hp => @indentIn_of_mem _ h.indents p hp
  have hlines : (linesOf (scan s)).map (Line.move .nowhere (indentIn ((linesOf (scan s)).zip (linesOf (scan t))))) =
      (linesOf (scan t)).map (Line.move .nowhere id) :=
    map_eq_map_iff_zip.mpr ⟨hlength, fun p hp => move_nowhere_eq (hindent p hp) (htokens p hp)⟩
  have horder : KeepsOrder (indentIn ((linesOf (scan s)).zip (linesOf (scan t)))) (linesOf (scan s)) := by
    intro l hl l' hl'
    obtain ⟨b, hb⟩ := exists_mem_zip hlength hl
    obtain ⟨b', hb'⟩ := exists_mem_zip hlength hl'
    have hi := hindent _ hb
    have hi' := hindent _ hb'
    simp only at hi hi'
    rw [hi, hi']
    exact (h.indents _ hb _ hb').symm
  rw [← readSections_move horder, hlines, readSections_move fun _ _ _ _ => Iff.rfl]

theorem move_readDefinition (m : Relocation) (s : String) :
    (readDefinition s).move m = ⟨[], ((invalidChars (scan s)).map (Located.move m)).map fun c =>
      (Problem.invalidChar c.value).here c.span⟩ ++ (readSections (linesOf (scan s))).move m := by
  rw [readDefinition, append_move, List.map_map]
  exact congrArg (· ++ _) (congrArg (Reading.mk []) (List.map_map ..))

theorem agrees_of_sameButLayout {s t : String} (h : SameButLayout s t) :
    (Definition.ofSource s).Agrees (Definition.ofSource t) := by
  apply Definition.agrees_of_move_eq (m := .nowhere)
  rw [Definition.ofSource, Definition.ofSource, ← ofReading_move, ← ofReading_move, move_readDefinition,
    move_readDefinition, readSections_of_sameButLayout h, map_move_nowhere, h.rejected, ← map_move_nowhere]

/-! ## Carriage returns -/

/-- The text with a carriage return before every line feed. -/
def withReturns (source : String) : String := String.ofList (returned source.toList)

theorem readDefinition_withReturns (source : String) :
    readDefinition (withReturns source) =
      (readDefinition source).move ⟨returnedOffset source.toList, fun _ _ => returnedOffset_mono source.toList _ _⟩ := by
  have hlines := @lines_returned ⟨returnedOffset source.toList, fun _ _ => returnedOffset_mono source.toList _ _⟩ 0 0
    source.toList fun k _ => by simp
  have hscan : scan (withReturns source) = scanFrom ⟨0, 0, true⟩ (returned source.toList) := by
    rw [scan, withReturns, String.toList_ofList]
    rfl
  rw [move_readDefinition, readDefinition, hscan, hlines.1, hlines.2, readSections_move fun _ _ _ _ => Iff.rfl]
  rfl

theorem toList_withReturns (source : String) : (withReturns source).toList = returned source.toList :=
  String.toList_ofList

/-- Carriage returns change no load, and leave every diagnostic on its line. -/
theorem load_withReturns (source : String) :
    SameOutcome (load source) (load (withReturns source)) ∧
      ∀ e, load source = .error e ↔ load (withReturns source) = .error e := by
  have hdefinition := congrArg Definition.ofReading (readDefinition_withReturns source)
  rw [ofReading_move, ← Definition.ofSource, ← Definition.ofSource] at hdefinition
  refine ⟨sameOutcome_of_agrees (hdefinition ▸ Definition.agrees_move _ _), ?_⟩
  have hdiagnostics : (Definition.ofSource (withReturns source)).report.diagnostics (withReturns source) =
      (Definition.ofSource source).report.diagnostics source := by
    rw [hdefinition, Definition.report, Report.diagnostics_ofFindings, Definition.report,
      Report.diagnostics_ofFindings, Definition.move, errors_move, List.map_map, toList_withReturns]
    exact List.map_congr_left fun f _ => diagnostic_move (lineOf_returned source.toList) f
  have hautomaton : (Definition.ofSource (withReturns source)).automaton = none ↔
      (Definition.ofSource source).automaton = none := by
    rw [hdefinition, Definition.move]
    exact Option.map_eq_none_iff
  intro e
  rw [load_eq_error_iff, load_eq_error_iff, hdiagnostics, hautomaton]

/-! ## Lines that say nothing -/

/-- The characters of a text that belong to no token. -/
def rejectedIn (text : List Char) : List Char := (invalidChars (scanFrom .origin text)).map Located.value

/-- What the lines of a text say. -/
def contentsOf (text : List Char) : List (Nat × List Token) := (linesOf (scanFrom .origin text)).map Line.content

/-- Wherever a text stands, it says the same. -/
theorem contents_scanFrom (offset : Nat) (text : List Char) :
    (invalidChars (scanFrom ⟨offset, 0, true⟩ text)).map Located.value = rejectedIn text ∧
      (linesOf (scanFrom ⟨offset, 0, true⟩ text)).map Line.content = contentsOf text := by
  have hscan := @scanFrom_move ⟨(offset + ·), fun _ _ h => Nat.add_le_add_left h offset⟩ .origin offset text
    fun k _ => by simp [Cursor.origin]
  have horigin : { Cursor.origin with offset := offset } = ⟨offset, 0, true⟩ := rfl
  rw [horigin] at hscan
  rw [hscan, invalidChars_move, linesOf_move, List.map_map, List.map_map]
  refine ⟨rfl, List.map_congr_left fun l _ => ?_⟩
  simp [Line.content, Function.comp_def]

theorem contents_append (before after : List Char) :
    rejectedIn (before ++ '\n' :: after) = rejectedIn before ++ rejectedIn after ∧
      contentsOf (before ++ '\n' :: after) = contentsOf before ++ contentsOf after := by
  have hafter := contents_scanFrom (0 + byteLength before + 1) after
  refine ⟨?_, ?_⟩
  · rw [rejectedIn, Cursor.origin, invalidChars_append_lineEnd, List.map_append, hafter.1]
    rfl
  · rw [contentsOf, Cursor.origin, linesOf_append, List.map_append, hafter.2]
    rfl

theorem sameButLayout_of_indents {s t : String} {deepen : Nat → Nat} (hd : StrictMono deepen)
    (hrejected : (invalidChars (scan s)).map Located.value = (invalidChars (scan t)).map Located.value)
    (htokens : ((linesOf (scan s)).map fun l => l.tokens.map Located.value) =
      (linesOf (scan t)).map fun l => l.tokens.map Located.value)
    (hindents : ((linesOf (scan s)).map fun l => deepen l.indent) = (linesOf (scan t)).map Line.indent) :
    SameButLayout s t := by
  have hzip := (map_eq_map_iff_zip.mp hindents).2
  refine ⟨hrejected, htokens, ?_⟩
  intro p hp q hq
  rw [← hzip p hp, ← hzip q hq]
  exact hd.lt_iff_lt.symm

theorem sameButLayout_of_contents {s t : String} (hrejected : rejectedIn s.toList = rejectedIn t.toList)
    (hcontents : contentsOf s.toList = contentsOf t.toList) : SameButLayout s t := by
  have htokens := congrArg (List.map Prod.snd) hcontents
  have hindents := congrArg (List.map Prod.fst) hcontents
  simp only [contentsOf, List.map_map] at htokens hindents
  exact sameButLayout_of_indents strictMono_id hrejected htokens hindents

theorem contents_of_saysNothing {line : List Char} (h : SaysNothing line) :
    rejectedIn line = [] ∧ contentsOf line = [] := by
  have hlines := @lines_of_saysNothing 0 line h
  rw [rejectedIn, contentsOf, Cursor.origin, hlines.1, hlines.2]
  exact ⟨rfl, rfl⟩

theorem contents_intercalate (texts : List String) :
    rejectedIn ("\n".intercalate texts).toList = texts.flatMap (fun text => rejectedIn text.toList) ∧
      contentsOf ("\n".intercalate texts).toList = texts.flatMap fun text => contentsOf text.toList := by
  induction texts with
  | nil =>
    refine ⟨?_, ?_⟩
    · simp [rejectedIn, scanFrom, invalidChars]
    · simp [contentsOf, scanFrom, linesOf, splitLines, Line.ofScanned?]
  | cons text rest ih =>
    cases rest with
    | nil => simp
    | cons next rest =>
      have hsplit : ("\n".intercalate (text :: next :: rest)).toList =
          text.toList ++ '\n' :: ("\n".intercalate (next :: rest)).toList := by
        simp [-String.toList_intercalate]
      have happend := contents_append text.toList ("\n".intercalate (next :: rest)).toList
      rw [hsplit, happend.1, happend.2, ih.1, ih.2]
      exact ⟨rfl, rfl⟩

/-- A line that is blank or a comment may be put in anywhere between the lines of a text. -/
theorem load_insert (before after : List String) {line : String} (h : SaysNothing line.toList) :
    SameOutcome (load ("\n".intercalate (before ++ after))) (load ("\n".intercalate (before ++ line :: after))) := by
  obtain ⟨hrejected, hcontents⟩ := contents_of_saysNothing h
  refine sameOutcome_of_agrees (agrees_of_sameButLayout (sameButLayout_of_contents ?_ ?_))
  · rw [(contents_intercalate _).1, (contents_intercalate _).1, List.flatMap_append, List.flatMap_append,
      List.flatMap_cons, hrejected, List.nil_append]
  · rw [(contents_intercalate _).2, (contents_intercalate _).2, List.flatMap_append, List.flatMap_append,
      List.flatMap_cons, hcontents, List.nil_append]

/-! ## The same lexemes -/

def Lexeme.rejected? : Lexeme → Option Char
  | .invalid c => some c
  | .token _ => none

/-- The tokens that the lexemes of a line add to it, if there are any. -/
def saidBy? (lexemes : List Lexeme) : Option (List Token) :=
  match lexemes.filterMap Lexeme.kept? with
  | [] => none
  | tokens => some tokens

theorem rejected_of_lexemes (lexemes : List Scanned) :
    (invalidChars lexemes).map Located.value = (lexemes.map Scanned.lexeme).filterMap Lexeme.rejected? := by
  rw [invalidChars, List.map_filterMap, List.filterMap_map]
  congr
  funext s
  obtain ⟨lexeme, place, column⟩ := s
  cases lexeme <;> rfl

theorem tokens_ofScanned? (lexemes : List Scanned) :
    ((Line.ofScanned? lexemes).map fun l => l.tokens.map Located.value) = saidBy? (lexemes.map Scanned.lexeme) := by
  have hkept : (lexemes.map Scanned.lexeme).filterMap Lexeme.kept? =
      (lexemes.filterMap Scanned.kept?).map fun kept => kept.2.value := by
    rw [List.filterMap_map, List.map_filterMap]
    exact congrArg (List.filterMap · lexemes) (funext fun s => (value_kept? s).symm)
  rw [Line.ofScanned?, saidBy?, hkept]
  cases lexemes.filterMap Scanned.kept? with
  | nil => rfl
  | cons first rest => simp [Function.comp_def]

theorem splitLines_lexemes {l l' : List Scanned} (h : l.map Scanned.lexeme = l'.map Scanned.lexeme) :
    (splitLines l).map (List.map Scanned.lexeme) = (splitLines l').map (List.map Scanned.lexeme) := by
  induction l generalizing l' with
  | nil =>
    obtain rfl : l' = [] := List.map_eq_nil_iff.mp h.symm
    rfl
  | cons s rest ih =>
    obtain ⟨s', rest', rfl, hs, hrest⟩ := List.map_eq_cons_iff.mp h.symm
    have ih := ih hrest.symm
    have hend : s'.isLineEnd = s.isLineEnd := by rw [Scanned.isLineEnd, hs, Scanned.isLineEnd]
    rw [splitLines, splitLines, hend]
    split
    · rw [List.map_cons, List.map_cons, ih]
    · generalize splitLines rest = lines at ih ⊢
      generalize splitLines rest' = lines' at ih ⊢
      cases lines with
      | nil =>
        obtain rfl : lines' = [] := List.map_eq_nil_iff.mp ih.symm
        simp [hs]
      | cons line others =>
        obtain ⟨line', others', rfl, hline, hothers⟩ := List.map_eq_cons_iff.mp ih.symm
        simp [hs, hline, hothers]

theorem tokens_of_lexemes {l l' : List Scanned} (h : l.map Scanned.lexeme = l'.map Scanned.lexeme) :
    ((linesOf l).map fun line => line.tokens.map Located.value) =
      (linesOf l').map fun line => line.tokens.map Located.value := by
  have hlines : ∀ lexemes : List Scanned, ((linesOf lexemes).map fun line => line.tokens.map Located.value) =
      ((splitLines lexemes).map (List.map Scanned.lexeme)).filterMap saidBy? := by
    intro lexemes
    rw [linesOf, List.map_filterMap, List.filterMap_map]
    exact congrArg (List.filterMap · _) (funext tokens_ofScanned?)
  rw [hlines, hlines, splitLines_lexemes h]

/-- However far apart the lexemes stand, and however deep the lines are as long as the
    deeper ones stay deeper. -/
theorem load_of_lexemes {s t : String} {deepen : Nat → Nat} (hd : StrictMono deepen)
    (hlexemes : (scan s).map Scanned.lexeme = (scan t).map Scanned.lexeme)
    (hindents : ((linesOf (scan s)).map fun l => deepen l.indent) = (linesOf (scan t)).map Line.indent) :
    SameOutcome (load s) (load t) := by
  refine sameOutcome_of_agrees (agrees_of_sameButLayout (sameButLayout_of_indents hd ?_ ?_ hindents))
  · rw [rejected_of_lexemes, rejected_of_lexemes, hlexemes]
  · exact tokens_of_lexemes hlexemes

/-! ## All of it -/

/-- A load does not depend on the layout of the text. In particular carriage returns at the
    line ends change nothing, not even the lines of the diagnostics; nor do lines that are
    blank or comments, wherever they are put in; nor the distances between lexemes and the
    depth of indents, as long as deeper lines stay deeper. -/
theorem load_of_layout :
    (∀ s t, SameButLayout s t → SameOutcome (load s) (load t)) ∧
      (∀ s, SameOutcome (load s) (load (withReturns s)) ∧
        ∀ e, load s = .error e ↔ load (withReturns s) = .error e) ∧
      (∀ (before after : List String) (line : String), SaysNothing line.toList →
        SameOutcome (load ("\n".intercalate (before ++ after))) (load ("\n".intercalate (before ++ line :: after)))) ∧
      ∀ (s t : String) (deepen : Nat → Nat), StrictMono deepen →
        (scan s).map Scanned.lexeme = (scan t).map Scanned.lexeme →
        ((linesOf (scan s)).map fun l => deepen l.indent) = (linesOf (scan t)).map Line.indent →
        SameOutcome (load s) (load t) := by
  refine ⟨?_, load_withReturns, ?_, ?_⟩
  · intro s t h
    exact sameOutcome_of_agrees (agrees_of_sameButLayout h)
  · intro before after line h
    exact load_insert before after h
  · intro s t deepen hd hlexemes hindents
    exact load_of_lexemes hd hlexemes hindents

/-- A state that goes round with its letter, and one that it is left for. -/
def closeTogether : String :=
  "states:p,q\nalphabet:a\ninitial_state:p\nfinal_states:q\ntransition_function:\n p:\n  (a,STACK_END)->p[]\n  (a,a)->q[]"

/-- The same definition, with comments and empty lines, also among the moves, with carriage
    returns at some of the line ends, tabs for indents and blanks around the tokens. -/
def farApart : String :=
  "# two\nstates : p , q\r\nalphabet:a\n\ninitial_state :\tp\r\nfinal_states:q\ntransition_function:\r\n" ++
  "\t\tp :\n\t# round\n\t\t\t\t( a,STACK_END ) -> p [ ]\n\r\n\t\t\t\t(a, a)->q[]\n"

theorem load_of_far_apart :
    (∃ a b, load closeTogether = .ok a ∧ load farApart = .ok b) ∧
      SameButLayout closeTogether farApart ∧ SameOutcome (load closeTogether) (load farApart) := by
  have hdeepen : StrictMono fun indent : Nat => 2 * indent := fun _ _ h => Nat.mul_lt_mul_of_pos_left h Nat.two_pos
  have hlayout : SameButLayout closeTogether farApart :=
    sameButLayout_of_indents hdeepen (by decide +kernel) (by decide +kernel) (by decide +kernel)
  obtain ⟨a, ha⟩ := isSome_toOption_load.mp (by decide +kernel : (load closeTogether).toOption.isSome)
  obtain ⟨b, hb⟩ := isSome_toOption_load.mp (by decide +kernel : (load farApart).toOption.isSome)
  exact ⟨⟨a, b, ha, hb⟩, hlayout, load_of_layout.1 _ _ hlayout⟩

end Pushdown
