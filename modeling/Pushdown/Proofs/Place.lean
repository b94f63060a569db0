/-
  Pushdown.Proofs.Place — the places that are reported of a definition.

  Whatever the text, with errors in it or without: the names that are read cover themselves
  in the text, the parts of a section are nested and in order, and every finding is at a
  place on one line (`reported_places`). So the line of a diagnostic is the line that holds
  the place of its error, though it is computed from one offset alone, and the places that
  an automaton keeps are those of its names.
-/

import Mathlib.Data.List.Forall2
import Pushdown.Proofs.Automaton.Place
import Pushdown.Proofs.Automaton.Sound

namespace Pushdown

open Text

/-- A name covers itself in a text, and is not empty. -/
structure Ident.StandsIn (source : List Char) (i : Ident) : Prop where
  bounds : i.span.start < i.span.stop ∧ i.span.stop ≤ byteLength source
  slice : slice? i.span source = some i.value.toList

/-- A place that covers a part of a text, all on one line. -/
structure Span.OnOneLine (source : List Char) (s : Span) : Prop where
  bounds : s.start ≤ s.stop ∧ s.stop ≤ byteLength source
  slice : ∃ part, slice? s source = some part ∧ '\n' ∉ part

/-- A place on the line of a text with this number. -/
def Span.OnLine (source : List Char) (n : Nat) (s : Span) : Prop :=
  ∃ above line, n = above.length + 1 ∧ IsLine source above line ∧ s.Within (byteLength above.flatten) line

/-- A diagnostic tells the line that the place of an entry is on, if it has one. -/
structure Diagnostic.Locates (source : List Char) (d : Diagnostic) (e : Entry) : Prop where
  message : d.message = e.remark.message
  isSome : d.line.isSome = e.remark.place.isSome
  line : ∀ n ∈ d.line, 1 ≤ n ∧ n ≤ (terminatedLines source).length ∧ ∀ s ∈ e.remark.place, s.OnLine source n

/-- The names that an automaton declares, with their places. -/
def Automaton.declarations (a : Automaton) : List Ident :=
  a.states.idents State.name ++ a.alphabet.idents Letter.text ++
    (a.stackAlphabet.map (Table.idents Symbol.name)).getD [] ++ a.final.idents State.name ++ a.rejecting.idents State.name

/-! ## Places on a line of the text -/

section Lines

variable {source : String} {s : Span}

theorem Span.OnLine.onOneLine {n : Nat} (h : s.OnLine source.toList n) : s.OnOneLine source.toList := by
  obtain ⟨above, line, -, hline, part, hpart⟩ := h
  have hcuts := hline.cuts hpart
  have hbounds := hcuts.bounds
  refine ⟨⟨hbounds.2.1, by omega⟩, part, slice?_of_cuts hcuts, ?_⟩
  obtain ⟨before, after, hsplit, -⟩ := hpart
  intro hm
  exact hline.notMem (by simp [hsplit, hm])

/-- The line that a place is reported on is the line that it is on. -/
theorem Span.OnLine.lineOf_eq {n : Nat} (h : s.OnLine source.toList n) : lineOf source.toList s.start = n := by
  obtain ⟨above, line, rfl, hline, hs⟩ := h
  exact lineOf_of_within hline hs

theorem Span.OnLine.le_length {n : Nat} (h : s.OnLine source.toList n) :
    1 ≤ n ∧ n ≤ (terminatedLines source.toList).length := by
  obtain ⟨above, line, rfl, ⟨-, ending, below, -, hlines⟩, -⟩ := h
  rw [hlines, List.length_append, List.length_cons]
  omega

/-- The lines of a text that say something, as lines of the text. -/
theorem exists_on_of_mem {l : Line} (h : l ∈ linesOf (scan source)) :
    ∃ above line, IsLine source.toList above line ∧ l.On (byteLength above.flatten) line := by
  obtain ⟨above, line, hline, hon⟩ := exists_isLine_of_mem h
  rw [Nat.zero_add] at hon
  exact ⟨above, line, hline, hon⟩

theorem linesInOrder_scan (source : String) : LinesInOrder (linesOf (scan source)) := by
  refine ⟨?_, ?_, List.pairwise_map.mpr (linesOf_pairwise 0 source.toList)⟩
  · intro l hl
    obtain ⟨above, line, -, hon⟩ := exists_on_of_mem hl
    exact hon.inOrder
  · intro s hs
    obtain ⟨l, hl, rfl⟩ := List.mem_map.mp hs
    obtain ⟨above, line, -, hon⟩ := exists_on_of_mem hl
    exact hon.span_within.bounds.2.1

theorem exists_onLine {s : Span} (h : OnLines (linesOf (scan source)) s) : ∃ n, s.OnLine source.toList n := by
  obtain ⟨l, hl, hplace⟩ := h
  obtain ⟨above, line, hline, hon⟩ := exists_on_of_mem hl
  exact ⟨_, above, line, rfl, hline, hon.within_of_hasPlace hplace⟩

theorem standsIn_of_isWordOf {i : Ident} (h : i.IsWordOf (linesOf (scan source))) : i.StandsIn source.toList := by
  obtain ⟨l, hl, hword⟩ := h
  obtain ⟨above, line, hline, hon⟩ := exists_on_of_mem hl
  obtain ⟨part, hne, hpart, hname⟩ := hon.standsAt _ hword
  obtain rfl : i.value.toList = part := hname i.value rfl
  obtain ⟨before, after, hsplit, hspan⟩ : i.span.Cuts 0 source.toList i.value.toList := hline.cuts hpart
  have hlength : byteLength i.value.toList ≠ 0 := mt byteLength_eq_zero.mp hne
  have hsource := congrArg byteLength hsplit
  simp only [byteLength_append] at hsource
  refine ⟨?_, slice?_of_cuts ⟨before, after, hsplit, hspan⟩⟩
  rw [hspan]
  simp only
  omega

end Lines

/-! ## What is read and found -/

section Read

variable {source : String}

theorem readSections_of_source (source : String) :
    (readSections (linesOf (scan source))).KeepsTo (linesOf (scan source)) :=
  readSections_keepsTo (linesInOrder_scan source)

theorem sections_readDefinition (source : String) :
    (readDefinition source).sections = (readSections (linesOf (scan source))).sections :=
  List.nil_append _

/-- Everything that is found, when reading or checking, is on a line of the text. -/
theorem findings_at (source : String) :
    AllAt (fun s => ∃ n, s.OnLine source.toList n) (Definition.ofSource source).findings := by
  have hkeeps := readSections_of_source source
  rw [Definition.findings_ofSource]
  refine allAt_append.mpr ⟨allAt_append.mpr ⟨?_, ?_⟩, checkSections_at ?_⟩
  · intro f hf
    obtain ⟨c, hc, rfl⟩ := List.mem_map.mp hf
    obtain ⟨above, line, hline, hwithin⟩ := exists_isLine_of_mem_invalidChars hc
    rw [Nat.zero_add] at hwithin
    exact Problem.Plain.at_here (by trivial) ⟨_, above, line, rfl, hline, hwithin⟩
  · intro f hf
    have hplaces := (linesInOrder_scan source).placesIn
    exact (Grammar.readAt_of_readSections hplaces hf).errorAt.at_place.imp fun s hs => exists_onLine hs
  · intro s hs
    rw [sections_readDefinition] at hs
    have hsection := hkeeps.sections s hs
    refine ⟨?_, fun place hp => exists_onLine (hsection.inner place hp)⟩
    intro i hi
    obtain ⟨l, hl, hword⟩ := hsection.words i hi
    exact exists_onLine ⟨l, hl, ((linesInOrder_scan source).tokens l hl).hasPlace hword⟩

/-- The names of a text cover themselves in it, and stand in nested parts. -/
theorem sections_in_place (source : String) :
    Span.Row ((readDefinition source).sections.map Located.span) ∧
      ∀ s ∈ (readDefinition source).sections,
        Section.Nested s ∧ ∀ i ∈ s.value.idents, i.StandsIn source.toList := by
  have hkeeps := readSections_of_source source
  rw [sections_readDefinition]
  refine ⟨hkeeps.row, ?_⟩
  intro s hs
  have hsection := hkeeps.sections s hs
  exact ⟨hsection.nested, fun i hi => standsIn_of_isWordOf (hsection.words i hi)⟩

/-- The remarks of a report and their notes are each at a place on one line. -/
theorem entries_in_place (source : String) :
    ∀ e ∈ (Definition.ofSource source).report.entries, ∀ r ∈ e.chain, ∀ s ∈ r.place,
      ∃ n, s.OnLine source.toList n := by
  intro e he
  rw [← Array.mem_toList_iff, Definition.report, Report.toList_entries_ofFindings] at he
  obtain ⟨f, hf, rfl⟩ := List.mem_map.mp he
  exact findings_at source f hf

theorem locates_of_mem {e : Entry} (he : e ∈ (Definition.ofSource source).report.entries) {d : Diagnostic}
    (hd : e.diagnostic? source.toList = some d) : d.Locates source.toList e := by
  unfold Entry.diagnostic? at hd
  split at hd
  · cases hd
    refine ⟨rfl, Option.isSome_map, ?_⟩
    intro n hn
    obtain ⟨s, hs, rfl⟩ := Option.map_eq_some_iff.mp hn
    obtain ⟨n, hline⟩ := entries_in_place source e he e.remark (.head _) s hs
    rw [hline.lineOf_eq]
    refine ⟨hline.le_length.1, hline.le_length.2, ?_⟩
    intro s' hs'
    exact Option.some.inj (hs.symm.trans hs') ▸ hline
  · cases hd

/-- The diagnostics are those of the errors, in order. -/
theorem forall₂_diagnostic? {R : Diagnostic → Entry → Prop} {entries : List Entry}
    (h : ∀ e ∈ entries, ∀ d, e.diagnostic? source.toList = some d → R d e) :
    List.Forall₂ R (entries.filterMap (Entry.diagnostic? source.toList)) (entries.filter Entry.isError) := by
  induction entries with
  | nil => exact .nil
  | cons e rest ih =>
    obtain ⟨he, hrest⟩ := List.forall_mem_cons.mp h
    by_cases herror : e.isError = true
    · have hd : e.diagnostic? source.toList = some _ := if_pos herror
      rw [List.filterMap_cons_some hd, List.filter_cons_of_pos herror]
      exact .cons (he _ hd) (ih hrest)
    · have hd : e.diagnostic? source.toList = none := if_neg herror
      rw [List.filterMap_cons_none hd, List.filter_cons_of_neg herror]
      exact ih hrest

theorem diagnostics_of_load {m : Malformed} (h : load source = .error m) :
    m.diagnostics = (Definition.ofSource source).report.diagnostics source := by
  rw [(load_eq_error_iff.mp h).2]

end Read

/-! ## Loaded automata -/

section Loaded

variable {sections : List (Located Section)} {a : Automaton} {i : Ident}

theorem mem_idents_of_listsUnder {label : String} {items : Located (List Ident)} (hl : items ∈ listsUnder label sections)
    (hi : i ∈ items.value) : ∃ s ∈ sections, i ∈ s.value.idents := by
  obtain ⟨s, hs, hitems⟩ := List.mem_filterMap.mp hl
  refine ⟨s, hs, ?_⟩
  split at hitems
  · next l items' hv =>
    obtain ⟨-, rfl⟩ : l.value = label ∧ items' = items := by simpa using hitems
    rw [hv]
    exact .tail _ hi
  · cases hitems

theorem mem_idents_of_namesUnder {label : String} (hi : i ∈ namesUnder label sections) :
    ∃ s ∈ sections, i ∈ s.value.idents := by
  obtain ⟨items, hl, hi⟩ := List.mem_flatMap.mp hi
  exact mem_idents_of_listsUnder hl hi

/-- Every declared name is one of the sections, at its place. -/
theorem Describes.mem_idents (hd : Describes sections a) (hi : i ∈ a.declarations) :
    ∃ s ∈ sections, i ∈ s.value.idents := by
  simp only [Automaton.declarations, hd.states, hd.alphabet, hd.stackAlphabet, hd.final, hd.rejecting,
    List.mem_append] at hi
  rcases hi with (((hi | hi) | hi) | hi) | hi
  · exact mem_idents_of_namesUnder hi
  · exact mem_idents_of_namesUnder hi
  · cases hs : (listsUnder "stack_alphabet" sections).head? with
    | none => simp [hs] at hi
    | some items => exact mem_idents_of_listsUnder (List.mem_of_head? hs) (by simpa [hs] using hi)
  · exact mem_idents_of_namesUnder hi
  · exact mem_idents_of_namesUnder hi

end Loaded

/-- Of every text: each name that is read covers itself in it; sections and their parts
    enclose what they consist of, one part after the other; each remark and each note is
    about a part of one line; each diagnostic with a line tells the line its error is on;
    and the names of an automaton that is loaded are where it says. -/
theorem reported_places (source : String) :
    (Span.Row ((readDefinition source).sections.map Located.span) ∧
      ∀ s ∈ (readDefinition source).sections,
        Section.Nested s ∧ ∀ i ∈ s.value.idents, i.StandsIn source.toList) ∧
      (∀ e ∈ (Definition.ofSource source).report.entries, ∀ r ∈ e.chain, ∀ s ∈ r.place,
        s.OnOneLine source.toList) ∧
      (∀ m, load source = .error m → List.Forall₂ (Diagnostic.Locates source.toList) m.diagnostics
        ((Definition.ofSource source).report.entries.toList.filter Entry.isError)) ∧
      ∀ a, load source = .ok a → ∀ i ∈ a.declarations, i.StandsIn source.toList := by
  refine ⟨sections_in_place source, ?_, ?_, ?_⟩
  · intro e he r hr s hs
    obtain ⟨n, hline⟩ := entries_in_place source e he r hr s hs
    exact hline.onOneLine
  · intro m hm
    rw [diagnostics_of_load hm]
    refine forall₂_diagnostic? ?_
    intro e he d hd
    exact locates_of_mem (Array.mem_toList_iff.mp he) hd
  · intro a ha i hi
    obtain ⟨sections, hr, -, hd⟩ := load_eq_ok.mp ha
    obtain ⟨s, hs, hi⟩ := hd.mem_idents hi
    have hnames := (sections_in_place source).2
    rw [hr] at hnames
    exact (hnames s hs).2 i hi

/-- A state and a letter that take two bytes each, with one move. -/
def wideNames : String :=
  "states:é,q\nalphabet:ß,b\ninitial_state:é\nfinal_states:q\ntransition_function:\n é:\n  (ß,STACK_END)->q[b,ß]\n"

/-- The move is given a second time. -/
def wideMoveRepeated : String := wideNames ++ "  (ß,STACK_END)->é[]"

/-- The names of the automaton; the group with its two moves; the error about the second of
    them, with a note about the first, and the line that it is told of. -/
theorem places_of_wide_names :
    (∃ a, load wideNames = .ok a ∧
        a.declarations.map Located.span = [⟨7, 9⟩, ⟨10, 11⟩, ⟨21, 23⟩, ⟨24, 25⟩, ⟨56, 57⟩] ∧
        ∀ i ∈ a.declarations, i.StandsIn wideNames.toList) ∧
      (∃ s ∈ (readDefinition wideMoveRepeated).sections, ∃ g ∈ s.value.groups?.getD [],
        g.span = ⟨80, 132⟩ ∧ g.value.transitions.map Located.span = [⟨86, 109⟩, ⟨112, 132⟩] ∧ Section.Nested s) ∧
      (∃ e ∈ (Definition.ofSource wideMoveRepeated).report.entries.toList,
        e.chain.map Remark.place = [some ⟨112, 132⟩, some ⟨86, 109⟩] ∧
          ∀ r ∈ e.chain, ∀ s ∈ r.place, s.OnOneLine wideMoveRepeated.toList) ∧
      ∃ m, load wideMoveRepeated = .error m ∧ m.diagnostics.map Diagnostic.line = [some 8] ∧
        List.Forall₂ (Diagnostic.Locates wideMoveRepeated.toList) m.diagnostics
          ((Definition.ofSource wideMoveRepeated).report.entries.toList.filter Entry.isError) := by
  obtain ⟨-, -, -, hdeclarations⟩ := reported_places wideNames
  obtain ⟨⟨-, hnested⟩, hentries, hdiagnostics, -⟩ := reported_places wideMoveRepeated
  refine ⟨?_, ?_, ?_, ?_⟩
  · have hnames : ∃ a ∈ (load wideNames).toOption,
        a.declarations.map Located.span = [⟨7, 9⟩, ⟨10, 11⟩, ⟨21, 23⟩, ⟨24, 25⟩, ⟨56, 57⟩] := by
      decide +kernel
    obtain ⟨a, ha, hspans⟩ := hnames
    have hload := mem_toOption_load.mp ha
    exact ⟨a, hload, hspans, hdeclarations a hload⟩
  · have hgroup : ∃ s ∈ (readDefinition wideMoveRepeated).sections, ∃ g ∈ s.value.groups?.getD [],
        g.span = ⟨80, 132⟩ ∧ g.value.transitions.map Located.span = [⟨86, 109⟩, ⟨112, 132⟩] := by
      decide +kernel
    obtain ⟨s, hs, g, hg, hspan, hmoves⟩ := hgroup
    exact ⟨s, hs, g, hg, hspan, hmoves, (hnested s hs).1⟩
  · have hnote : ∃ e ∈ (Definition.ofSource wideMoveRepeated).report.entries.toList,
        e.chain.map Remark.place = [some ⟨112, 132⟩, some ⟨86, 109⟩] := by
      decide +kernel
    obtain ⟨e, he, hplaces⟩ := hnote
    exact ⟨e, he, hplaces, hentries e (Array.mem_toList_iff.mp he)⟩
  · have hrejected : (Definition.ofSource wideMoveRepeated).automaton = none := by decide +kernel
    have hlines : ((Definition.ofSource wideMoveRepeated).report.diagnostics wideMoveRepeated).map Diagnostic.line =
        [some 8] := by
      decide +kernel
    have hload := load_of_none hrejected
    exact ⟨_, hload, hlines, hdiagnostics _ hload⟩

end Pushdown
