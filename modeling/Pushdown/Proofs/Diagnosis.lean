/-
  Pushdown.Proofs.Diagnosis — a definition has no automaton exactly when an error is told.

  The automaton may be missing for many reasons, a report keeps its flag apart from its
  entries, and both readers and checks leave out what is at fault. `failure_diagnosed`: all
  of these agree. A text has no automaton if and only if the report has its flag, if and
  only if an entry is an error, if and only if loading fails, and then the diagnostics are
  the errors, in their order, and at least one.

  Nothing is lost in silence: a word of the text is part of a section, or an error lies on
  its line or on the line that should have been a header above it; and what the check leaves
  out of the sections has an error about it (`Keeps`).
-/

import Pushdown.Proofs.Automaton.Kept
import Pushdown.Proofs.Place
import Pushdown.Proofs.Section.Account

namespace Pushdown

open Grammar

/-- What is told of a definition, and what becomes of it, go together. -/
structure Diagnosed (source : String) (d : Definition) : Prop where
  flagged : d.automaton = none ↔ d.report.hasError = true
  entered : d.report.hasError = true ↔ ∃ e ∈ d.report.entries.toList, e.isError = true
  refused : (∃ m, load source = .error m) ↔ ∃ e ∈ d.report.entries.toList, e.isError = true
  /-- The diagnostics are the errors of the report, each with the line that its place starts
      on. -/
  diagnostics : ∀ m, load source = .error m →
    m.diagnostics ≠ [] ∧ m.diagnostics = (d.report.entries.toList.filter Entry.isError).map fun e =>
      ⟨e.remark.place.map fun s => Text.lineOf source.toList s.start, e.remark.message⟩
  entries : d.report.entries.toList = d.findings.map Finding.entry
  /-- A word is part of a section, or there is an error on its line or above it. -/
  words : ∀ l ∈ linesOf (scan source), ∀ i : Ident, i.token ∈ l.tokens →
    (∃ s ∈ (readDefinition source).sections, i ∈ s.value.idents) ∨
      HasErrorAt (fun place => l.holds place = true ∨
        ∃ header ∈ linesOf (scan source), header.span.Before l.span ∧ header.holds place = true) d.findings
  sections : Keeps (readDefinition source).sections d.findings
  /-- Where there is no error, nothing at all is left out. -/
  loaded : ∀ a, load source = .ok a → Describes (readDefinition source).sections a

/-! ## Words -/

/-- The names of a node. -/
def Node.idents : Node → List Ident
  | list label items _ => label :: items.value
  | block label => [label]
  | header state => [state]
  | transition _ t => t.value.idents

theorem flatMap_idents_nodes (r : Reading) :
    r.nodes.flatMap Node.idents = r.sections.flatMap fun s => s.value.idents := by
  have hgroup : ∀ g : StateGroup, g.nodes.flatMap Node.idents = g.idents := by
    intro g
    rw [StateGroup.nodes, List.flatMap_cons, List.flatMap_map]
    rfl
  rw [Reading.nodes, List.flatMap_assoc]
  refine List.flatMap_congr ?_
  intro s _
  obtain ⟨value, place⟩ := s
  cases value with
  | list label items => simp [Section.nodes, Node.idents, Section.idents]
  | transitions label groups =>
    rw [Section.nodes, List.flatMap_cons, List.flatMap_assoc]
    simp only [hgroup]
    rfl

theorem eq_of_token {i : Ident} {word : String} {place : Span} (h : i.token = ⟨.word word, place⟩) : i = ⟨word, place⟩ := by
  obtain ⟨value, span⟩ := i
  cases h
  rfl

/-- The words of a list are its names. -/
theorem mem_of_nameList {tokens : List (Located Token)} {names : List Ident} (h : NameList tokens names) {i : Ident}
    (hi : i.token ∈ tokens) : i ∈ names := by
  cases h with
  | none => cases hi
  | some h =>
    induction h with
    | one name place => exact List.mem_singleton.mpr (eq_of_token (List.mem_singleton.mp hi))
    | more name place comma _ ih =>
      rcases List.mem_cons.mp hi with hi | hi
      · exact eq_of_token hi ▸ List.mem_cons_self
      · have htokens := (List.mem_cons.mp hi).resolve_left (by simp [Ident.token])
        exact List.mem_cons_of_mem _ (ih htokens)

/-- The words of a transition are its names. -/
theorem mem_of_transition {tokens : List (Located Token)} {t : TransitionLine} (h : Transition tokens t) {i : Ident}
    (hi : i.token ∈ tokens) : i ∈ t.idents := by
  cases h with
  | mk parOpen letterPlace comma topPlace parClose arrow nextPlace bracketOpen bracketClose letter top next hn =>
    rw [TransitionLine.idents]
    simp only [List.mem_cons, List.mem_append, List.not_mem_nil, or_false] at hi ⊢
    rcases hi with hi | hi | hi | hi | hi | hi | hi | hi | hi | hi
    · cases hi
    · exact .inl (eq_of_token hi)
    · cases hi
    · exact .inr (.inl (eq_of_token hi))
    · cases hi
    · cases hi
    · exact .inr (.inr (.inl (eq_of_token hi)))
    · cases hi
    · exact .inr (.inr (.inr (mem_of_nameList hn hi)))
    · cases hi

section Words

variable {r : Reading} {l : Line} {i : Ident}

theorem mem_idents_of_nodesIn {n : Node} {rest : List Node} (h : l.nodesIn r = n :: rest) (hi : i ∈ n.idents) :
    ∃ s ∈ r.sections, i ∈ s.value.idents := by
  have hn : n ∈ l.nodesIn r := h ▸ List.mem_cons_self
  rw [← List.mem_flatMap, ← flatMap_idents_nodes]
  exact List.mem_flatMap.mpr ⟨n, (List.mem_filter.mp hn).1, hi⟩

/-- A word of a line that begins a section is part of one, or something is wrong with the
    line. -/
theorem HeadAccount.word (h : HeadAccount r l) (hi : i.token ∈ l.tokens) :
    (∃ s ∈ r.sections, i ∈ s.value.idents) ∨ ∃ f, l.findingsIn r = [f] := by
  cases h with
  | list form ne items became =>
    rw [form] at hi
    refine .inl (mem_idents_of_nodesIn became.nodes ?_)
    rcases List.mem_cons.mp hi with hi | hi
    · exact eq_of_token hi ▸ List.mem_cons_self
    · have htokens := (List.mem_cons.mp hi).resolve_left (by simp [Ident.token])
      exact List.mem_cons_of_mem _ (mem_of_nameList items htokens)
  | block form became =>
    rw [form] at hi
    have hlabel := (List.mem_cons.mp hi).resolve_right (by simp [Ident.token])
    exact .inl (mem_idents_of_nodesIn became.nodes (List.mem_singleton.mpr (eq_of_token hlabel)))
  | trailing form ne nodes finding => exact .inr finding
  | refused refused => exact .inr refused.findings

/-- So is a word of a line of a block, or something is wrong with the line or with the one
    it is under. -/
theorem BlockAccount.word {headerIndent : Nat} {above : List Line} (h : BlockAccount r headerIndent above l)
    (hi : i.token ∈ l.tokens) :
    (∃ s ∈ r.sections, i ∈ s.value.idents) ∨ (∃ f, l.findingsIn r = [f]) ∨
      ∃ header ∈ above, ∃ f, header.findingsIn r = [f] := by
  cases h with
  | header depth form became =>
    rw [form] at hi
    have hstate := (List.mem_cons.mp hi).resolve_right (by simp [Ident.token])
    exact .inl (mem_idents_of_nodesIn became.nodes (List.mem_singleton.mpr (eq_of_token hstate)))
  | transition depth form under opened became =>
    exact .inl (mem_idents_of_nodesIn became.nodes (mem_of_transition form hi))
  | refused refused => exact .inr (.inl refused.findings)
  | @dropped _ header depth form under closed dropped =>
    have hheader : header ∈ above := (List.mem_filter.mp (List.mem_of_getLast? under)).1
    exact .inr (.inr ⟨header, hheader, closed.findings⟩)

theorem hasErrorAt_of_findingsIn {lines : List Line} {f : Finding} (h : l.findingsIn (readSections lines) = [f]) :
    HasErrorAt (fun place => l.holds place = true) (readSections lines).findings := by
  have hf : f ∈ l.findingsIn (readSections lines) := h ▸ List.mem_cons_self
  obtain ⟨hmem, hholds⟩ := List.mem_filter.mp hf
  obtain ⟨place, hplace, hon⟩ := (Option.any_eq_true _ _).mp hholds
  exact ⟨f, hmem, isError_of_readSections hmem, place, hplace, hon⟩

theorem sublist_flatMap {α β : Type} {as : List α} {a : α} (part : α → List β) (h : a ∈ as) :
    (part a).Sublist (as.flatMap part) := by
  obtain ⟨before, after, rfl⟩ := List.append_of_mem h
  rw [List.flatMap_append, List.flatMap_cons]
  exact (List.sublist_append_left ..).trans (List.sublist_append_right ..)

/-- Lines that are accounted for lose no word in silence. -/
theorem Accounts.word {lines : List Line} {parts : List (Line × List Line)} (h : Accounts lines parts (readSections lines))
    (hordered : lines.Pairwise fun l l' => l.span.Before l'.span) (hl : l ∈ lines) (hi : i.token ∈ l.tokens) :
    (∃ s ∈ (readSections lines).sections, i ∈ s.value.idents) ∨
      HasErrorAt (fun place => l.holds place = true ∨
        ∃ header ∈ lines, header.span.Before l.span ∧ header.holds place = true) (readSections lines).findings := by
  have hmem := h.once ▸ hl
  obtain ⟨p, hp, hlp⟩ := List.mem_flatMap.mp hmem
  have hsub : (p.1 :: p.2).Sublist lines := h.once ▸ sublist_flatMap (fun p => p.1 :: p.2) hp
  rcases List.mem_cons.mp hlp with rfl | hlp
  · refine ((h.heads p hp).word hi).imp_right ?_
    intro hf
    obtain ⟨f, hf⟩ := hf
    exact (hasErrorAt_of_findingsIn hf).imp fun _ => .inl
  · obtain ⟨above, below, hblock⟩ := List.append_of_mem hlp
    obtain ⟨first, hfirst⟩ : ∃ first, first ∈ p.2.head? := by
      rw [hblock]
      cases above with
      | nil => exact ⟨l, rfl⟩
      | cons first _ => exact ⟨first, rfl⟩
    rcases (h.blocks p hp first hfirst above l below hblock).word hi with hkept | ⟨f, hf⟩ | ⟨header, hheader, f, hf⟩
    · exact .inl hkept
    · exact .inr ((hasErrorAt_of_findingsIn hf).imp fun _ => .inl)
    · rw [hblock] at hsub
      have hpairs := (List.pairwise_cons.mp (hordered.sublist hsub)).2
      have hbefore := (List.pairwise_append.mp hpairs).2.2 header hheader l List.mem_cons_self
      have hline : header ∈ lines := hsub.subset (List.mem_cons_of_mem _ (List.mem_append_left _ hheader))
      exact .inr ((hasErrorAt_of_findingsIn hf).imp fun place hp => .inr ⟨header, hline, hbefore, hp⟩)

end Words

/-! ## Failure -/

section Failure

variable {source : String} {r : Reading}

theorem Keeps.mono {sections : List (Located Section)} {findings findings' : List Finding} (h : Keeps sections findings)
    (hs : findings ⊆ findings') : Keeps sections findings' := by
  refine ⟨?_, ?_⟩
  · intro before s after hsplit label items hitems name hname
    exact (h.names before s after hsplit label items hitems name hname).imp_right fun he => he.mono hs fun _ hp => hp
  · intro before s after hsplit label groups hgroups g hg t ht
    exact (h.transitions before s after hsplit label groups hgroups g hg t ht).imp_right fun he =>
      he.mono hs fun _ hp => hp

theorem Report.diagnostics_eq (r : Report) (source : String) :
    r.diagnostics source = (r.entries.toList.filter Entry.isError).map fun e =>
      ⟨e.remark.place.map fun s => Text.lineOf source.toList s.start, e.remark.message⟩ := by
  rw [Report.diagnostics, ← List.filterMap_eq_map, List.filterMap_filter]
  rfl

/-- There is no automaton exactly when something found is an error: without an error the
    check has an initial state. -/
theorem automaton_eq_none :
    (Definition.ofReading r).automaton = none ↔ (Definition.ofReading r).findings.any Finding.isError = true := by
  simp only [Definition.ofReading_eq]
  split
  · next h => simp [h]
  · next h =>
    have hclean : Clean (checkSections r.sections).findings :=
      (clean_append.mp (any_isError_eq_false.mp (by simpa using h))).2
    obtain ⟨a, ha, -⟩ := checkSections_describes hclean
    rw [ha]
    exact iff_of_false (by simp) h

theorem exists_error_iff :
    (∃ m, load source = .error m) ↔ (Definition.ofSource source).automaton = none := by
  simp [load_eq_error_iff]

/-- The findings of a reading and of its check are findings of the definition. -/
theorem findings_subset (source : String) :
    (readSections (linesOf (scan source))).findings ⊆ (Definition.ofSource source).findings ∧
      (checkSections (readDefinition source).sections).findings ⊆ (Definition.ofSource source).findings := by
  rw [Definition.findings_ofSource]
  refine ⟨?_, List.subset_append_right ..⟩
  exact List.Subset.trans (List.subset_append_right ..) (List.subset_append_left ..)

end Failure

/-- Failure and errors go together, and nothing is left out without an error. -/
theorem failure_diagnosed (source : String) : Diagnosed source (Definition.ofSource source) := by
  obtain ⟨hread, hcheck⟩ := findings_subset source
  have hentries : (Definition.ofSource source).report.entries.toList =
      (Definition.ofSource source).findings.map Finding.entry := Report.toList_entries_ofFindings _
  have hflag : (Definition.ofSource source).report.hasError = (Definition.ofSource source).findings.any Finding.isError :=
    Report.hasError_ofFindings _
  have hentered : (Definition.ofSource source).findings.any Finding.isError = true ↔
      ∃ e ∈ (Definition.ofSource source).report.entries.toList, e.isError = true := by
    rw [hentries, List.any_eq_true]
    simp only [List.mem_map, exists_exists_and_eq_and]
    rfl
  have hnone : (Definition.ofSource source).automaton = none ↔
      (Definition.ofSource source).findings.any Finding.isError = true := automaton_eq_none
  refine ⟨hnone.trans (hflag ▸ Iff.rfl), hflag ▸ hentered, ?_, ?_, hentries, ?_, ?_, ?_⟩
  · exact exists_error_iff.trans (hnone.trans hentered)
  · intro m hm
    obtain ⟨e, he, herror⟩ := (exists_error_iff.trans (hnone.trans hentered)).mp ⟨m, hm⟩
    rw [diagnostics_of_load hm, Report.diagnostics_eq]
    refine ⟨?_, rfl⟩
    exact List.ne_nil_of_mem (List.mem_map_of_mem (List.mem_filter.mpr ⟨he, herror⟩))
  · intro l hl i hi
    obtain ⟨parts, haccounts⟩ := exists_accounts source
    rw [sections_readDefinition]
    exact (haccounts.word (linesOf_pairwise 0 source.toList) hl hi).imp_right fun he => he.mono hread fun _ hp => hp
  · exact (checkSections_keeps _).mono hcheck
  · intro a ha
    obtain ⟨sections, hr, -, hd⟩ := load_eq_ok.mp ha
    rw [hr]
    exact hd

end Pushdown
