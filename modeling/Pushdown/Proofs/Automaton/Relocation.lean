/-
  Pushdown.Proofs.Automaton.Relocation — sections at other places are checked alike.

  The check carries places along, from the names into the tables and into the findings, but
  decides by the names alone: sections at other places have the same automaton and the same
  findings, at other places (`ofReading_move`). The automaton is written the same and runs
  the same, and the diagnostics are the same where every offset has gone to an offset on its
  line (`diagnostic_move`).
-/

import Pushdown.Automaton.Canonical
import Pushdown.Proofs.Automaton.Declaration
import Pushdown.Proofs.Relocation
import Pushdown.Proofs.Report
import Pushdown.Proofs.Run.Meaning
import Pushdown.Proofs.Table

namespace Pushdown

variable {m : Relocation}

/-! ## Tables -/

namespace Table

variable {κ α β : Type} {f : α → β} {t : Table κ α}

theorem put_map [DecidableEq κ] (key : κ) (value : α) (entries : List (κ × α)) :
    put key (f value) (entries.map fun entry => (entry.1, f entry.2)) =
      (put key value entries).map fun entry => (entry.1, f entry.2) := by
  induction entries with
  | nil => rfl
  | cons entry rest ih =>
    rw [List.map_cons, put, put]
    split
    · rfl
    · rw [ih, List.map_cons]

@[simp] theorem mapValues_empty : (∅ : Table κ α).mapValues f = ∅ := rfl

theorem mapValues_insert [DecidableEq κ] (key : κ) (value : α) :
    (t.insert key value).mapValues f = (t.mapValues f).insert key (f value) :=
  ext_entries (put_map key value t.entries).symm

theorem get?_mapValues [DecidableEq κ] (key : κ) : (t.mapValues f).get? key = (t.get? key).map f := by
  simp [get?, mapValues, List.find?_map, Function.comp_def]

@[simp] theorem mapValues_value_move (t : Table κ (Located α)) :
    (t.mapValues (Located.move m)).mapValues Located.value = t.mapValues Located.value :=
  ext_entries (List.map_map ..)

@[simp] theorem contains_mapValues [DecidableEq κ] (key : κ) : (t.mapValues f).contains key = t.contains key := by
  rw [contains, keys_mapValues, contains]

end Table

/-! ## Labels -/

theorem kind?_move (s : Section) : (s.move m).kind? = s.kind? := by
  cases s <;> rfl

theorem label_move (s : Section) : (s.move m).label = s.label.move m := by
  cases s <;> rfl

theorem names?_move (kind : SectionKind) (s : Section) :
    (s.move m).names? kind = (s.names? kind).map (Located.moveWith m (List.map (Located.move m))) := by
  cases s with
  | list label items =>
    by_cases h : SectionKind.ofListLabel? label.value = some kind <;> simp [Section.move, Section.names?, h]
  | transitions label groups => rfl

theorem groups?_move (s : Section) :
    (s.move m).groups? = s.groups?.map (List.map (Located.moveWith m (StateGroup.move m))) := by
  cases s <;> rfl

theorem checkLabels_move (seen : List SectionKind) (sections : List (Located Section)) :
    checkLabels seen (sections.map (Located.moveWith m (Section.move m))) =
      (checkLabels seen sections).map (Finding.move m) := by
  induction sections generalizing seen with
  | nil => rfl
  | cons s rest ih =>
    simp only [List.map_cons, checkLabels, Located.value_moveWith, kind?_move, label_move, ih]
    cases s.value.kind? with
    | none => rfl
    | some kind =>
      simp only
      split <;> rfl

theorem lastNames_move (kind : SectionKind) (sections : List (Located Section)) :
    lastNames kind (sections.map (Located.moveWith m (Section.move m))) =
      (lastNames kind sections).map (Located.moveWith m (List.map (Located.move m))) := by
  rw [lastNames, lastNames, List.filterMap_map, ← List.getLast?_map, List.map_filterMap]
  simp only [Function.comp_def, Located.value_moveWith, names?_move]

theorem lastGroups_move (sections : List (Located Section)) :
    lastGroups (sections.map (Located.moveWith m (Section.move m))) =
      (lastGroups sections).map (List.map (Located.moveWith m (StateGroup.move m))) := by
  rw [lastGroups, lastGroups, List.filterMap_map, ← List.getLast?_map, List.map_filterMap]
  simp only [Function.comp_def, Located.value_moveWith, groups?_move]

/-! ## Declarations -/

section Declarations

variable {κ : Type} [DecidableEq κ] {accept : String → Except Problem κ} {repeated : Problem}

theorem Problem.Plain.move {p : Problem} (h : p.Plain) : p.move m = p := by
  cases p with
  | transitionRepeated => exact h.elim
  | _ => rfl

theorem here_move {p : Problem} (h : p.Plain) (place : Span) : (p.here place).move m = p.here (place.move m) := by
  rw [Problem.here, Finding.move, h.move]
  rfl

theorem declare_move (haccept : RefusesPlainly accept) (hrepeated : repeated.Plain)
    (table : Table κ Span) (names : List Ident) :
    declare accept repeated (table.mapValues (Span.move m)) (names.map (Located.move m)) =
      (declare accept repeated table names).move m (Table.mapValues (Span.move m)) := by
  induction names generalizing table with
  | nil => rfl
  | cons name rest ih =>
    simp only [List.map_cons, declare, Located.value_move, Located.span_move]
    cases hk : accept name.value with
    | error p =>
      simp only [ih, Checked.move, List.map_cons, here_move (haccept _ _ hk)]
    | ok key =>
      simp only [← Table.mapValues_insert, ih, Table.contains_mapValues, Checked.move]
      split
      · rw [List.map_cons, here_move hrepeated]
      · rfl

theorem declareSome_move {missing empty : Problem} (haccept : RefusesPlainly accept)
    (hrepeated : repeated.Plain) (hmissing : missing.Plain) (hempty : empty.Plain)
    (names : Option (Located (List Ident))) :
    declareSome accept repeated missing empty (names.map (Located.moveWith m (List.map (Located.move m)))) =
      (declareSome accept repeated missing empty names).move m (Table.mapValues (Span.move m)) := by
  cases names with
  | none => simp [declareSome, Checked.move, Problem.nowhere, Finding.move, hmissing.move]
  | some names =>
    have hdeclare := @declare_move m _ _ _ _ haccept hrepeated ∅ names.value
    rw [Table.mapValues_empty] at hdeclare
    simp only [declareSome, Option.map_some, Located.value_moveWith, Located.span_moveWith, hdeclare, Checked.move,
      List.map_append, List.isEmpty_map]
    cases names.value.isEmpty with
    | true => simp [here_move hempty]
    | false => simp

end Declarations

theorem acceptHalting_mapValues (kind : Halting) (states : Table State Span) :
    acceptHalting kind (states.mapValues (Span.move m)) = acceptHalting kind states := by
  funext name
  simp [acceptHalting]

section Lists

variable (names : Option (Located (List Ident))) (states : Table State Span)

theorem checkStates_move :
    checkStates (names.map (Located.moveWith m (List.map (Located.move m)))) =
      (checkStates names).move m (Table.mapValues (Span.move m)) :=
  declareSome_move refusesPlainly_state (by trivial) (by trivial) (by trivial) names

theorem checkAlphabet_move :
    checkAlphabet (names.map (Located.moveWith m (List.map (Located.move m)))) =
      (checkAlphabet names).move m (Table.mapValues (Span.move m)) :=
  declareSome_move refusesPlainly_letter (by trivial) (by trivial) (by trivial) names

theorem checkStackAlphabet_move :
    checkStackAlphabet (names.map (Located.moveWith m (List.map (Located.move m)))) =
      (checkStackAlphabet names).move m (Option.map (Table.mapValues (Span.move m))) := by
  cases names with
  | none => rfl
  | some names =>
    have hdeclare := @declare_move m _ _ _ .symbolRepeated refusesPlainly_symbol (by trivial) ∅ names.value
    rw [Table.mapValues_empty] at hdeclare
    simp only [checkStackAlphabet, Option.map_some, Located.value_moveWith]
    rw [hdeclare]
    rfl

theorem checkInitial_move :
    checkInitial (states.mapValues (Span.move m)) (names.map (Located.moveWith m (List.map (Located.move m)))) =
      (checkInitial states names).move m id := by
  match names with
  | none => rfl
  | some ⟨[], _⟩ => rfl
  | some ⟨[name], _⟩ =>
    simp only [checkInitial, Option.map_some, Located.moveWith, List.map_cons, List.map_nil, Located.value_move,
      Located.span_move, Table.contains_mapValues]
    split <;> rfl
  | some ⟨_ :: _ :: _, _⟩ => rfl

theorem checkHalting_move {missing : Problem} (hmissing : missing.Plain) (kind : Halting) :
    checkHalting kind missing (states.mapValues (Span.move m))
        (names.map (Located.moveWith m (List.map (Located.move m)))) =
      (checkHalting kind missing states names).move m (Table.mapValues (Span.move m)) := by
  cases names with
  | none => simp [checkHalting, Checked.move, Problem.nowhere, Finding.move, hmissing.move]
  | some names =>
    have hdeclare := @declare_move m _ _ _ (.haltingRepeated kind) (refusesPlainly_halting kind states) (by trivial) ∅
      names.value
    rw [Table.mapValues_empty] at hdeclare
    simp only [checkHalting, Option.map_some, Located.value_moveWith, acceptHalting_mapValues]
    rw [hdeclare]

theorem checkOverlap_move (final rejecting : Table State Span) :
    checkOverlap (final.mapValues (Span.move m)) (rejecting.mapValues (Span.move m)) =
      (checkOverlap final rejecting).map (Finding.move m) := by
  simp only [checkOverlap, Table.contains_mapValues]
  rw [Table.mapValues, List.filter_map, List.map_map, List.map_map]
  rfl

end Lists

/-! ## Transitions -/

namespace Declared

variable (d : Declared)

theorem hasSymbol_move (s : Symbol) : (d.move m).hasSymbol s = d.hasSymbol s := by
  simp only [hasSymbol, move]
  cases d.stackAlphabet <;> simp

theorem state_move (name : Ident) : (d.move m).state (name.move m) = moveResult m id (d.state name) := by
  simp only [state, move, Table.contains_mapValues, Located.value_move, Located.span_move]
  split <;> rfl

theorem letter_move (name : Ident) : (d.move m).letter (name.move m) = moveResult m id (d.letter name) := by
  simp only [letter, move, Table.contains_mapValues, Located.value_move, Located.span_move]
  split
  · rfl
  · split <;> rfl

theorem stackSymbol_move (name : Ident) :
    (d.move m).stackSymbol (name.move m) = moveResult m id (d.stackSymbol name) := by
  have hlisted : (d.move m).stackAlphabet.isSome = d.stackAlphabet.isSome := Option.isSome_map
  simp only [stackSymbol, hasSymbol_move, Located.value_move, Located.span_move, hlisted]
  split
  · rfl
  · split
    · rfl
    · split <;> rfl

theorem pushed_move (bottomFits : Bool) (name : Ident) :
    (d.move m).pushed bottomFits (name.move m) = moveResult m id (d.pushed bottomFits name) := by
  simp only [pushed, stackSymbol_move, Located.span_move]
  cases d.stackSymbol name with
  | error f => rfl
  | ok s =>
    cases s with
    | symbol x => rfl
    | stackEnd =>
      simp only [moveResult, id]
      split <;> rfl

theorem replacement_move (top : Option StackSymbol) (names : List Ident) :
    (d.move m).replacement top (names.map (Located.move m)) = (d.replacement top names).map (moveResult m id) := by
  cases names with
  | nil => rfl
  | cons first rest =>
    have hrest : (d.move m).pushed false ∘ Located.move m = moveResult m id ∘ d.pushed false :=
      funext fun name => pushed_move d false name
    simp only [replacement, List.map_cons, List.map_map, pushed_move, hrest]

end Declared

section Results

variable {α : Type}

theorem fault?_moveResult (inner : α → α) (r : Except Finding α) :
    fault? (moveResult m inner r) = (fault? r).map (Finding.move m) := by
  cases r <;> rfl

theorem allOk?_map_moveResult (parts : List (Except Finding α)) :
    allOk? (parts.map (moveResult m id)) = allOk? parts := by
  induction parts with
  | nil => rfl
  | cons part rest ih =>
    cases part with
    | error f => rfl
    | ok a => exact congrArg (Option.map (a :: ·)) ih

theorem filterMap_fault?_map_moveResult (parts : List (Except Finding α)) :
    (parts.map (moveResult m id)).filterMap fault? = (parts.filterMap fault?).map (Finding.move m) := by
  rw [List.filterMap_map, List.map_filterMap]
  exact congrArg (List.filterMap · parts) (funext (fault?_moveResult id))

theorem toOption_moveResult (r : Except Finding α) : (moveResult m id r).toOption = r.toOption := by
  cases r <;> rfl

end Results

theorem resolve_move (d : Declared) (state : State) (t : TransitionLine) :
    resolve (d.move m) state (t.move m) = (resolve d state t).mapError (List.map (Finding.move m)) := by
  simp only [resolve, TransitionLine.move, Declared.letter_move, Declared.stackSymbol_move, Declared.state_move,
    toOption_moveResult, Located.value_moveWith, Declared.replacement_move, allOk?_map_moveResult, fault?_moveResult,
    filterMap_fault?_map_moveResult]
  generalize d.replacement _ _ = push
  generalize d.letter t.letter = letter
  generalize d.stackSymbol t.top = top
  generalize d.state t.next = next
  have hfaults : ((fault? letter).map (Finding.move m)).toList ++ ((fault? top).map (Finding.move m)).toList ++
      ((fault? next).map (Finding.move m)).toList ++ (push.filterMap fault?).map (Finding.move m) =
      ((fault? letter).toList ++ (fault? top).toList ++ (fault? next).toList ++
        push.filterMap fault?).map (Finding.move m) := by
    simp only [Option.toList_map, List.map_append]
  rw [hfaults]
  cases letter with
  | error f => rfl
  | ok letter =>
    cases top with
    | error f => rfl
    | ok top =>
      cases next with
      | error f => rfl
      | ok next => cases allOk? push <;> rfl

theorem checkTransitions_move (d : Declared) (state : State) (moves : Table Situation (Located Move))
    (lines : List (Located TransitionLine)) :
    checkTransitions (d.move m) state (moves.mapValues (Located.move m))
        (lines.map (Located.moveWith m (TransitionLine.move m))) =
      (checkTransitions d state moves lines).move m (Table.mapValues (Located.move m)) := by
  induction lines generalizing moves with
  | nil => rfl
  | cons line rest ih =>
    simp only [List.map_cons, checkTransitions, Located.value_moveWith, resolve_move]
    cases resolve d state line.value with
    | error faults => simp [Except.mapError, ih, Checked.move]
    | ok entry =>
      simp only [Except.mapError, Table.get?_mapValues]
      cases moves.get? entry.1 with
      | some previous =>
        simp only [Option.map_some, ih]
        rfl
      | none =>
        have hinsert := @Table.mapValues_insert _ _ _ (Located.move m) moves _ entry.1 ⟨entry.2, line.span⟩
        simp only [Option.map_none, ← ih, hinsert]
        rfl

theorem checkGroups_move (d : Declared) (moves : Table Situation (Located Move))
    (groups : List (Located StateGroup)) :
    checkGroups (d.move m) (moves.mapValues (Located.move m)) (groups.map (Located.moveWith m (StateGroup.move m))) =
      (checkGroups d moves groups).move m (Table.mapValues (Located.move m)) := by
  induction groups generalizing moves with
  | nil => rfl
  | cons group rest ih =>
    simp only [List.map_cons, checkGroups, Located.value_moveWith, StateGroup.move, Declared.state_move]
    cases d.state group.value.state with
    | error f => simp [moveResult, ih, Checked.move]
    | ok state => simp [moveResult, checkTransitions_move, ih, Checked.move]

theorem checkMoves_move (d : Declared) (groups : Option (List (Located StateGroup))) :
    checkMoves (d.move m) (groups.map (List.map (Located.moveWith m (StateGroup.move m)))) =
      (checkMoves d groups).move m (Table.mapValues (Located.move m)) := by
  cases groups with
  | none => rfl
  | some groups => exact checkGroups_move d ∅ groups

/-! ## All sections -/

theorem checkSections_move (sections : List (Located Section)) :
    checkSections (sections.map (Located.moveWith m (Section.move m))) =
      (checkSections sections).move m (Blueprint.move m) := by
  have hfinal := fun names states => @checkHalting_move m names states .finalMissing (by trivial) .final
  have hrejecting := fun names states => @checkHalting_move m names states .rejectingMissing (by trivial) .rejecting
  have hmoves := fun states alphabet symbols groups => @checkMoves_move m ⟨states, alphabet, symbols⟩ groups
  simp only [Declared.move] at hmoves
  simp only [checkSections, lastNames_move, lastGroups_move, checkLabels_move, checkStates_move, checkAlphabet_move,
    checkStackAlphabet_move, Checked.move, checkInitial_move, hfinal, hrejecting, checkOverlap_move, hmoves,
    Table.mapValues_value_move, List.map_append]
  rfl

theorem automaton?_move (b : Blueprint) : (b.move m).automaton? = b.automaton?.map (Automaton.move m) := by
  simp only [Blueprint.automaton?, Option.map_map]
  rfl

/-- The definition of what is read at other places is the same at other places. -/
theorem ofReading_move (r : Reading) : Definition.ofReading (r.move m) = (Definition.ofReading r).move m := by
  simp only [Definition.ofReading_eq, Reading.move, checkSections_move, Checked.move, ← List.map_append,
    any_isError_move, automaton?_move]
  split
  · rfl
  · rfl

/-! ## What is told of a definition -/

/-- A finding is on the line it was on if its offset is. -/
theorem diagnostic_move {source source' : List Char} (h : ∀ i, Text.lineOf source' (m.offset i) = Text.lineOf source i)
    (f : Finding) : (f.move m).diagnostic source' = f.diagnostic source := by
  obtain ⟨problem, place⟩ := f
  cases place with
  | none => simp [Finding.diagnostic, Finding.move]
  | some s => simp [Finding.diagnostic, Finding.move, h]

theorem errors_move (findings : List Finding) :
    (findings.map (Finding.move m)).filter Finding.isError = (findings.filter Finding.isError).map (Finding.move m) := by
  rw [List.filter_map]
  exact congrArg (fun p => (findings.filter p).map _) (funext Finding.isError_move)

namespace Automaton

variable (a : Automaton)

/-- An automaton is written the same wherever its names stand. -/
theorem canonical_move : (a.move m).canonical = a.canonical := by
  have hstack : ((a.move m).stackAlphabet.map fun symbols => listLine .stackAlphabet (symbols.keys.map Symbol.name)) =
      a.stackAlphabet.map fun symbols => listLine .stackAlphabet (symbols.keys.map Symbol.name) := by
    simp [move, Option.map_map, Function.comp_def]
  rw [canonical, canonicalLines, hstack, canonical, canonicalLines]
  simp only [move, Table.keys_mapValues]
  rfl

theorem alike_move : a.Alike (a.move m) where
  initial := rfl
  isFinal q := (Table.contains_mapValues q).symm
  isRejecting q := (Table.contains_mapValues q).symm
  move? _ := rfl

end Automaton

end Pushdown
