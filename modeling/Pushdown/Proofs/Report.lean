/-
  Pushdown.Proofs.Report — the entries of a report and whether it holds an error.

  The report on findings has their entries in order (`toList_entries_ofFindings`), and the
  error flag, though it is kept apart from the entries, says whether a finding is an error
  (`hasError_ofFindings`). The diagnostics are those of the errors among the findings, in
  order (`diagnostics_ofFindings`). `Finding.At` says where a finding and its notes are:
  for all problems but one, where the problem is.
-/

import Pushdown.Problem
import Pushdown.Report.Diagnostic

namespace Pushdown

/-- What a reader without the text is told of a finding. -/
def Finding.diagnostic (source : List Char) (f : Finding) : Diagnostic :=
  ⟨f.place.map fun s => Text.lineOf source s.start, f.problem.message⟩

/-- A problem that points to no place but its own. -/
def Problem.Plain : Problem → Prop
  | .transitionRepeated _ => False
  | _ => True

/-- A finding and all its notes are at places of some kind, or at none. -/
def Finding.At (P : Span → Prop) (f : Finding) : Prop := ∀ r ∈ f.entry.chain, ∀ s ∈ r.place, P s

/-- An error at a place of some kind that points to no other place. -/
def Finding.ErrorAt (P : Span → Prop) (f : Finding) : Prop :=
  ∃ (p : Problem) (place : Span), f = p.here place ∧ p.severity = .error ∧ p.Plain ∧ P place

/-- The problems of characters and lines, which reading finds. -/
def Problem.OfReading : Problem → Prop
  | .invalidChar _ | .unexpected _ _ | .replacementUnclosed | .notATransition => True
  | .headerTooShallow | .notAHeader | .notASection => True
  | _ => False

/-- A problem that reading finds, at a place of some kind. -/
def Finding.ReadAt (P : Span → Prop) (f : Finding) : Prop :=
  ∃ (p : Problem) (place : Span), f = p.here place ∧ p.OfReading ∧ P place

section At

variable {P Q : Span → Prop} {place : Span}

theorem Finding.At.imp {f : Finding} (hf : f.At P) (h : ∀ s, P s → Q s) : f.At Q :=
  fun r hr s hs => h s (hf r hr s hs)

theorem Finding.at_iff {f : Finding} :
    f.At P ↔ (∀ s ∈ f.place, P s) ∧ ∀ r ∈ f.problem.notes, ∀ s ∈ r.place, P s :=
  List.forall_mem_cons

theorem Problem.Plain.notes {p : Problem} (h : p.Plain) : ∀ r ∈ p.notes, r.place = none := by
  cases p with
  | transitionRepeated => exact h.elim
  | transitionSymbolUndeclared listed =>
    cases listed with
    | true => nofun
    | false => exact List.forall_mem_singleton.mpr rfl
  | notATransition => exact List.forall_mem_singleton.mpr rfl
  | notAHeader => exact List.forall_mem_singleton.mpr rfl
  | _ => nofun

theorem Problem.Plain.at_nowhere {p : Problem} (h : p.Plain) : p.nowhere.At P := by
  refine Finding.at_iff.mpr ⟨nofun, ?_⟩
  intro r hr s hs
  cases (h.notes r hr).symm.trans hs

theorem Problem.Plain.at_here {p : Problem} (h : p.Plain) (hs : P place) : (p.here place).At P := by
  refine Finding.at_iff.mpr ⟨?_, (Finding.at_iff.mp h.at_nowhere).2⟩
  intro s hs'
  exact Option.some.inj hs' ▸ hs

theorem errorAt_here {p : Problem} (he : p.severity = .error) (hp : p.Plain) (hs : P place) : (p.here place).ErrorAt P :=
  ⟨p, place, rfl, he, hp, hs⟩

namespace Finding.ErrorAt

variable {f : Finding}

theorem isError (h : f.ErrorAt P) : f.isError = true := by
  obtain ⟨p, place, rfl, he, -, -⟩ := h
  exact beq_iff_eq.mpr he

theorem at_place (h : f.ErrorAt P) : f.At P := by
  obtain ⟨p, place, rfl, -, hp, hs⟩ := h
  exact hp.at_here hs

theorem imp (h : f.ErrorAt P) (hpq : ∀ s, P s → Q s) : f.ErrorAt Q := by
  obtain ⟨p, place, rfl, he, hp, hs⟩ := h
  exact ⟨p, place, rfl, he, hp, hpq place hs⟩

end Finding.ErrorAt

theorem readAt_here {p : Problem} (hp : p.OfReading) (hs : P place) : (p.here place).ReadAt P := ⟨p, place, rfl, hp, hs⟩

theorem Finding.ReadAt.errorAt {f : Finding} (h : f.ReadAt P) : f.ErrorAt P := by
  obtain ⟨p, place, rfl, hp, hs⟩ := h
  cases p <;> first | exact errorAt_here rfl (by trivial) hs | exact hp.elim

/-- A transition that stands twice points back to where it stands first. -/
theorem at_transitionRepeated {previous : Span} (hs : P place) (hp : P previous) :
    ((Problem.transitionRepeated previous).here place).At P := by
  refine Finding.at_iff.mpr ⟨?_, ?_⟩
  · intro s hs'
    exact Option.some.inj hs' ▸ hs
  · intro r hr s hs'
    obtain rfl := List.mem_singleton.mp hr
    exact Option.some.inj hs' ▸ hp

end At

namespace Report

theorem emitAll_cons (r : Report) (e : Entry) (rest : List Entry) :
    r.emitAll (e :: rest) = r.emit e >>= fun next => next.emitAll rest := List.foldlM_cons

theorem toList_entries_emitAll (r : Report) (entries : List Entry) :
    (r.emitAll entries).result.entries.toList = r.entries.toList ++ entries := by
  induction entries generalizing r with
  | nil => simp [emitAll]
  | cons e rest ih =>
    rw [emitAll_cons, Recorded.result_bind, ih, toList_entries_emit, List.append_assoc, List.singleton_append]

theorem hasError_emitAll (r : Report) (entries : List Entry) :
    (r.emitAll entries).result.hasError = (r.hasError || entries.any Entry.isError) := by
  induction entries generalizing r with
  | nil => simp [emitAll]
  | cons e rest ih => rw [emitAll_cons, Recorded.result_bind, ih, hasError_emit, List.any_cons, Bool.or_assoc]

/-- What is noted of each entry, in their order. -/
theorem journal_emitAll (r : Report) (entries : List Entry) :
    (r.emitAll entries).journal = entries.filterMap Entry.record? := by
  induction entries generalizing r with
  | nil => rfl
  | cons e rest ih =>
    have hemit : (r.emit e).journal = e.record?.toList := rfl
    rw [emitAll_cons, Recorded.journal_bind, ih, hemit, List.filterMap_cons]
    cases e.record? <;> rfl

theorem journal_emitAll_entries (findings : List Finding) :
    (empty.emitAll (findings.map Finding.entry)).journal = findings.filterMap fun f => f.entry.record? := by
  rw [journal_emitAll, List.filterMap_map]
  rfl

@[simp] theorem toList_entries_ofFindings (findings : List Finding) :
    (ofFindings findings).entries.toList = findings.map Finding.entry :=
  toList_entries_emitAll empty _

@[simp] theorem hasError_ofFindings (findings : List Finding) :
    (ofFindings findings).hasError = findings.any Finding.isError := by
  rw [ofFindings, ofEntries, hasError_emitAll, List.any_map]
  rfl

theorem diagnostics_ofFindings (source : String) (findings : List Finding) :
    (ofFindings findings).diagnostics source =
      (findings.filter Finding.isError).map (Finding.diagnostic source.toList) := by
  have hentry : ∀ f : Finding, f.entry.diagnostic? source.toList =
      if f.isError then some (f.diagnostic source.toList) else none := fun f => rfl
  rw [diagnostics, toList_entries_ofFindings, List.filterMap_map, ← List.filterMap_eq_map, List.filterMap_filter]
  exact congrArg (List.filterMap · findings) (funext hentry)

end Report

end Pushdown
