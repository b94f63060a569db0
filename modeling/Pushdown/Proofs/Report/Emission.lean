/-
  Pushdown.Proofs.Report.Emission — what a report keeps of remarks made about remarks.

  Every remark on a report stays, as it was made; of the notes on an entry, and of those on
  a note, the last one stays, with what stayed of its own (`Emission.entry`). The notes are
  made in place, on an entry that stands in the report already, and `emitTree_report` says
  that this comes to the same as adding the entry with all its notes at once: that is how
  the rest of the library adds them (`ofEntries_eq_ofEmissions`).

  `ofEmissions_keeps`: so what is left is, for each remark on the report, the way down from
  it along the last notes (`LastPath`), and there is an error from the first remark on that
  is one, whatever its notes are. This holds at each moment on the way (`stages`), and a note
  touches no entry but the one it is made under (`SameBut`, which one remark keeps by
  `sameBut_emitOn` and any number of them by `sameBut_stages`).
-/

import Mathlib.Data.List.Forall2
import Mathlib.Data.List.Infix
import Pushdown.Proofs.Report
import Pushdown.Report.Emission
import Pushdown.Report.Excerpt

namespace Pushdown

namespace Emission

/-- What holds of a remark with its notes if it holds whenever it holds of the notes. -/
@[elab_as_elim]
theorem induction_on {P : Emission → Prop} (e : Emission)
    (node : ∀ remark notes, (∀ note ∈ notes, P note) → P (node remark notes)) : P e :=
  @Emission.rec P (fun notes => ∀ note ∈ notes, P note) node (by simp)
    (fun _ _ h ih => List.forall_mem_cons.mpr ⟨h, ih⟩) e

/-- The way down from a remark: from each one on to the last note on it. -/
inductive LastPath : Emission → List Remark → Prop
  | ends (r : Remark) : LastPath (node r []) [r]
  | goesOn (r : Remark) (earlier : List Emission) {last : Emission} {path : List Remark} :
      LastPath last path → LastPath (node r (earlier ++ [last])) (r :: path)

mutual

/-- What is left of a remark and of the notes on it. -/
def entry : Emission → Entry
  | node r notes => annotateAll (.ofRemark r) notes

/-- An entry after some notes on it, each made in place of the one before. -/
def annotateAll (e : Entry) : List Emission → Entry
  | [] => e
  | note :: rest => annotateAll (e.annotate note.entry) rest

end

/-- Whether a remark is an error, whatever the notes on it are. -/
def isError (e : Emission) : Bool := e.remark.severity == .error

end Emission

namespace Report

/-- What a report keeps of the remarks made on it. -/
structure Keeps (emissions : List Emission) (r : Report) : Prop where
  /-- One entry each, in order, with the severity, the message and the place it came with. -/
  remarks : r.entries.toList.map Entry.remark = emissions.map Emission.remark
  /-- Each chain is the way down along the last notes. -/
  chains : List.Forall₂ (fun e kept => ∀ path, e.LastPath path ↔ kept.chain = path) emissions r.entries.toList
  /-- So is what is shown of it. -/
  shown : ∀ source, List.Forall₂ (fun e text => ∀ path, e.LastPath path →
    text = String.join (path.map (Remark.render source.toList))) emissions (r.render source)
  hasError : r.hasError = true ↔ ∃ e ∈ emissions, e.remark.severity = .error

mutual

/-- The reports on the way through a remark and its notes: one after each that is made. -/
def stages (r : Report) (sink : Sink) : Emission → List Report
  | .node remark notes =>
    let (made, here) := r.emitOn remark sink
    made :: made.stagesAll here notes

/-- The reports on the way through remarks on one sink. -/
def stagesAll (r : Report) (sink : Sink) : List Emission → List Report
  | [] => []
  | e :: rest => r.stages sink e ++ (r.emitTree sink e).stagesAll sink rest

end

/-- A report while a remark on `start` is being made and noted on: the entries of before
    stand as they did, and the new one is the only one that notes have come to. -/
structure Amid (start : Report) (e : Emission) (r : Report) : Prop where
  entries : ∃ notes, r.entries = start.entries.push ⟨e.remark, notes⟩
  hasError : r.hasError = true ↔ start.hasError = true ∨ e.remark.severity = .error

/-- Two reports that may differ in the notes of one entry, and in nothing else. -/
structure SameBut (index : Nat) (r r' : Report) : Prop where
  others : ∀ j, j ≠ index → r'.entries[j]? = r.entries[j]?
  remark : r'.entries[index]?.map Entry.remark = r.entries[index]?.map Entry.remark
  hasError : r'.hasError = r.hasError

end Report

/-! ## Changing an entry in place -/

namespace Entry

variable {f g h : Entry → Entry}

theorem change_self (depth : Nat) (e : Entry) : change (fun e => e) depth e = e := by
  induction depth generalizing e with
  | zero => rfl
  | succ depth ih =>
    obtain ⟨r, _ | ⟨note, notes⟩⟩ := e
    · rfl
    · exact congrArg (annotate ⟨r, []⟩) (ih ⟨note, notes⟩)

/-- A change, and then one further down in what it left, are one change. -/
theorem change_change {further : Nat} (he : ∀ e, change g further (f e) = h e) (depth : Nat) (e : Entry) :
    change g (depth + further) (change f depth e) = change h depth e := by
  induction depth generalizing e with
  | zero =>
    rw [Nat.zero_add]
    exact he e
  | succ depth ih =>
    rw [Nat.add_right_comm]
    obtain ⟨r, _ | ⟨note, notes⟩⟩ := e
    · rfl
    · exact congrArg (annotate ⟨r, []⟩) (ih ⟨note, notes⟩)

@[simp] theorem remark_annotate (e note : Entry) : (e.annotate note).remark = e.remark := rfl

theorem remark_change (hf : ∀ e, (f e).remark = e.remark) (depth : Nat) (e : Entry) :
    (change f depth e).remark = e.remark := by
  cases depth with
  | zero => exact hf e
  | succ depth =>
    obtain ⟨r, _ | ⟨note, notes⟩⟩ := e
    · rfl
    · rfl

end Entry

namespace Report

section InPlace

variable (r : Report) (index depth : Nat)

theorem change_self : r.change index depth (fun e => e) = r := by
  have hentries : r.entries.modify index (Entry.change (fun e => e) depth) = r.entries := by
    apply Array.toList_inj.mp
    rw [Array.toList_modify, funext (Entry.change_self depth)]
    exact List.modify_id index r.entries.toList
  exact congrArg (Report.mk · r.hasError) hentries

theorem change_change {f g h : Entry → Entry} (further : Nat) (he : ∀ e, Entry.change g further (f e) = h e) :
    (r.change index depth f).change index (depth + further) g = r.change index depth h := by
  have hcomp : Entry.change g (depth + further) ∘ Entry.change f depth = Entry.change h depth :=
    funext (Entry.change_change he depth)
  have hentries : (r.entries.modify index (Entry.change f depth)).modify index (Entry.change g (depth + further)) =
      r.entries.modify index (Entry.change h depth) := by
    apply Array.toList_inj.mp
    rw [Array.toList_modify, Array.toList_modify, Array.toList_modify, List.modify_modify_eq, hcomp]
  exact congrArg (Report.mk · r.hasError) hentries

end InPlace

mutual

/-- Notes made in place amount to one note: what is left of it in the end. -/
theorem emitTree_entry (r : Report) (index depth : Nat) (e : Emission) :
    r.emitTree (.entry index depth) e = r.change index depth fun kept => kept.annotate e.entry := by
  cases e with
  | node remark notes =>
    show (r.change index depth fun kept => kept.annotate (.ofRemark remark)).emitTrees (.entry index (depth + 1)) notes = _
    rw [emitTrees_entry]
    -- the notes are made on the note that was just made, one further down
    exact change_change r index depth 1 fun _ => rfl

theorem emitTrees_entry (r : Report) (index depth : Nat) (notes : List Emission) :
    r.emitTrees (.entry index depth) notes = r.change index depth fun kept => Emission.annotateAll kept notes := by
  cases notes with
  | nil => exact (change_self r index depth).symm
  | cons note rest =>
    show (r.emitTree (.entry index depth) note).emitTrees (.entry index depth) rest = _
    rw [emitTrees_entry, emitTree_entry]
    exact change_change r index depth 0 fun _ => rfl

end

end Report

/-! ## What is left in the end -/

namespace Emission

theorem annotateAll_append_singleton (e : Entry) (earlier : List Emission) (last : Emission) :
    annotateAll e (earlier ++ [last]) = (annotateAll e earlier).annotate last.entry := by
  induction earlier generalizing e with
  | nil => rfl
  | cons note rest ih => exact ih (e.annotate note.entry)

@[simp] theorem remark_annotateAll (e : Entry) (notes : List Emission) : (annotateAll e notes).remark = e.remark := by
  induction notes generalizing e with
  | nil => rfl
  | cons note rest ih => exact ih (e.annotate note.entry)

@[simp] theorem remark_entry (e : Emission) : e.entry.remark = e.remark := by
  cases e with
  | node remark notes => exact remark_annotateAll (.ofRemark remark) notes

@[simp] theorem isError_entry (e : Emission) : e.entry.isError = e.isError :=
  congrArg (fun r : Remark => r.severity == .error) (remark_entry e)

theorem isError_iff (e : Emission) : e.isError = true ↔ e.remark.severity = .error := beq_iff_eq

/-- Of the notes on a remark only the last one matters. -/
theorem chain_entry_append_singleton (r : Remark) (earlier : List Emission) (last : Emission) :
    (node r (earlier ++ [last])).entry.chain = r :: last.entry.chain := by
  have hentry : (node r (earlier ++ [last])).entry = (annotateAll (.ofRemark r) earlier).annotate last.entry :=
    annotateAll_append_singleton (.ofRemark r) earlier last
  have hremark : (annotateAll (.ofRemark r) earlier).remark = r := remark_annotateAll (.ofRemark r) earlier
  rw [hentry, Entry.chain, Entry.annotate, hremark]

theorem lastPath_chain (e : Emission) : e.LastPath e.entry.chain := by
  induction e using induction_on with
  | node remark notes ih =>
    rcases List.eq_nil_or_concat' notes with rfl | ⟨earlier, last, rfl⟩
    · exact .ends remark
    · rw [chain_entry_append_singleton]
      exact .goesOn remark earlier (ih last List.mem_concat_self)

/-- What is left of a remark and its notes is the way down along the last ones. -/
theorem lastPath_iff {e : Emission} {path : List Remark} : e.LastPath path ↔ e.entry.chain = path := by
  constructor
  · intro h
    induction h with
    | ends r => rfl
    | goesOn r earlier _ ih => rw [chain_entry_append_singleton, ih]
  · rintro rfl
    exact lastPath_chain e

end Emission

namespace Report

/-- A remark on a report is an entry more, with what is left of its notes. -/
theorem emitTree_report (r : Report) (e : Emission) : r.emitTree .report e = (r.emit e.entry).result := by
  cases e with
  | node remark notes =>
    have hentries : (r.entries.push (.ofRemark remark)).modify r.entries.size (Emission.annotateAll · notes) =
        r.entries.push (Emission.annotateAll (.ofRemark remark) notes) := by
      apply Array.ext_getElem?
      intro j
      rw [Array.getElem?_modify, Array.getElem?_push, Array.getElem?_push]
      by_cases hj : r.entries.size = j
      · simp [hj]
      · rw [if_neg hj, if_neg (Ne.symm hj), if_neg (Ne.symm hj)]
    have hflag : (r.hasError || (Entry.ofRemark remark).isError) = (r.hasError || (Emission.node remark notes).entry.isError) := by
      rw [Emission.isError_entry]
      rfl
    calc r.emitTree .report (.node remark notes)
        = (r.emit (.ofRemark remark)).result.emitTrees (.entry r.entries.size 0) notes := rfl
      _ = (r.emit (.ofRemark remark)).result.change r.entries.size 0 (Emission.annotateAll · notes) :=
        emitTrees_entry _ _ _ notes
      _ = (r.emit (Emission.node remark notes).entry).result := congrArg₂ Report.mk hentries hflag

theorem emitTrees_report (r : Report) (emissions : List Emission) :
    r.emitTrees .report emissions = (r.emitAll (emissions.map Emission.entry)).result := by
  induction emissions generalizing r with
  | nil => rfl
  | cons e rest ih =>
    show (r.emitTree .report e).emitTrees .report rest = _
    rw [ih, emitTree_report, List.map_cons, emitAll_cons]
    rfl

theorem ofEmissions_eq (emissions : List Emission) : ofEmissions emissions = ofEntries (emissions.map Emission.entry) :=
  emitTrees_report empty emissions

@[simp] theorem toList_entries_ofEmissions (emissions : List Emission) :
    (ofEmissions emissions).entries.toList = emissions.map Emission.entry := by
  rw [ofEmissions_eq]
  exact toList_entries_emitAll empty _

theorem hasError_ofEmissions (emissions : List Emission) : (ofEmissions emissions).hasError = emissions.any Emission.isError := by
  rw [ofEmissions_eq, ofEntries, hasError_emitAll, List.any_map]
  exact congrArg (emissions.any ·) (funext Emission.isError_entry)

theorem errorFlags_eq (r : Report) (emissions : List Emission) :
    r.errorFlags emissions = emissions.inits.map fun made => r.hasError || made.any Emission.isError := by
  induction emissions generalizing r with
  | nil => simp [errorFlags]
  | cons e rest ih =>
    rw [errorFlags, ih, emitTree_report, List.inits_cons, List.map_cons, List.map_map]
    simp [Function.comp_def, Bool.or_assoc]

theorem keeps_ofEmissions (emissions : List Emission) : (ofEmissions emissions).Keeps emissions where
  remarks := by
    rw [toList_entries_ofEmissions, List.map_map]
    exact List.map_congr_left fun e _ => Emission.remark_entry e
  chains := by
    rw [toList_entries_ofEmissions, List.forall₂_map_right_iff, List.forall₂_same]
    intro e _ path
    exact Emission.lastPath_iff
  shown := by
    intro source
    rw [render, toList_entries_ofEmissions, List.map_map, List.forall₂_map_right_iff, List.forall₂_same]
    intro e _ path hpath
    rw [← Emission.lastPath_iff.mp hpath]
    rfl
  hasError := by
    rw [hasError_ofEmissions, List.any_eq_true]
    exact exists_congr fun e => and_congr_right fun _ => Emission.isError_iff e

/-! ## On the way -/

namespace SameBut

variable {index : Nat} {r₁ r₂ r₃ : Report}

theorem refl (index : Nat) (r : Report) : r.SameBut index r := ⟨fun _ _ => rfl, rfl, rfl⟩

theorem trans (h : r₁.SameBut index r₂) (h' : r₂.SameBut index r₃) : r₁.SameBut index r₃ where
  others := fun j hj => (h'.others j hj).trans (h.others j hj)
  remark := h'.remark.trans h.remark
  hasError := h'.hasError.trans h.hasError

end SameBut

theorem sameBut_emitOn (r : Report) (index depth : Nat) (remark : Remark) :
    r.SameBut index (r.emitOn remark (.entry index depth)).1 where
  others := by
    intro j hj
    show (r.entries.modify index _)[j]? = _
    rw [Array.getElem?_modify, if_neg (Ne.symm hj)]
  remark := by
    show (r.entries.modify index _)[index]?.map Entry.remark = _
    have hsame : Entry.remark ∘ Entry.change (·.annotate (.ofRemark remark)) depth = Entry.remark :=
      funext (Entry.remark_change (fun e => Entry.remark_annotate e (.ofRemark remark)) depth)
    rw [Array.getElem?_modify, if_pos rfl, Option.map_map, hsame]
  hasError := rfl

mutual

theorem emitTree_mem_stages (r : Report) (sink : Sink) (e : Emission) : r.emitTree sink e ∈ r.stages sink e := by
  cases e with
  | node remark notes => exact emitTrees_mem_stagesAll (r.emitOn remark sink).1 (r.emitOn remark sink).2 notes

/-- The way ends where the remarks have all been made. -/
theorem emitTrees_mem_stagesAll (r : Report) (sink : Sink) (emissions : List Emission) :
    r.emitTrees sink emissions ∈ r :: r.stagesAll sink emissions := by
  cases emissions with
  | nil => exact List.mem_singleton_self r
  | cons e rest =>
    refine List.mem_cons_of_mem r (List.mem_append.mpr ?_)
    rcases List.mem_cons.mp (emitTrees_mem_stagesAll (r.emitTree sink e) sink rest) with h | h
    · left
      show (r.emitTree sink e).emitTrees sink rest ∈ _
      rw [h]
      exact emitTree_mem_stages r sink e
    · exact Or.inr h

end

mutual

/-- A note, with the notes on it, touches no entry but the one it is made under. -/
theorem sameBut_stages (r : Report) (index depth : Nat) (e : Emission) :
    ∀ stage ∈ r.stages (.entry index depth) e, r.SameBut index stage := by
  cases e with
  | node remark notes =>
    have hstep := sameBut_emitOn r index depth remark
    refine List.forall_mem_cons.mpr ⟨hstep, ?_⟩
    intro stage hstage
    exact hstep.trans (sameBut_stagesAll _ index (depth + 1) notes stage hstage)

theorem sameBut_stagesAll (r : Report) (index depth : Nat) (notes : List Emission) :
    ∀ stage ∈ r.stagesAll (.entry index depth) notes, r.SameBut index stage := by
  cases notes with
  | nil => nofun
  | cons note rest =>
    have hfirst := sameBut_stages r index depth note
    refine List.forall_mem_append.mpr ⟨hfirst, ?_⟩
    intro stage hstage
    exact (hfirst _ (emitTree_mem_stages r _ note)).trans (sameBut_stagesAll _ index depth rest stage hstage)

end

theorem amid_of_sameBut {start stage : Report} {e : Emission}
    (h : (start.emit (.ofRemark e.remark)).result.SameBut start.entries.size stage) : start.Amid e stage where
  entries := by
    have hremark : stage.entries[start.entries.size]?.map Entry.remark = some e.remark := by
      rw [h.remark]
      exact congrArg (Option.map Entry.remark) Array.getElem?_push_size
    obtain ⟨kept, hkept, hr⟩ := Option.map_eq_some_iff.mp hremark
    refine ⟨kept.notes, ?_⟩
    rw [← hr]
    apply Array.ext_getElem?
    intro j
    by_cases hj : j = start.entries.size
    · rw [hj, hkept, Array.getElem?_push_size]
    · rw [h.others j hj, emit, Array.getElem?_push, Array.getElem?_push, if_neg hj, if_neg hj]
  hasError := by
    rw [h.hasError, hasError_emit, Bool.or_eq_true]
    exact or_congr_right (Emission.isError_iff e)

theorem amid_of_mem_stages {start stage : Report} {e : Emission} (h : stage ∈ start.stages .report e) :
    start.Amid e stage := by
  cases e with
  | node remark notes =>
    apply amid_of_sameBut
    rcases List.mem_cons.mp h with rfl | h
    · exact SameBut.refl _ _
    · exact sameBut_stagesAll _ _ _ notes stage h

end Report

/-! ## Entries that come with their notes -/

namespace Emission

/-- Remarks each of which is made on the one before. -/
def inTurn : List Remark → List Emission
  | [] => []
  | r :: rest => [node r (inTurn rest)]

/-- The remarks to make for an entry to be left of them. -/
def ofEntry (e : Entry) : Emission := node e.remark (inTurn e.notes)

theorem annotateAll_inTurn (r : Remark) (notes : List Remark) : annotateAll (.ofRemark r) (inTurn notes) = ⟨r, notes⟩ := by
  induction notes generalizing r with
  | nil => rfl
  | cons note rest ih =>
    show (Entry.ofRemark r).annotate (annotateAll (.ofRemark note) (inTurn rest)) = _
    rw [ih]
    rfl

theorem entry_ofEntry (e : Entry) : (ofEntry e).entry = e := annotateAll_inTurn e.remark e.notes

end Emission

namespace Report

/-- To add an entry with its notes is to make a remark and then each note on the one before. -/
theorem ofEntries_eq_ofEmissions (entries : List Entry) : ofEntries entries = ofEmissions (entries.map Emission.ofEntry) := by
  have hsame : Emission.entry ∘ Emission.ofEntry = id := funext Emission.entry_ofEntry
  rw [ofEmissions_eq, List.map_map, hsame, List.map_id]

/-! ## Main results -/

/-- What a report keeps in the end, and how it stands on the way there. -/
theorem ofEmissions_keeps (emissions : List Emission) :
    (ofEmissions emissions).Keeps emissions ∧
      empty.errorFlags emissions = emissions.inits.map (fun made => made.any Emission.isError) ∧
      (∀ before e after, emissions = before ++ e :: after →
        ∀ stage ∈ (ofEmissions before).stages .report e, (ofEmissions before).Amid e stage) ∧
      ∀ r index depth note, ∀ stage ∈ stages r (.entry index depth) note, r.SameBut index stage := by
  refine ⟨keeps_ofEmissions emissions, ?_, ?_, ?_⟩
  · exact errorFlags_eq empty emissions
  · intro before e _ _ stage hstage
    exact amid_of_mem_stages hstage
  · intro r index depth note stage hstage
    exact sameBut_stages r index depth note stage hstage

/-- A warning whose first note, an error with a note of its own, is given up for another. -/
def secondThought : Emission :=
  .node ⟨.warning, "unused", some ⟨2, 5⟩⟩
    [.node ⟨.error, "unknown", none⟩ [.node ⟨.help, "declare it", none⟩ []], .node ⟨.info, "declared here", some ⟨0, 1⟩⟩ []]

/-- The report before the first note is given up. -/
def amidSecondThought : Report :=
  ⟨#[⟨⟨.warning, "unused", some ⟨2, 5⟩⟩, [⟨.error, "unknown", none⟩, ⟨.help, "declare it", none⟩]⟩], false⟩

/-- The report in the end. -/
def afterSecondThought : Report :=
  ⟨#[⟨⟨.warning, "unused", some ⟨2, 5⟩⟩, [⟨.info, "declared here", some ⟨0, 1⟩⟩]⟩], false⟩

theorem keeps_of_secondThought :
    afterSecondThought.Keeps [secondThought] ∧
      amidSecondThought ∈ (ofEmissions []).stages .report secondThought ∧
      (ofEmissions []).Amid secondThought amidSecondThought ∧
      afterSecondThought ∈ amidSecondThought.stages (.entry 0 0) (.node ⟨.info, "declared here", some ⟨0, 1⟩⟩ []) ∧
      amidSecondThought.SameBut 0 afterSecondThought := by
  have hend : ofEmissions [secondThought] = afterSecondThought := by decide
  have hamid : amidSecondThought ∈ (ofEmissions []).stages .report secondThought := by decide
  have hafter : afterSecondThought ∈ amidSecondThought.stages (.entry 0 0) (.node ⟨.info, "declared here", some ⟨0, 1⟩⟩ []) := by
    decide
  obtain ⟨hkeeps, -, hon, hnote⟩ := ofEmissions_keeps [secondThought]
  exact ⟨hend ▸ hkeeps, hamid, hon [] secondThought [] rfl _ hamid, hafter, hnote _ 0 0 _ _ hafter⟩

end Report

end Pushdown
