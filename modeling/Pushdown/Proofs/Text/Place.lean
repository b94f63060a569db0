/-
  Pushdown.Proofs.Text.Place — spans that cover a part of a text.

  `Span.Cuts` says which part a span covers. Such a span is in bounds and on the borders of
  characters, and the part is what slicing gives (`slice?_of_cuts`); its ends alone decide
  whether a span is one (`within_iff`). A span on a line of a text is on the line that its
  start is reported on (`lineOf_of_within`).
-/

import Pushdown.Proofs.Line

namespace Pushdown

open Text

/-- The span covers a part of a text that stands at a byte offset itself. -/
def Span.Cuts (s : Span) (offset : Nat) (text part : List Char) : Prop :=
  ∃ before after, text = before ++ part ++ after ∧
    s = ⟨offset + byteLength before, offset + byteLength before + byteLength part⟩

def Span.Within (s : Span) (offset : Nat) (text : List Char) : Prop := ∃ part, s.Cuts offset text part

/-- An offset between two characters of a text, or at an end of it. -/
def IsBorder (offset : Nat) (text : List Char) (i : Nat) : Prop :=
  ∃ before after, text = before ++ after ∧ i = offset + byteLength before

/-- A line of a text, without its end, and the lines above it, with theirs. -/
structure IsLine (text : List Char) (above : List (List Char)) (line : List Char) : Prop where
  notMem : '\n' ∉ line
  lines : ∃ ending below, (ending = [] ∨ ending = ['\n']) ∧ terminatedLines text = above ++ (line ++ ending) :: below

/-! ## Parts of a text -/

section Parts

variable {s : Span} {offset : Nat} {text part : List Char}

theorem Span.Cuts.bounds (h : s.Cuts offset text part) :
    offset ≤ s.start ∧ s.start ≤ s.stop ∧ s.stop ≤ offset + byteLength text := by
  obtain ⟨before, after, rfl, rfl⟩ := h
  simp only [byteLength_append]
  omega

theorem Span.Within.bounds (h : s.Within offset text) :
    offset ≤ s.start ∧ s.start ≤ s.stop ∧ s.stop ≤ offset + byteLength text := by
  obtain ⟨part, hp⟩ := h
  exact hp.bounds

/-- What a span covers it covers in a longer text. -/
theorem Span.Cuts.append (before after : List Char) (h : s.Cuts (offset + byteLength before) text part) :
    s.Cuts offset (before ++ text ++ after) part := by
  obtain ⟨left, right, rfl, rfl⟩ := h
  refine ⟨before ++ left, right ++ after, by simp only [List.append_assoc], ?_⟩
  rw [byteLength_append, ← Nat.add_assoc]

theorem slice?_of_cuts (h : s.Cuts 0 text part) : slice? s text = some part := by
  obtain ⟨before, after, rfl, rfl⟩ := h
  have hlength : byteLength before + byteLength part - byteLength before = byteLength part := Nat.add_sub_cancel_left ..
  rw [List.append_assoc, slice?, Nat.zero_add, if_pos (Nat.le_add_right ..), dropBytes?_append, Option.bind_some,
    hlength, takeBytes?_append]

theorem byteLength_eq_zero {text : List Char} : byteLength text = 0 ↔ text = [] := by
  cases text with
  | nil => simp
  | cons c rest =>
    have hc := c.utf8Size_pos
    simp only [byteLength_cons, reduceCtorEq, iff_false]
    omega

/-- Of two borders the part between them is covered. -/
theorem within_iff :
    s.Within offset text ↔ IsBorder offset text s.start ∧ IsBorder offset text s.stop ∧ s.start ≤ s.stop := by
  refine ⟨?_, ?_⟩
  · intro h
    obtain ⟨part, before, after, rfl, rfl⟩ := h
    refine ⟨⟨before, part ++ after, by rw [List.append_assoc], rfl⟩, ⟨before ++ part, after, rfl, ?_⟩, ?_⟩
    · rw [byteLength_append, Nat.add_assoc]
    · exact Nat.le_add_right ..
  · intro h
    obtain ⟨⟨before, after, htext, hstart⟩, ⟨before', after', htext', hstop⟩, hle⟩ := h
    obtain ⟨start, stop⟩ := s
    simp only at hstart hstop hle
    subst hstart hstop
    rcases List.append_eq_append_iff.mp (htext.symm.trans htext') with ⟨part, rfl, rfl⟩ | ⟨part, rfl, rfl⟩
    · refine ⟨part, before, after', htext', ?_⟩
      rw [byteLength_append, Nat.add_assoc]
    · -- the later border comes first, so they are the same
      have hpart : part = [] := by
        rw [← byteLength_eq_zero]
        rw [byteLength_append] at hle
        omega
      subst hpart
      refine ⟨[], before', after, by simpa using htext', ?_⟩
      simp

end Parts

/-! ## Lines -/

section Lines

variable {text line : List Char} {above : List (List Char)}

theorem isLine_of_notMem (h : '\n' ∉ line) (hne : line ≠ []) : IsLine line [] line :=
  ⟨h, [], [], .inl rfl, by simpa using terminatedLines_of_notMem h hne⟩

theorem isLine_first (h : '\n' ∉ line) (after : List Char) : IsLine (line ++ '\n' :: after) [] line :=
  ⟨h, ['\n'], terminatedLines after, .inr rfl, terminatedLines_append h after⟩

theorem IsLine.below {first : List Char} (hno : '\n' ∉ first) (h : IsLine text above line) :
    IsLine (first ++ '\n' :: text) ((first ++ ['\n']) :: above) line := by
  obtain ⟨hline, ending, below, hending, hlines⟩ := h
  exact ⟨hline, ending, below, hending, by rw [terminatedLines_append hno, hlines, List.cons_append]⟩

/-- The lines above a line end with their line feeds, and hold no other. -/
theorem count_flatten_above {below : List (List Char)} (h : terminatedLines text = above ++ line :: below) :
    above.flatten.count '\n' = above.length := by
  induction text using Text.line_induction generalizing above with
  | last last hlast =>
    cases above with
    | nil => rfl
    | cons first rest =>
      cases last with
      | nil => cases h
      | cons c others =>
        rw [terminatedLines_of_notMem hlast (List.cons_ne_nil _ _)] at h
        simp at h
  | more first after hfirst ih =>
    cases above with
    | nil => rfl
    | cons first' rest =>
      rw [terminatedLines_append hfirst, List.cons_append, List.cons.injEq] at h
      obtain ⟨rfl, h⟩ := h
      rw [List.flatten_cons, List.count_append, ih h, List.count_append, List.count_eq_zero_of_not_mem hfirst,
        List.length_cons]
      simp only [List.count_singleton_self]
      omega

variable {s : Span}

theorem IsLine.split (h : IsLine text above line) : ∃ after, text = above.flatten ++ line ++ after := by
  obtain ⟨-, ending, below, -, hlines⟩ := h
  refine ⟨ending ++ below.flatten, ?_⟩
  have htext := flatten_terminatedLines text
  rw [hlines, List.flatten_append, List.flatten_cons] at htext
  rw [← htext]
  simp only [List.append_assoc]

/-- What a span covers of a line it covers of the text. -/
theorem IsLine.cuts (h : IsLine text above line) {part : List Char} (hs : s.Cuts (byteLength above.flatten) line part) :
    s.Cuts 0 text part := by
  obtain ⟨after, rfl⟩ := h.split
  rw [← Nat.zero_add (byteLength _)] at hs
  exact hs.append _ after

/-- A span on a line is reported on that line. -/
theorem lineOf_of_within (h : IsLine text above line) (hs : s.Within (byteLength above.flatten) line) :
    lineOf text s.start = above.length + 1 := by
  obtain ⟨after, htext⟩ := h.split
  obtain ⟨hno, ending, below, -, hlines⟩ := h
  obtain ⟨part, before, rest, rfl, rfl⟩ := hs
  have hcount : (above.flatten ++ before).count '\n' = above.length := by
    have hbefore : '\n' ∉ before := fun hm => hno (by simp [hm])
    rw [List.count_append, count_flatten_above hlines, List.count_eq_zero_of_not_mem hbefore, Nat.add_zero]
  have hsplit : text = (above.flatten ++ before) ++ (part ++ rest ++ after) := by
    rw [htext]
    simp only [List.append_assoc]
  rw [hsplit, lineOf, ← byteLength_append, takeBytes?_append, Option.getD_some, hcount]

end Lines

end Pushdown
