/-
  Pushdown.Proofs.Text.Row — spans in a row.

  The spans of a row follow each other, and from its first to its last they are enclosed
  (`Row.holds`). So is a place that grows by them, and what is made of the spans of one
  part of a row comes before what is made of a later part (`Amid.before`). What is in one
  span of a row is not in another, unless it is empty (`Row.apart`, `Apart.ne`).
-/

import Mathlib.Data.List.Pairwise
import Pushdown.Text.Span

namespace Pushdown

/-- One span ends before another begins. -/
def Span.Before (s t : Span) : Prop := s.stop ≤ t.start

/-- Spans that follow each other. -/
structure Span.Row (spans : List Span) : Prop where
  le : ∀ s ∈ spans, s.start ≤ s.stop
  ordered : spans.Pairwise Span.Before

/-- A place encloses its parts, which follow each other. -/
structure Span.Holds (place : Span) (parts : List Span) : Prop where
  encloses : ∀ s ∈ parts, place.start ≤ s.start ∧ s.stop ≤ place.stop
  row : Span.Row parts

namespace Span

variable {spans spans' : List Span} {place : Span}

theorem Row.sublist (h : Row spans) (hs : spans'.Sublist spans) : Row spans' :=
  ⟨fun s hm => h.le s (hs.subset hm), h.ordered.sublist hs⟩

theorem Row.cons_iff {s : Span} :
    Row (s :: spans) ↔ s.start ≤ s.stop ∧ (∀ t ∈ spans, s.stop ≤ t.start) ∧ Row spans := by
  refine ⟨?_, ?_⟩
  · intro h
    obtain ⟨hbefore, hordered⟩ := List.pairwise_cons.mp h.ordered
    exact ⟨h.le s List.mem_cons_self, hbefore, fun t ht => h.le t (List.mem_cons_of_mem _ ht), hordered⟩
  · intro h
    obtain ⟨hle, hbefore, hrow⟩ := h
    exact ⟨List.forall_mem_cons.mpr ⟨hle, hrow.le⟩, .cons hbefore hrow.ordered⟩

theorem Row.nil : Row [] := ⟨by simp, .nil⟩

theorem Row.append (h : Row spans) (h' : Row spans') (hb : ∀ s ∈ spans, ∀ t ∈ spans', s.stop ≤ t.start) :
    Row (spans ++ spans') := by
  refine ⟨?_, List.pairwise_append.mpr ⟨h.ordered, h'.ordered, hb⟩⟩
  intro s hs
  exact (List.mem_append.mp hs).elim (h.le s) (h'.le s)

theorem Holds.sublist (h : place.Holds spans) (hs : spans'.Sublist spans) : place.Holds spans' :=
  ⟨fun s hm => h.encloses s (hs.subset hm), h.row.sublist hs⟩

/-- A place with a part is no empty range the wrong way round. -/
theorem Holds.le {s : Span} (h : place.Holds (s :: spans)) : place.start ≤ place.stop := by
  have hin := h.encloses s List.mem_cons_self
  have hle := h.row.le s List.mem_cons_self
  omega

/-- From the first to the last of a row all of it is enclosed. -/
theorem Row.holds (h : Row spans) {first last : Span} (hfirst : spans.head? = some first)
    (hlast : spans.getLast? = some last) : (first.join last).Holds spans := by
  refine ⟨?_, h⟩
  intro s hs
  have hstart : first.start ≤ s.start := by
    obtain ⟨rest, rfl⟩ := List.head?_eq_some_iff.mp hfirst
    obtain ⟨hle, hbefore, -⟩ := Row.cons_iff.mp h
    rcases List.mem_cons.mp hs with rfl | hs
    · exact Nat.le_refl _
    · exact Nat.le_trans hle (hbefore s hs)
  have hstop : s.stop ≤ last.stop := by
    obtain ⟨rest, rfl⟩ := List.getLast?_eq_some_iff.mp hlast
    rcases List.mem_append.mp hs with hs | hs
    · have hbefore : s.stop ≤ last.start := (List.pairwise_append.mp h.ordered).2.2 s hs _ List.mem_cons_self
      exact Nat.le_trans hbefore (h.le last (by simp))
    · obtain rfl := List.mem_singleton.mp hs
      exact Nat.le_refl _
  simp only [join]
  omega

/-- The last parts may be taken together as one. -/
theorem Holds.together (spans : List Span) {first last : Span} (h : place.Holds (spans ++ spans'))
    (hfirst : spans'.head? = some first) (hlast : spans'.getLast? = some last) :
    place.Holds (spans ++ [first.join last]) := by
  have hrow : Row spans' := h.row.sublist (List.sublist_append_right ..)
  have hmem : first ∈ spans' := List.mem_of_head? hfirst
  have hmem' : last ∈ spans' := List.mem_of_getLast? hlast
  have hle : (first.join last).start ≤ (first.join last).stop := by
    have hin := (hrow.holds hfirst hlast).encloses first hmem
    exact Nat.le_trans hin.1 (Nat.le_trans (hrow.le first hmem) hin.2)
  have hbetween : ∀ s ∈ spans, s.stop ≤ (first.join last).start := by
    intro s hs
    have hbefore := (List.pairwise_append.mp h.row.ordered).2.2 s hs
    exact Nat.le_min.mpr ⟨hbefore first hmem, hbefore last hmem'⟩
  refine ⟨?_, (h.row.sublist (List.sublist_append_left ..)).append ?_ ?_⟩
  · intro s hs
    rcases List.mem_append.mp hs with hs | hs
    · exact h.encloses s (List.mem_append_left _ hs)
    · have hfirst := h.encloses first (List.mem_append_right _ hmem)
      have hlast := h.encloses last (List.mem_append_right _ hmem')
      rw [List.mem_singleton.mp hs]
      exact ⟨Nat.le_min.mpr ⟨hfirst.1, hlast.1⟩, Nat.max_le.mpr ⟨hfirst.2, hlast.2⟩⟩
  · exact Row.cons_iff.mpr ⟨hle, by simp, .nil⟩
  · simpa using hbetween

/-- The last part may be cut down to its end. -/
theorem Holds.atStop (spans : List Span) {s : Span} (h : place.Holds (spans ++ [s])) :
    place.Holds (spans ++ [.point s.stop]) := by
  have hs := h.encloses s (List.mem_append_right _ List.mem_cons_self)
  have hle := h.row.le s (List.mem_append_right _ List.mem_cons_self)
  refine ⟨?_, (h.row.sublist (List.sublist_append_left ..)).append ?_ ?_⟩
  · intro t ht
    rcases List.mem_append.mp ht with ht | ht
    · exact h.encloses t (List.mem_append_left _ ht)
    · rw [List.mem_singleton.mp ht]
      exact ⟨Nat.le_trans hs.1 hle, hs.2⟩
  · exact Row.cons_iff.mpr ⟨Nat.le_refl _, by simp, .nil⟩
  · intro t ht u hu
    rw [List.mem_singleton.mp hu]
    exact Nat.le_trans ((List.pairwise_append.mp h.row.ordered).2.2 t ht s List.mem_cons_self) hle

/-- A place that starts no sooner than one of some places, and stops no later than one. -/
def Amid (places : List Span) (s : Span) : Prop :=
  (∃ p ∈ places, p.start ≤ s.start) ∧ ∃ p ∈ places, s.stop ≤ p.stop

section Amid

variable {places places' : List Span} {s t : Span}

theorem amid_of_mem (h : s ∈ places) : s.Amid places :=
  ⟨⟨s, h, Nat.le_refl _⟩, ⟨s, h, Nat.le_refl _⟩⟩

theorem Amid.mono (h : s.Amid places) (hs : places ⊆ places') : s.Amid places' := by
  obtain ⟨⟨p, hp, hstart⟩, ⟨q, hq, hstop⟩⟩ := h
  exact ⟨⟨p, hs hp, hstart⟩, ⟨q, hs hq, hstop⟩⟩

/-- What is amid earlier places comes before what is amid later ones. -/
theorem Amid.before (hs : s.Amid places) (ht : t.Amid places')
    (h : ∀ p ∈ places, ∀ q ∈ places', p.Before q) : s.Before t := by
  obtain ⟨-, p, hp, hstop⟩ := hs
  obtain ⟨⟨q, hq, hstart⟩, -⟩ := ht
  exact Nat.le_trans hstop (Nat.le_trans (h p hp q hq) hstart)

/-- What encloses all places encloses what is amid them. -/
theorem Amid.enclosed (h : s.Amid places) (hp : ∀ p ∈ places, t.start ≤ p.start ∧ p.stop ≤ t.stop) :
    t.start ≤ s.start ∧ s.stop ≤ t.stop := by
  obtain ⟨⟨p, hmem, hstart⟩, ⟨q, hmem', hstop⟩⟩ := h
  exact ⟨Nat.le_trans (hp p hmem).1 hstart, Nat.le_trans hstop (hp q hmem').2⟩

theorem Amid.join (hs : s.Amid places) (ht : t.Amid places) : (s.join t).Amid places := by
  obtain ⟨⟨p, hp, hstart⟩, ⟨q, hq, hstop⟩⟩ := hs
  obtain ⟨⟨p', hp', hstart'⟩, ⟨q', hq', hstop'⟩⟩ := ht
  refine ⟨?_, ?_⟩
  · rcases Nat.le_total s.start t.start with h | h
    · exact ⟨p, hp, by simp only [Span.join]; omega⟩
    · exact ⟨p', hp', by simp only [Span.join]; omega⟩
  · rcases Nat.le_total s.stop t.stop with h | h
    · exact ⟨q', hq', by simp only [Span.join]; omega⟩
    · exact ⟨q, hq, by simp only [Span.join]; omega⟩

end Amid

/-! A place that grows by one span after the other encloses them all. -/

section Grown

variable {α : Type} {f : α → Span} {as : List α}

theorem foldl_join_encloses (place : Span) (f : α → Span) (as : List α) :
    (as.foldl (fun place a => place.join (f a)) place).start ≤ place.start ∧
      place.stop ≤ (as.foldl (fun place a => place.join (f a)) place).stop ∧
      ∀ a ∈ as, (as.foldl (fun place a => place.join (f a)) place).start ≤ (f a).start ∧
        (f a).stop ≤ (as.foldl (fun place a => place.join (f a)) place).stop := by
  induction as generalizing place with
  | nil => simp
  | cons a rest ih =>
    obtain ⟨hstart, hstop, hrest⟩ := ih (place.join (f a))
    have hjoin : (place.join (f a)).start ≤ place.start ∧ place.stop ≤ (place.join (f a)).stop ∧
        (place.join (f a)).start ≤ (f a).start ∧ (f a).stop ≤ (place.join (f a)).stop := by
      simp only [join]
      omega
    refine ⟨Nat.le_trans hstart hjoin.1, Nat.le_trans hjoin.2.1 hstop, List.forall_mem_cons.mpr ⟨?_, hrest⟩⟩
    exact ⟨Nat.le_trans hstart hjoin.2.2.1, Nat.le_trans hjoin.2.2.2 hstop⟩

theorem foldl_join_amid {places : List Span} (hplace : place.Amid places) (has : ∀ a ∈ as, (f a).Amid places) :
    (as.foldl (fun place a => place.join (f a)) place).Amid places := by
  induction as generalizing place with
  | nil => exact hplace
  | cons a rest ih =>
    obtain ⟨ha, hrest⟩ := List.forall_mem_cons.mp has
    exact ih (hplace.join ha) hrest

end Grown

end Span

/-! ## Places apart -/

/-- One place is a part of another. -/
def Span.Encloses (s t : Span) : Prop := s.start ≤ t.start ∧ t.stop ≤ s.stop

/-- Two places have no part in common. -/
def Span.Apart (s t : Span) : Prop := s.Before t ∨ t.Before s

namespace Span

variable {s t u : Span}

theorem Encloses.refl (s : Span) : s.Encloses s := ⟨Nat.le_refl _, Nat.le_refl _⟩

theorem Encloses.trans (h : s.Encloses t) (h' : t.Encloses u) : s.Encloses u :=
  ⟨Nat.le_trans h.1 h'.1, Nat.le_trans h'.2 h.2⟩

theorem Apart.symm (h : s.Apart t) : t.Apart s := Or.symm h

/-- What is in one of them is not what is in the other, unless it is empty. -/
theorem Apart.ne (h : s.Apart t) {a b : Span} (ha : s.Encloses a) (hb : t.Encloses b) (hne : b.start < b.stop) :
    a ≠ b := by
  rintro rfl
  unfold Apart Before at h
  unfold Encloses at ha hb
  omega

theorem Row.apart {α : Type} {f : α → Span} {l : List α} (h : Row (l.map f)) {a b : α} (ha : a ∈ l) (hb : b ∈ l)
    (hne : a ≠ b) : (f a).Apart (f b) := by
  have hpairs : l.Pairwise fun a b => (f a).Apart (f b) := (List.pairwise_map.mp h.ordered).imp Or.inl
  have hsymm : Std.Symm fun a b : α => (f a).Apart (f b) := ⟨fun _ _ => Apart.symm⟩
  exact hpairs.forall ha hb hne

end Span

end Pushdown
