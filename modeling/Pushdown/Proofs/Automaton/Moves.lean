/-
  Pushdown.Proofs.Automaton.Moves — what a move of a sound automaton can do.

  It reads a declared letter (`letter_mem`), its target is a declared state (`target_mem`),
  and the symbols of its replacement are declared (`hasSymbol`). The bottom of the stack
  stands there only first of all and where it was seen (`keepsBottom`).

  The moves of `carousel` replace the bottom in each of the ways there are: by nothing, by a
  symbol, and by itself with a symbol on it.
-/

import Pushdown.Proofs.Automaton.Sound

namespace Pushdown

/-- A replacement has the bottom of the stack only in front, and only if it replaces it. -/
def KeepsBottom (top : StackSymbol) (push : List StackSymbol) : Prop :=
  ∃ added : List Symbol, push = added.map .symbol ∨ top = .stackEnd ∧ push = .stackEnd :: added.map .symbol

theorem exists_map_symbol {push : List StackSymbol} (h : ∀ s ∈ push, s ≠ .stackEnd) :
    ∃ added : List Symbol, push = added.map .symbol := by
  induction push with
  | nil => exact ⟨[], rfl⟩
  | cons s rest ih =>
    obtain ⟨hs, hrest⟩ := List.forall_mem_cons.mp h
    obtain ⟨added, rfl⟩ := ih hrest
    cases s with
    | stackEnd => exact absurd rfl hs
    | symbol x => exact ⟨x :: added, rfl⟩

namespace Automaton.Sound

variable {a : Automaton} {entry : Situation × Move}

theorem initial_mem (hs : a.Sound) : a.initial ∈ a.states.keys := by
  obtain ⟨q, hq, hinitial⟩ := hs.outline.initial
  obtain ⟨s, hmem, rfl⟩ := List.mem_map.mp hq
  obtain rfl : a.initial = s := accepts_state.text_inj _ _ (List.singleton_inj.mp hinitial)
  exact hmem

/-- The rules of the canonical form are the entries of the table. -/
theorem allows (hs : a.Sound) (h : entry ∈ a.moves.entries) : a.outline.Allows (Rule.ofEntry entry) := by
  apply hs.outline.rules
  exact List.mem_map_of_mem (mem_regrouped.mpr ⟨h, hs.states entry h⟩)

theorem target_mem (hs : a.Sound) (h : entry ∈ a.moves.entries) : entry.2.state ∈ a.states.keys := by
  obtain ⟨s, hmem, hname⟩ := List.mem_map.mp (hs.allows h).next
  obtain rfl : s = entry.2.state := accepts_state.text_inj _ _ hname
  exact hmem

theorem letter_mem (hs : a.Sound) (h : entry ∈ a.moves.entries) : entry.1.letter ∈ a.alphabet.keys := by
  obtain ⟨l, hmem, hname⟩ := List.mem_map.mp (hs.allows h).letter
  obtain rfl : l = entry.1.letter := accepts_letter.text_inj _ _ hname
  exact hmem

theorem ne_stackEnd (hs : a.Sound) {s : StackSymbol} (h : a.outline.HasSymbol s.text) : s ≠ .stackEnd := by
  intro hend
  rw [hend] at h
  exact (h.free hs.outline.symbols_free).1 rfl

/-- No symbol of the table has the name of the bottom. -/
theorem ofText_text (hs : a.Sound) (h : entry ∈ a.moves.entries) :
    StackSymbol.ofText entry.1.top.text = entry.1.top ∧ ∀ s ∈ entry.2.push, StackSymbol.ofText s.text = s := by
  obtain ⟨letter, -, hentry⟩ := Option.map_eq_some_iff.mp (hs.entries entry h)
  have htop := congrArg (fun e => e.1.top) hentry
  have hpush := congrArg (fun e => e.2.push) hentry
  simp only [Rule.ofEntry, List.map_map] at htop hpush
  refine ⟨htop, ?_⟩
  apply List.map_inj_left.mp
  rw [List.map_id']
  exact hpush

theorem eq_stackEnd_of_text {s : StackSymbol} (h : StackSymbol.ofText s.text = s) (htext : s.text = "STACK_END") :
    s = .stackEnd := by
  rw [htext] at h
  exact h.symm

theorem hasSymbol (hs : a.Sound) (h : entry ∈ a.moves.entries) {x : Symbol} (hx : .symbol x ∈ entry.2.push) :
    a.outline.HasSymbol x.name := by
  rcases (hs.allows h).push x.name (List.mem_map_of_mem hx) with hsymbol | hbottom
  · exact hsymbol
  · have hread : StackSymbol.ofText x.name = .symbol x := (hs.ofText_text h).2 _ hx
    rw [hbottom] at hread
    cases hread

theorem keepsBottom (hs : a.Sound) (h : entry ∈ a.moves.entries) : KeepsBottom entry.1.top entry.2.push := by
  obtain ⟨htop, hread⟩ := hs.ofText_text h
  have hfirst := (hs.allows h).first
  have hrest := (hs.allows h).rest
  simp only [Rule.ofEntry] at hfirst hrest
  cases hpush : entry.2.push with
  | nil => exact ⟨[], Or.inl rfl⟩
  | cons first rest =>
    rw [hpush] at hread hfirst hrest
    have hrest' : ∀ s ∈ rest, s ≠ .stackEnd := by
      intro s hmem
      exact hs.ne_stackEnd (hrest _ (List.mem_map_of_mem hmem))
    rcases hfirst first.text rfl with hsymbol | ⟨hbottom, hseen⟩
    · obtain ⟨added, hadded⟩ := exists_map_symbol (List.forall_mem_cons.mpr ⟨hs.ne_stackEnd hsymbol, hrest'⟩)
      exact ⟨added, Or.inl hadded⟩
    · -- the bottom was seen, and comes first again
      obtain ⟨added, rfl⟩ := exists_map_symbol hrest'
      rw [eq_stackEnd_of_text (hread first List.mem_cons_self) hbottom]
      exact ⟨added, Or.inr ⟨eq_stackEnd_of_text htop hseen, rfl⟩⟩

end Automaton.Sound

/-- States that go round at the end of the input; the first is final. -/
def carousel : String :=
  "states:p,q,r\nalphabet:a,INPUT_END\ninitial_state:p\nfinal_states:p\ntransition_function:\n" ++
  " p:\n  (a,STACK_END)->q[STACK_END,a]\n  (INPUT_END,STACK_END)->q[]\n" ++
  " q:\n  (INPUT_END,a)->r[]\n  (INPUT_END,STACK_END)->r[a]\n r:\n  (INPUT_END,a)->p[]\n"

def Automaton.carousel : Automaton where
  states := ⟨[(⟨"p"⟩, ⟨7, 8⟩), (⟨"q"⟩, ⟨9, 10⟩), (⟨"r"⟩, ⟨11, 12⟩)], by decide⟩
  alphabet := ⟨[(.char 'a', ⟨22, 23⟩), (.inputEnd, ⟨24, 33⟩)], by decide⟩
  stackAlphabet := none
  initial := ⟨"p"⟩
  final := ⟨[(⟨"p"⟩, ⟨63, 64⟩)], by decide⟩
  rejecting := ∅
  moves := ⟨[
    (⟨⟨"p"⟩, .char 'a', .stackEnd⟩, ⟨⟨"q"⟩, [.stackEnd, .symbol ⟨"a"⟩]⟩),
    (⟨⟨"p"⟩, .inputEnd, .stackEnd⟩, ⟨⟨"q"⟩, []⟩),
    (⟨⟨"q"⟩, .inputEnd, .symbol ⟨"a"⟩⟩, ⟨⟨"r"⟩, []⟩),
    (⟨⟨"q"⟩, .inputEnd, .stackEnd⟩, ⟨⟨"r"⟩, [.symbol ⟨"a"⟩]⟩),
    (⟨⟨"r"⟩, .inputEnd, .symbol ⟨"a"⟩⟩, ⟨⟨"p"⟩, []⟩)], by decide⟩

theorem load_carousel : load carousel = .ok .carousel := mem_toOption_load.mp (by decide +kernel)

end Pushdown
