/-
  Pushdown.Proofs.Automaton.Written — the canonical text of an automaton, line by line.

  Each line comes with what it says (`Automaton.writtenLines`). When the names are spelled
  as words every line reads as that (`reads_of_spelled`), and lines that say it are
  sections whose outline is the automaton's (`sections_of_written`).
-/

import Pushdown.Proofs.Automaton.Sound
import Pushdown.Proofs.Line.Written

namespace Pushdown

open Text Grammar

/-! ## What the lines say -/

/-- The tokens of a transition. -/
def Rule.tokens (r : Rule) : List Token :=
  .parOpen :: .word r.letter :: .comma :: .word r.top :: .parClose :: .arrow :: .word r.next :: .bracketOpen ::
    (Token.separated r.push ++ [.bracketClose])

def WrittenLine.list (kind : SectionKind) (names : List String) : WrittenLine :=
  ⟨listLine kind names, 0, .word kind.label :: .colon :: Token.separated names⟩

def WrittenLine.header (s : State) : WrittenLine := ⟨"    " ++ s.name ++ ":", 4, [.word s.name, .colon]⟩

def WrittenLine.transition (entry : Situation × Move) : WrittenLine :=
  ⟨"        " ++ entry.1.text ++ " -> " ++ entry.2.text, 8, (Rule.ofEntry entry).tokens⟩

namespace Automaton

/-- The lists of the canonical form, in order. -/
def lists (a : Automaton) : List (SectionKind × List String) :=
  [(.states, a.states.keys.map State.name), (.alphabet, a.alphabet.keys.map Letter.text)] ++
  (a.stackAlphabet.map fun symbols => (.stackAlphabet, symbols.keys.map Symbol.name)).toList ++
  [(.initialState, [a.initial.name]), (.finalStates, a.final.keys.map State.name),
    (.rejectingStates, a.rejecting.keys.map State.name)]

theorem lists_kind (a : Automaton) : ∀ l ∈ a.lists, l.1 ≠ .transitionFunction := by
  unfold lists
  cases a.stackAlphabet <;> simp

def writtenGroup (a : Automaton) (s : State) : List WrittenLine :=
  match a.movesFrom s with
  | [] => []
  | moves => .header s :: moves.map .transition

def writtenLines (a : Automaton) : List WrittenLine :=
  a.lists.map (fun list => .list list.1 list.2) ++ .list .transitionFunction [] :: a.states.keys.flatMap a.writtenGroup

theorem map_text_writtenLines (a : Automaton) : a.writtenLines.map WrittenLine.text = a.canonicalLines := by
  have hgroup : ∀ s, (a.writtenGroup s).map WrittenLine.text = a.groupLines s := by
    intro s
    unfold writtenGroup groupLines
    cases a.movesFrom s with
    | nil => rfl
    | cons entry rest => simp [WrittenLine.header, WrittenLine.transition, Function.comp_def]
  simp only [writtenLines, canonicalLines, List.map_append, List.map_cons, List.map_flatMap, hgroup, lists]
  cases a.stackAlphabet <;> simp [WrittenLine.list]

theorem toList_canonical (a : Automaton) : a.canonical.toList = textOf a.writtenLines := by
  rw [canonical, ← map_text_writtenLines, String.toList_join, textOf]
  simp [List.flatMap_map]

end Automaton

/-! ## Each line says it -/

section Reads

theorem kept?_separated {names : List String} : ∀ t ∈ Token.separated names, (Lexeme.token t).kept? = some t := by
  induction names with
  | nil => simp [Token.separated]
  | cons name rest ih =>
    cases rest with
    | nil => simp [Token.separated, Lexeme.kept?]
    | cons next rest =>
      intro t ht
      rcases List.mem_cons.mp ht with rfl | ht
      · rfl
      · rcases List.mem_cons.mp ht with rfl | ht
        · rfl
        · exact ih t ht

theorem isWord_label (kind : SectionKind) : IsWord kind.label ∧ ¬ OpensComment kind.label := by
  cases kind <;> decide

theorem reads_list {kind : SectionKind} {names : List String} (hw : ∀ n ∈ names, IsWord n) :
    (WrittenLine.list kind names).Reads := by
  obtain ⟨hlabel, hcomment⟩ := isWord_label kind
  have htext : (listLine kind names).toList =
      kind.label.toList ++ ':' :: (if names.isEmpty then [] else ' ' :: (", ".intercalate names).toList) := by
    unfold listLine
    split <;> simp [String.toList_append]
  refine WrittenLine.reads_of htext ?_ ?_ ?_ (List.cons_ne_nil _ _)
  · exact hlabel.head_not_blank _
  · refine (lexemesFrom_word_punctuation hlabel (fun _ => hcomment) rfl _).trans ?_
    have hnames := lexemesFrom_names hw stops_nil
    rw [List.append_nil, lexemesFrom_nil, List.append_nil] at hnames
    split
    · next he =>
      rw [List.isEmpty_iff.mp he, lexemesFrom_nil]
      rfl
    · rw [lexemesFrom_space, hnames]
      rfl
  · intro t ht
    rcases List.mem_cons.mp ht with rfl | ht
    · rfl
    · rcases List.mem_cons.mp ht with rfl | ht
      · rfl
      · exact kept?_separated t ht

theorem reads_header {s : State} (hw : IsWord s.name) (hs : ¬ OpensComment s.name) : (WrittenLine.header s).Reads := by
  have htext : ("    " ++ s.name ++ ":").toList = List.replicate 4 ' ' ++ (s.name.toList ++ [':']) := by
    simp [String.toList_append, List.replicate]
  refine WrittenLine.reads_of htext ?_ ?_ (by simp [WrittenLine.header, Lexeme.kept?]) (List.cons_ne_nil _ _)
  · exact hw.head_not_blank _
  · rw [lexemesFrom_word_punctuation hw (fun _ => hs) rfl, lexemesFrom_nil]
    rfl

/-- The names of a rule, spelled as words. -/
structure Rule.Spelled (r : Rule) : Prop where
  letter : IsWord r.letter
  top : IsWord r.top
  next : IsWord r.next
  push : ∀ name ∈ r.push, IsWord name

theorem lexemesFrom_transition {entry : Situation × Move} (h : (Rule.ofEntry entry).Spelled) (lineStart : Bool) :
    lexemesFrom lineStart (entry.1.text ++ " -> " ++ entry.2.text).toList =
      (Rule.ofEntry entry).tokens.map .token := by
  obtain ⟨hl, ht, hn, hp⟩ := h
  simp only [Rule.ofEntry] at hl ht hn hp
  have htext : (entry.1.text ++ " -> " ++ entry.2.text).toList =
      '(' :: (entry.1.letter.text.toList ++ ',' :: ' ' :: (entry.1.top.text.toList ++ ')' :: ' ' :: '-' :: '>' :: ' ' ::
        (entry.2.state.name.toList ++ ' ' :: '[' ::
          ((", ".intercalate (entry.2.push.map StackSymbol.text)).toList ++ [']'])))) := by
    simp [Situation.text, Move.text, String.toList_append, -String.toList_intercalate]
  rw [htext, lexemesFrom_punctuation rfl, lexemesFrom_word_punctuation hl (by simp) rfl, lexemesFrom_space,
    lexemesFrom_word_punctuation ht (by simp) rfl, lexemesFrom_space, lexemesFrom_arrow, lexemesFrom_space,
    lexemesFrom_word_space hn (by simp), lexemesFrom_punctuation rfl,
    lexemesFrom_names hp (stops_cons (Or.inr (by decide))), lexemesFrom_punctuation rfl, lexemesFrom_nil]
  simp [Rule.tokens, Rule.ofEntry]

theorem reads_transition {entry : Situation × Move} (h : (Rule.ofEntry entry).Spelled) :
    (WrittenLine.transition entry).Reads := by
  have htext : ("        " ++ entry.1.text ++ " -> " ++ entry.2.text).toList =
      List.replicate 8 ' ' ++ (entry.1.text ++ " -> " ++ entry.2.text).toList := by
    simp [String.toList_append, List.replicate]
  refine WrittenLine.reads_of htext ?_ (lexemesFrom_transition h true) ?_ (List.cons_ne_nil _ _)
  · simp [Situation.text, String.toList_append]
    decide
  · intro t hmem
    simp only [WrittenLine.transition, Rule.tokens, List.mem_cons, List.mem_append, List.not_mem_nil, or_false] at hmem
    rcases hmem with rfl | rfl | rfl | rfl | rfl | rfl | rfl | rfl | hmem | rfl
    all_goals first | rfl | exact kept?_separated t hmem

/-! ## All lines of a sound automaton say it -/

theorem Outline.Spelled.hasSymbol {o : Outline} (h : o.Spelled) {name : String} (hn : o.HasSymbol name) :
    IsWord name := by
  unfold Outline.HasSymbol at hn
  split at hn
  · next symbols hs => exact h.symbols symbols hs name hn
  · exact h.alphabet name hn.1

theorem isWord_stackEnd : IsWord "STACK_END" := by decide

variable {a : Automaton}

theorem isWord_lists (hs : a.Sound) (hn : a.outline.Spelled) : ∀ list ∈ a.lists, ∀ n ∈ list.2, IsWord n := by
  have ho := hs.outline
  intro list hl
  simp only [Automaton.lists, List.mem_append, List.mem_cons, List.not_mem_nil, or_false, Option.mem_toList,
    Option.map_eq_some_iff] at hl
  rcases hl with ((rfl | rfl) | ⟨symbols, hsymbols, rfl⟩) | rfl | rfl | rfl
  · exact hn.states
  · exact hn.alphabet
  · exact hn.symbols _ (Option.map_eq_some_iff.mpr ⟨symbols, hsymbols, rfl⟩)
  · obtain ⟨q, hq, hi⟩ := ho.initial
    intro n hmem
    rw [show [a.initial.name] = [q] from hi, List.mem_singleton] at hmem
    exact hn.states n (hmem ▸ hq)
  · exact fun n hmem => hn.states n (ho.final_states n hmem)
  · exact fun n hmem => hn.states n (ho.rejecting_states n hmem)

theorem Outline.Spelled.rule {o : Outline} (hn : o.Spelled) {r : Rule} (h : o.Allows r) : r.Spelled := by
  refine ⟨hn.alphabet _ h.letter, ?_, hn.states _ h.next, ?_⟩
  · rcases h.top with ht | ht
    · exact ht ▸ isWord_stackEnd
    · exact hn.hasSymbol ht
  · intro name hmem
    rcases h.push name hmem with hp | hp
    · exact hn.hasSymbol hp
    · exact hp ▸ isWord_stackEnd

theorem reads_of_spelled (hs : a.Sound) (hn : a.outline.Spelled) : ∀ l ∈ a.writtenLines, l.Reads := by
  intro l hl
  simp only [Automaton.writtenLines, List.mem_append, List.mem_map, List.mem_cons, List.mem_flatMap] at hl
  rcases hl with ⟨list, hlist, rfl⟩ | rfl | ⟨s, hstate, hl⟩
  · exact reads_list (isWord_lists hs hn list hlist)
  · exact reads_list (by simp)
  · cases hm : a.movesFrom s with
    | nil => simp [Automaton.writtenGroup, hm] at hl
    | cons entry rest =>
      simp only [Automaton.writtenGroup, hm, List.mem_cons] at hl
      rcases hl with rfl | hl
      · refine reads_header (hn.states _ (List.mem_map_of_mem hstate)) (hn.headers _ ?_)
        exact List.mem_map_of_mem (List.mem_filter.mpr ⟨hstate, by simp [hm]⟩)
      · obtain ⟨move, hmove, rfl⟩ := List.mem_map.mp hl
        refine reads_transition (hn.rule (hs.outline.rules _ (List.mem_map_of_mem ?_)))
        exact List.mem_flatMap.mpr ⟨s, hstate, hm ▸ hmove⟩

end Reads

/-! ## Lines that say it are sections -/

theorem cons_of_values {tokens : List (Located Token)} {t : Token} {rest : List Token}
    (h : tokens.map Located.value = t :: rest) :
    ∃ place more, tokens = ⟨t, place⟩ :: more ∧ more.map Located.value = rest := by
  obtain ⟨⟨_, place⟩, more, rfl, rfl, hmore⟩ := List.map_eq_cons_iff.mp h
  exact ⟨place, more, rfl, hmore⟩

theorem names_of_separated {tokens : List (Located Token)} {names : List String}
    (h : tokens.map Located.value = Token.separated names) :
    ∃ idents, NameList tokens idents ∧ namesIn idents = names := by
  cases names with
  | nil =>
    obtain rfl : tokens = [] := List.map_eq_nil_iff.mp h
    exact ⟨[], .none, rfl⟩
  | cons first rest =>
    suffices hnames : ∃ idents, Names tokens idents ∧ namesIn idents = first :: rest by
      obtain ⟨idents, hi, he⟩ := hnames
      exact ⟨idents, .some hi, he⟩
    induction rest generalizing tokens first with
    | nil =>
      obtain ⟨⟨_, place⟩, rfl, rfl⟩ := List.map_eq_singleton_iff.mp h
      exact ⟨_, .one first place, rfl⟩
    | cons next rest ih =>
      obtain ⟨place, more, rfl, hmore⟩ := cons_of_values h
      obtain ⟨comma, tokens, rfl, htokens⟩ := cons_of_values hmore
      obtain ⟨idents, hi, he⟩ := ih next htokens
      exact ⟨_, .more first place comma hi, by rw [namesIn, List.map_cons, ← he]; rfl⟩

theorem transition_of_tokens {tokens : List (Located Token)} {r : Rule} (h : tokens.map Located.value = r.tokens) :
    ∃ t, Transition tokens t ∧ Rule.ofTransition r.state t = r := by
  unfold Rule.tokens at h
  obtain ⟨parOpen, _, rfl, h1⟩ := cons_of_values h
  obtain ⟨letter, _, rfl, h2⟩ := cons_of_values h1
  obtain ⟨comma, _, rfl, h3⟩ := cons_of_values h2
  obtain ⟨top, _, rfl, h4⟩ := cons_of_values h3
  obtain ⟨parClose, _, rfl, h5⟩ := cons_of_values h4
  obtain ⟨arrow, _, rfl, h6⟩ := cons_of_values h5
  obtain ⟨next, _, rfl, h7⟩ := cons_of_values h6
  obtain ⟨bracketOpen, _, rfl, h8⟩ := cons_of_values h7
  obtain ⟨inner, last, rfl, hinner, hlast⟩ := List.map_eq_append_iff.mp h8
  obtain ⟨⟨_, bracketClose⟩, rfl, rfl⟩ := List.map_eq_singleton_iff.mp hlast
  obtain ⟨push, hpush, hnames⟩ := names_of_separated hinner
  refine ⟨_, .mk parOpen letter comma top parClose arrow next bracketOpen bracketClose r.letter r.top r.next hpush, ?_⟩
  have hvalues : push.map Located.value = r.push := hnames
  simp [Rule.ofTransition, hvalues]

theorem transitions_of_written {s : State} {moves : List (Situation × Move)} (hs : ∀ e ∈ moves, e.1.state = s)
    {lines : List Line}
    (h : lines.map Line.content = moves.map fun e => (WrittenLine.transition e).content) :
    ∃ ts, Transitions 4 lines ts ∧
      (ts.map fun t => Rule.ofTransition s.name t.value) = moves.map Rule.ofEntry := by
  induction moves generalizing lines with
  | nil =>
    obtain rfl : lines = [] := List.map_eq_nil_iff.mp h
    exact ⟨[], .nil, rfl⟩
  | cons entry rest ih =>
    obtain ⟨line, more, rfl, hline, hmore⟩ := List.map_eq_cons_iff.mp h
    obtain ⟨ts, hts, hrules⟩ := ih (fun e he => hs e (List.mem_cons_of_mem _ he)) hmore
    simp only [Line.content, WrittenLine.content, WrittenLine.transition, Prod.mk.injEq] at hline
    obtain ⟨t, ht, hrule⟩ := transition_of_tokens hline.2
    refine ⟨_, .cons (by omega) ht hts, ?_⟩
    have hstate : (Rule.ofEntry entry).state = s.name := congrArg State.name (hs entry List.mem_cons_self)
    rw [List.map_cons, List.map_cons, hrules, ← hstate, hrule]

theorem Grammar.Transitions.lt_indent {indent : Nat} {lines : List Line} {ts : List (Located TransitionLine)}
    (h : Transitions indent lines ts) : ∀ line ∈ lines, indent < line.indent := by
  induction h with
  | nil => simp
  | cons hi _ _ ih =>
    intro line hmem
    rcases List.mem_cons.mp hmem with rfl | hmem
    · exact hi
    · exact ih line hmem

theorem Grammar.Groups.le_indent {indent : Nat} {lines : List Line} {groups : List (Located StateGroup)}
    (h : Groups indent lines groups) : ∀ line ∈ lines, indent ≤ line.indent := by
  induction h with
  | nil => simp
  | @group header state place colon body rest ts groups hi _ hts _ ih =>
    intro line hmem
    rcases List.mem_cons.mp hmem with rfl | hmem
    · exact Nat.le_of_eq hi.symm
    · rcases List.mem_append.mp hmem with hmem | hmem
      · exact Nat.le_of_lt (hts.lt_indent line hmem)
      · exact ih line hmem

theorem groups_of_written {a : Automaton} {states : List State} {lines : List Line}
    (h : lines.map Line.content = (states.flatMap a.writtenGroup).map WrittenLine.content) :
    ∃ groups, Groups 4 lines groups ∧
      (groups.map fun g => g.value.state.value) =
        (states.filter fun s => !(a.movesFrom s).isEmpty).map State.name ∧
      (groups.flatMap fun g => Rule.ofGroup g.value) = (states.flatMap a.movesFrom).map Rule.ofEntry := by
  induction states generalizing lines with
  | nil =>
    obtain rfl : lines = [] := List.map_eq_nil_iff.mp h
    exact ⟨[], .nil, rfl, rfl⟩
  | cons s rest ih =>
    rw [List.flatMap_cons, List.map_append] at h
    cases hm : a.movesFrom s with
    | nil =>
      -- a state without moves has no group
      rw [show a.writtenGroup s = [] by rw [Automaton.writtenGroup, hm]] at h
      obtain ⟨groups, hg, hheaders, hrules⟩ := ih h
      exact ⟨groups, hg, by simp [hheaders, hm], by simp [hrules, hm]⟩
    | cons entry others =>
      have hstate : ∀ e ∈ entry :: others, e.1.state = s := by
        intro e he
        exact (Automaton.mem_movesFrom.mp (hm ▸ he)).2
      rw [show a.writtenGroup s = .header s :: (entry :: others).map .transition by
        rw [Automaton.writtenGroup, hm], List.map_cons, List.map_map, List.cons_append] at h
      obtain ⟨header, below, rfl, hheader, hbelow⟩ := List.map_eq_cons_iff.mp h
      obtain ⟨body, more, rfl, hbody, hmore⟩ := List.map_eq_append_iff.mp hbelow
      obtain ⟨groups, hg, hheaders, hrules⟩ := ih hmore
      obtain ⟨ts, hts, hmoves⟩ := transitions_of_written hstate hbody
      simp only [Line.content, WrittenLine.content, WrittenLine.header, Prod.mk.injEq] at hheader
      obtain ⟨place, after, htokens, hafter⟩ := cons_of_values hheader.2
      obtain ⟨⟨_, colon⟩, rfl, rfl⟩ := List.map_eq_singleton_iff.mp hafter
      refine ⟨_, .group hheader.1 htokens hts hg, ?_, ?_⟩
      · simp [StateGroup.of, hheaders, hm]
      · rw [List.flatMap_cons, hrules, List.flatMap_cons, List.map_append, hm, ← hmoves]
        rfl

theorem block_of_groups {lines : List Line} {groups : List (Located StateGroup)} (h : Groups 4 lines groups) :
    Block lines groups := by
  cases h with
  | nil => exact .empty
  | group hi ht hts hg =>
    refine .groups ?_
    rw [hi]
    exact .group hi ht hts hg

/-- The label and the names of a list. -/
def Section.listed? : Section → Option (String × List String)
  | .list label items => some (label.value, namesIn items.value)
  | .transitions _ _ => none

theorem sections_of_lists {lists : List (SectionKind × List String)} (hk : ∀ l ∈ lists, l.1 ≠ .transitionFunction)
    {lines more : List Line} {sections : List (Located Section)}
    (h : lines.map Line.content = lists.map fun l => (WrittenLine.list l.1 l.2).content)
    (hs : Sections more sections) :
    ∃ before, Sections (lines ++ more) (before ++ sections) ∧
      (before.map fun s => s.value.listed?) = lists.map fun l => some (l.1.label, l.2) := by
  induction lists generalizing lines with
  | nil =>
    obtain rfl : lines = [] := List.map_eq_nil_iff.mp h
    exact ⟨[], hs, rfl⟩
  | cons list rest ih =>
    obtain ⟨line, below, rfl, hline, hbelow⟩ := List.map_eq_cons_iff.mp h
    obtain ⟨before, hb, hlisted⟩ := ih (fun l hl => hk l (List.mem_cons_of_mem _ hl)) hbelow
    simp only [Line.content, WrittenLine.content, WrittenLine.list, Prod.mk.injEq] at hline
    obtain ⟨place, _, ht1, h1⟩ := cons_of_values hline.2
    obtain ⟨colon, tokens, ht2, h2⟩ := cons_of_values h1
    obtain ⟨names, hn, hnames⟩ := names_of_separated h2
    have hlabel : list.1.label ≠ "transition_function" := by
      have hkind := hk list List.mem_cons_self
      generalize list.1 = kind at hkind
      cases kind <;> first | decide | exact absurd rfl hkind
    refine ⟨_ :: before, .list (ht2 ▸ ht1) hlabel hn hb, ?_⟩
    rw [List.map_cons, List.map_cons, hlisted, ← hnames]
    rfl

theorem map_names_listsUnder (label : String) (sections : List (Located Section)) :
    (listsUnder label sections).map (fun items => namesIn items.value) =
      (sections.filterMap fun s => s.value.listed?).filterMap fun l => if l.1 = label then some l.2 else none := by
  rw [listsUnder, List.map_filterMap, List.filterMap_filterMap]
  congr
  funext s
  cases s.value with
  | list l items =>
    simp only [Section.listed?, Option.bind_some]
    split <;> rfl
  | transitions l groups => rfl

/-- What sections say that list what an automaton lists. -/
theorem listed_outline {a : Automaton} {sections : List (Located Section)} {groups : List (Located StateGroup)}
    (hl : (sections.filterMap fun s => s.value.listed?) = a.lists.map fun l => (l.1.label, l.2))
    (hb : blocksOf sections = [groups])
    (hh : (groups.map fun g => g.value.state.value) = a.outline.headers)
    (hr : (groups.flatMap fun g => Rule.ofGroup g.value) = a.outline.rules) :
    Complete sections ∧ Outline.ofSections sections = a.outline := by
  have hunder : ∀ label, (listsUnder label sections).map (fun items => namesIn items.value) =
      (a.lists.map fun l => (l.1.label, l.2)).filterMap fun l => if l.1 = label then some l.2 else none := by
    intro label
    rw [map_names_listsUnder, hl]
  have hnames : ∀ label, namesIn (namesUnder label sections) =
      ((listsUnder label sections).map fun items => namesIn items.value).flatten := by
    intro label
    simp [namesUnder, namesIn, List.flatMap_def, Function.comp_def]
  have hlength : ∀ label, (listsUnder label sections).length =
      ((listsUnder label sections).map fun items => namesIn items.value).length := by
    simp
  refine ⟨?_, ?_⟩
  · refine ⟨?_, ?_, ?_, ?_, ?_, ?_, ?_, ?_⟩
    · intro s hs label items he
      have hmem : (label.value, namesIn items.value) ∈ sections.filterMap fun s => s.value.listed? :=
        List.mem_filterMap.mpr ⟨s, hs, by rw [he]; rfl⟩
      rw [hl] at hmem
      obtain ⟨l, hmem, hlabel⟩ := List.mem_map.mp hmem
      rw [← (Prod.mk.inj hlabel).1]
      have hkind := a.lists_kind l hmem
      generalize l.1 = kind at hkind
      cases kind <;> first | decide | exact absurd rfl hkind
    all_goals first | rw [hlength, hunder] | rw [hb]
    all_goals cases hk : a.stackAlphabet <;> simp [Automaton.lists, SectionKind.label, hk]
  · have hstack : (listsUnder "stack_alphabet" sections).head?.map (namesIn ·.value) =
        ((listsUnder "stack_alphabet" sections).map fun items => namesIn items.value).head? := by
      simp
    simp only [Outline.ofSections, hnames, hstack, hunder, hb, List.flatten_cons, List.flatten_nil, List.append_nil,
      hh, hr]
    cases hk : a.stackAlphabet <;> simp [Automaton.lists, SectionKind.label, Automaton.outline, hk]

/-- Lines that say what the canonical text says are sections with the automaton's outline. -/
theorem sections_of_written {a : Automaton} {lines : List Line}
    (h : lines.map Line.content = a.writtenLines.map WrittenLine.content) :
    ∃ sections, Sections lines sections ∧ Complete sections ∧ Outline.ofSections sections = a.outline := by
  rw [Automaton.writtenLines, List.map_append, List.map_cons, List.map_map] at h
  obtain ⟨front, back, rfl, hfront, hback⟩ := List.map_eq_append_iff.mp h
  obtain ⟨opening, block, rfl, hopening, hblock⟩ := List.map_eq_cons_iff.mp hback
  obtain ⟨groups, hgroups, hheaders, hrules⟩ := groups_of_written hblock
  simp only [Line.content, WrittenLine.content, WrittenLine.list, Prod.mk.injEq] at hopening
  obtain ⟨place, after, ht, hafter⟩ := cons_of_values hopening.2
  obtain ⟨⟨_, colon⟩, rfl, rfl⟩ := List.map_eq_singleton_iff.mp hafter
  have hdeep : ∀ below ∈ block, opening.indent < below.indent := by
    intro below hmem
    have := hgroups.le_indent below hmem
    omega
  have hlast := Sections.transitions ht hdeep (by simp) (block_of_groups hgroups) .nil
  rw [List.append_nil] at hlast
  obtain ⟨before, hs, hlisted⟩ := sections_of_lists a.lists_kind hfront hlast
  have hbefore : before.filterMap (fun s => s.value.listed?) = a.lists.map fun l => (l.1.label, l.2) := by
    have hall := congrArg (List.filterMap id) hlisted
    simpa [List.filterMap_map, Function.comp_def] using hall
  have hblocks : blocksOf before = [] := by
    refine List.filterMap_eq_nil_iff.mpr fun s hmem => ?_
    have hsome : s.value.listed? ∈ a.lists.map fun l => some (l.1.label, l.2) := hlisted ▸ List.mem_map_of_mem hmem
    obtain ⟨l, -, hl⟩ := List.mem_map.mp hsome
    cases hv : s.value with
    | list label items => rfl
    | transitions label groups => simp [hv, Section.listed?] at hl
  refine ⟨_, hs, @listed_outline a _ groups ?_ ?_ hheaders hrules⟩
  · rw [List.filterMap_append, hbefore]
    simp [Section.listed?]
  · rw [blocksOf, List.filterMap_append]
    exact congrArg (· ++ [groups]) hblocks

end Pushdown
