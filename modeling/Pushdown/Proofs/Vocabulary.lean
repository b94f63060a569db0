/-
  Pushdown.Proofs.Vocabulary — letters and stack symbols as they are written.

  A letter is read back from its text (`Letter.ofText?_text`), and two texts never name
  one letter or one stack symbol.
-/

import Pushdown.Vocabulary

namespace Pushdown

theorem singleton_ne_inputEnd (c : Char) : String.singleton c ≠ "INPUT_END" := by
  intro h
  have hlist := congrArg String.toList h
  simp only [String.toList_singleton, String.reduceToList] at hlist
  cases hlist

namespace Letter

theorem ofText?_text (l : Letter) : ofText? l.text = some l := by
  cases l with
  | inputEnd => rfl
  | char c =>
    have hne : c.toString ≠ Pushdown.inputEnd := singleton_ne_inputEnd c
    rw [text, ofText?, if_neg hne]
    simp

theorem text_inj {l l' : Letter} (h : l.text = l'.text) : l = l' := by
  have hread := congrArg ofText? h
  rw [ofText?_text, ofText?_text] at hread
  exact Option.some.inj hread

theorem ofText?_isSome {name : String} :
    (ofText? name).isSome = true ↔ name = "INPUT_END" ∨ name.length = 1 := by
  rw [ofText?, ← String.length_toList]
  split
  · next h => exact iff_of_true rfl (Or.inl h)
  · next h =>
    rw [or_iff_right (show name ≠ "INPUT_END" from h)]
    split
    · next c hc => simp [hc]
    · next hne =>
      refine iff_of_false (by simp) fun h1 => ?_
      obtain ⟨c, hc⟩ := List.length_eq_one_iff.mp h1
      exact hne c hc

theorem ofText?_inj {name name' : String} {l : Letter} (h : ofText? name = some l) (h' : ofText? name' = some l) :
    name = name' :=
  (text_of_ofText? h).symm.trans (text_of_ofText? h')

end Letter

theorem StackSymbol.ofText_inj {name name' : String} (h : ofText name = ofText name') : name = name' := by
  rw [← text_ofText name, h, text_ofText]

end Pushdown
