/-
  Pushdown.Proofs.Text.Offset — cuts at the border of two parts of a text, and the text with
  carriage returns before its line feeds.

  `returned` gives every line feed a carriage return, and `returnedOffset` says where the
  offsets of the text have gone. It keeps their order, and each on its line
  (`lineOf_returned`): this holds of every offset, also of those that cut nothing.
-/

import Pushdown.Text.Offset

namespace Pushdown.Text

/-! ## Cuts -/

theorem takeBytes?_add_append (a b : List Char) (n : Nat) :
    takeBytes? (byteLength a + n) (a ++ b) = (takeBytes? n b).map (a ++ ·) := by
  induction a with
  | nil => simp
  | cons c a ih =>
    have hc := c.utf8Size_pos
    obtain ⟨k, hk⟩ : ∃ k, byteLength (c :: a) + n = k + 1 := ⟨c.utf8Size + byteLength a + n - 1, by simp; omega⟩
    have hle : c.utf8Size ≤ k + 1 := by simp at hk; omega
    have hrest : k + 1 - c.utf8Size = byteLength a + n := by simp at hk; omega
    rw [hk, List.cons_append, takeBytes?, if_pos hle, hrest, ih, Option.map_map]
    rfl

/-- An offset inside the first character cuts nothing. -/
theorem takeBytes?_of_lt {c : Char} {rest : List Char} {n : Nat} (hn : n ≠ 0) (h : n < c.utf8Size) :
    takeBytes? n (c :: rest) = none := by
  obtain ⟨k, rfl⟩ := Nat.exists_eq_succ_of_ne_zero hn
  rw [takeBytes?, if_neg (by omega)]

/-! ## Carriage returns -/

/-- A line end with its carriage return, or any other character. -/
def lineEnding (c : Char) : List Char := if c = '\n' then ['\r', '\n'] else [c]

/-- A text with a carriage return before every line feed. -/
def returned (text : List Char) : List Char := text.flatMap lineEnding

/-- Where an offset has gone. -/
def returnedOffset : List Char → Nat → Nat
  | [], offset => offset
  | c :: rest, offset =>
    if offset < c.utf8Size then offset
    else byteLength (lineEnding c) + returnedOffset rest (offset - c.utf8Size)

theorem returned_cons (c : Char) (rest : List Char) : returned (c :: rest) = lineEnding c ++ returned rest :=
  List.flatMap_cons ..

theorem returned_append (a b : List Char) : returned (a ++ b) = returned a ++ returned b := List.flatMap_append

theorem utf8Size_le_lineEnding (c : Char) : c.utf8Size ≤ byteLength (lineEnding c) := by
  unfold lineEnding
  split
  · next h =>
    subst h
    decide
  · simp

theorem returnedOffset_mono (text : List Char) : ∀ i j, i ≤ j → returnedOffset text i ≤ returnedOffset text j := by
  induction text with
  | nil => exact fun i j h => h
  | cons c rest ih =>
    intro i j h
    have hsize := utf8Size_le_lineEnding c
    unfold returnedOffset
    by_cases hi : i < c.utf8Size
    · rw [if_pos hi]
      split
      · exact h
      · omega
    · have hstep := ih (i - c.utf8Size) (j - c.utf8Size) (by omega)
      rw [if_neg hi, if_neg (by omega)]
      omega

theorem returnedOffset_add_append (a b : List Char) (k : Nat) :
    returnedOffset (a ++ b) (byteLength a + k) = byteLength (returned a) + returnedOffset b k := by
  induction a with
  | nil => simp [returned]
  | cons c a ih =>
    have hrest : c.utf8Size + byteLength a + k - c.utf8Size = byteLength a + k := by omega
    rw [List.cons_append, returnedOffset, byteLength_cons, if_neg (by omega), hrest, ih, returned_cons,
      byteLength_append, Nat.add_assoc]

theorem returned_of_notMem {line : List Char} (h : '\n' ∉ line) : returned line = line := by
  induction line with
  | nil => rfl
  | cons c rest ih =>
    simp only [List.mem_cons, not_or] at h
    rw [returned_cons, ih h.2, lineEnding, if_neg (Ne.symm h.1), List.singleton_append]

/-- On the first line nothing has gone anywhere. -/
theorem returnedOffset_of_notMem {line : List Char} (h : '\n' ∉ line) (after : List Char) {k : Nat}
    (hk : k ≤ byteLength line) : returnedOffset (line ++ after) k = k := by
  induction line generalizing k with
  | nil =>
    obtain rfl : k = 0 := Nat.le_zero.mp hk
    cases after with
    | nil => rfl
    | cons c rest => rw [List.nil_append, returnedOffset, if_pos c.utf8Size_pos]
  | cons c rest ih =>
    simp only [List.mem_cons, not_or] at h
    rw [byteLength_cons] at hk
    rw [List.cons_append, returnedOffset]
    split
    · rfl
    · rw [ih h.2 (by omega), lineEnding, if_neg (Ne.symm h.1), byteLength_cons, byteLength_nil]
      omega

section LineFeed

variable {line : List Char} (h : '\n' ∉ line) (after : List Char)
include h

theorem returned_append_lineFeed : returned (line ++ '\n' :: after) = line ++ '\r' :: '\n' :: returned after := by
  rw [returned_append, returned_of_notMem h, returned_cons]
  rfl

theorem returnedOffset_append_lineFeed (k : Nat) :
    returnedOffset (line ++ '\n' :: after) (byteLength line + 1 + k) =
      byteLength line + 2 + returnedOffset after k := by
  have hsize : '\n'.utf8Size = 1 := by decide
  have hrest : 1 + k - 1 = k := by omega
  have hending : byteLength (lineEnding '\n') = 2 := by decide
  rw [Nat.add_assoc, returnedOffset_add_append, returned_of_notMem h, returnedOffset, hsize, if_neg (by omega), hrest,
    hending, Nat.add_assoc]

end LineFeed

theorem count_returned (text : List Char) : (returned text).count '\n' = text.count '\n' := by
  induction text with
  | nil => rfl
  | cons c rest ih =>
    rw [returned_cons, List.count_append, ih, List.count_cons, Nat.add_comm]
    unfold lineEnding
    by_cases h : c = '\n'
    · subst h
      rfl
    · simp [h]

theorem takeBytes?_returned (text : List Char) (offset : Nat) :
    takeBytes? (returnedOffset text offset) (returned text) = (takeBytes? offset text).map returned := by
  induction text generalizing offset with
  | nil => cases offset <;> rfl
  | cons c rest ih =>
    rw [returnedOffset, returned_cons]
    by_cases h0 : offset = 0
    · subst h0
      rw [if_pos c.utf8Size_pos, takeBytes?, takeBytes?]
      rfl
    · split
      · next hlt =>
        -- inside a character, which is no line feed then
        have hc : c ≠ '\n' := by
          intro h
          subst h
          have hsize : '\n'.utf8Size = 1 := by decide
          omega
        rw [lineEnding, if_neg hc, List.singleton_append, takeBytes?_of_lt h0 hlt, takeBytes?_of_lt h0 hlt]
        rfl
      · next hle =>
        have hcut := takeBytes?_add_append [c] rest (offset - c.utf8Size)
        have hoffset : byteLength [c] + (offset - c.utf8Size) = offset := by simp; omega
        rw [hoffset, List.singleton_append] at hcut
        rw [takeBytes?_add_append, ih, hcut, Option.map_map, Option.map_map]
        exact congrArg (Option.map · _) (funext fun part => (returned_cons c part).symm)

/-- Every offset is on the line it was on. -/
theorem lineOf_returned (text : List Char) (offset : Nat) :
    lineOf (returned text) (returnedOffset text offset) = lineOf text offset := by
  rw [lineOf, lineOf, takeBytes?_returned]
  cases takeBytes? offset text with
  | none => exact congrArg (· + 1) (count_returned text)
  | some part => exact congrArg (· + 1) (count_returned part)

end Pushdown.Text
