/-
  Pushdown.Proofs.Json — the text of a JSON value is that of no other value.

  Nothing but its own text tells where a value ends: a string ends with the first quote
  that is not escaped, an array or an object with its bracket, a number where no digit
  follows. So a value and what stands behind it can be told apart, unless it is a digit
  (`unambiguous`), and two values never have one text (`render_inj`).
-/

import Pushdown.Json

namespace Pushdown.Json

/-- A text that no number goes on in. -/
def EndsNumber (rest : List Char) : Prop := ∀ c ∈ rest.head?, c.isDigit = false

/-- A value can be told from what stands behind it. -/
def Unambiguous {α : Type} (form : α → List Char) (x : α) : Prop :=
  ∀ x' rest rest', EndsNumber rest → EndsNumber rest' → form x ++ rest = form x' ++ rest' → x = x' ∧ rest = rest'

theorem endsNumber_nil : EndsNumber [] := by simp [EndsNumber]

theorem endsNumber_cons {c : Char} (h : c.isDigit = false) (rest : List Char) : EndsNumber (c :: rest) := by
  intro d hd
  cases hd
  exact h

/-! ## Strings -/

def hexValue (c : Char) : Nat := if c.isDigit then c.toNat - '0'.toNat else c.toNat - 'a'.toNat + 10

/-- The first character of what is left of a string, if it does not end here. -/
def unescape? : List Char → Option (Char × List Char)
  | '\\' :: 'u' :: _ :: _ :: high :: low :: rest => some (Char.ofNat (16 * hexValue high + hexValue low), rest)
  | '\\' :: 'b' :: rest => some ('\x08', rest)
  | '\\' :: 'f' :: rest => some ('\x0c', rest)
  | '\\' :: 'n' :: rest => some ('\n', rest)
  | '\\' :: 'r' :: rest => some ('\r', rest)
  | '\\' :: 't' :: rest => some ('\t', rest)
  | '\\' :: c :: rest => some (c, rest)
  | '"' :: _ => none
  | c :: rest => some (c, rest)
  | [] => none

theorem hexValue_digitChar : ∀ d < 16, hexValue (Nat.digitChar d) = d := by decide

theorem unescape?_escape (c : Char) (rest : List Char) : unescape? (escape c ++ rest) = some (c, rest) := by
  fun_cases escape c with
  | case1 h =>
    -- a quote or a backslash stands for itself behind a backslash
    rcases (by simpa using h : c = '"' ∨ c = '\\') with rfl | rfl <;> rfl
  | case7 _ _ _ _ _ _ h =>
    have hhigh := hexValue_digitChar (c.toNat / 16) (by omega)
    have hlow := hexValue_digitChar (c.toNat % 16) (by omega)
    have hvalue : 16 * (c.toNat / 16) + c.toNat % 16 = c.toNat := Nat.div_add_mod _ _
    simp only [List.cons_append, List.nil_append, unescape?, hhigh, hlow, hvalue, Char.ofNat_toNat]
  | case8 hplain =>
    simp only [Bool.or_eq_true, not_or] at hplain
    rw [List.singleton_append, unescape?.eq_def]
    split <;> simp_all
  | _ => subst_vars; rfl

/-- Where the form of a character is read back from whatever it stands before, characters in
    their forms can be told from the quote that ends them. -/
theorem escaped_unambiguous {form : Char → List Char} {read? : List Char → Option (Char × List Char)} {close : Char}
    (hform : ∀ c rest, read? (form c ++ rest) = some (c, rest)) (hclose : ∀ rest, read? (close :: rest) = none)
    {s s' rest rest' : List Char} (h : s.flatMap form ++ close :: rest = s'.flatMap form ++ close :: rest') :
    s = s' ∧ rest = rest' := by
  have hread := congrArg read? h
  induction s generalizing s' with
  | nil =>
    cases s' with
    | nil => exact ⟨rfl, (List.cons.inj h).2⟩
    | cons c' more' =>
      rw [List.flatMap_nil, List.nil_append, hclose, List.flatMap_cons, List.append_assoc, hform] at hread
      cases hread
  | cons c more ih =>
    rw [List.flatMap_cons, List.append_assoc, hform] at hread
    cases s' with
    | nil =>
      rw [List.flatMap_nil, List.nil_append, hclose] at hread
      cases hread
    | cons c' more' =>
      rw [List.flatMap_cons, List.append_assoc, hform, Option.some.injEq, Prod.mk.injEq] at hread
      obtain ⟨rfl, hmore⟩ := hread
      obtain ⟨rfl, hrest⟩ := ih hmore (congrArg read? hmore)
      exact ⟨rfl, hrest⟩

theorem quote_append (s : String) (rest : List Char) :
    (quote s).toList ++ rest = '"' :: (s.toList.flatMap escape ++ '"' :: rest) := by
  simp [quote]

theorem quote_unambiguous (s : String) : Unambiguous (fun s => (quote s).toList) s := by
  intro s' rest rest' _ _ h
  simp only [quote_append, List.cons.injEq, true_and] at h
  obtain ⟨hs, hrest⟩ := escaped_unambiguous unescape?_escape (fun _ => rfl) h
  exact ⟨String.toList_inj.mp hs, hrest⟩

/-! ## Numbers -/

theorem takeWhile_digits {n : Nat} {rest : List Char} (h : EndsNumber rest) :
    (Nat.toDigits 10 n ++ rest).takeWhile Char.isDigit = Nat.toDigits 10 n := by
  have hdigits : ∀ c ∈ Nat.toDigits 10 n, c.isDigit = true := fun c hc =>
    Nat.isDigit_of_mem_toDigits (by omega) (by omega) hc
  rw [List.takeWhile_append_of_pos hdigits]
  cases rest with
  | nil => exact List.append_nil _
  | cons c more =>
    rw [List.takeWhile_cons_of_neg (by simp [h c rfl]), List.append_nil]

theorem digits_unambiguous (n : Nat) : Unambiguous (Nat.toDigits 10) n := by
  intro n' rest rest' hrest hrest' h
  have hdigits := congrArg (List.takeWhile Char.isDigit) h
  rw [takeWhile_digits hrest, takeWhile_digits hrest'] at hdigits
  have hn : n = n' := by rw [← @Nat.ofDigitChars_ten_toDigits n, hdigits, Nat.ofDigitChars_ten_toDigits]
  subst hn
  exact ⟨rfl, List.append_cancel_left h⟩

/-! ## Forms between brackets -/

section Enclosed

variable {α : Type} {form : α → List Char} {close : Char} {items items' : List α} {rest rest' : List Char}

/-- Forms with commas between them, a bracket that closes them, and what stands behind it. -/
def enclosed (form : α → List Char) (close : Char) (items : List α) (rest : List Char) : List Char :=
  [','].intercalate (items.map form) ++ close :: rest

/-- What stands behind one of them: nothing but the bracket, or a comma and the others. -/
def following (form : α → List Char) (close : Char) (items : List α) (rest : List Char) : List Char :=
  if items = [] then close :: rest else ',' :: enclosed form close items rest

theorem enclosed_cons (x : α) (items : List α) (rest : List Char) :
    enclosed form close (x :: items) rest = form x ++ following form close items rest := by
  cases items <;> simp [enclosed, following]

theorem endsNumber_following (h : close.isDigit = false) (items : List α) (rest : List Char) :
    EndsNumber (following form close items rest) := by
  unfold following
  split
  · exact endsNumber_cons h rest
  · exact endsNumber_cons (by decide) _

/-- Forms between brackets can be told from what stands behind them, if no form begins with
    the bracket that closes them. -/
theorem enclosed_unambiguous (hclose : close.isDigit = false ∧ close ≠ ',')
    (hhead : ∀ x, ∃ c more, form x = c :: more ∧ c ≠ close) (h : ∀ x ∈ items, Unambiguous form x)
    (he : enclosed form close items rest = enclosed form close items' rest') : items = items' ∧ rest = rest' := by
  induction items generalizing items' with
  | nil =>
    cases items' with
    | nil => exact ⟨rfl, (List.cons.inj he).2⟩
    | cons x' more' =>
      obtain ⟨c, tail, hx, hc⟩ := hhead x'
      rw [enclosed_cons, hx] at he
      exact absurd (List.cons.inj he).1.symm hc
  | cons x more ih =>
    cases items' with
    | nil =>
      obtain ⟨c, tail, hx, hc⟩ := hhead x
      rw [enclosed_cons, hx] at he
      exact absurd (List.cons.inj he).1 hc
    | cons x' more' =>
      obtain ⟨hx, hmore⟩ := List.forall_mem_cons.mp h
      rw [enclosed_cons, enclosed_cons] at he
      obtain ⟨rfl, hfollowing⟩ :=
        hx x' _ _ (endsNumber_following hclose.1 more rest) (endsNumber_following hclose.1 more' rest') he
      unfold following at hfollowing
      split at hfollowing
      · next hnil =>
        split at hfollowing
        · next hnil' => exact ⟨by rw [hnil, hnil'], (List.cons.inj hfollowing).2⟩
        · exact absurd (List.cons.inj hfollowing).1 hclose.2
      · split at hfollowing
        · exact absurd (List.cons.inj hfollowing).1.symm hclose.2
        · obtain ⟨rfl, hrest⟩ := ih hmore (List.cons.inj hfollowing).2
          exact ⟨rfl, hrest⟩

end Enclosed

/-! ## Values -/

/-- The text of a value, character by character. -/
def text (j : Json) : List Char := j.render.toList

/-- The text of a field. -/
def fieldText (field : String × Json) : List Char := (quote field.1).toList ++ ':' :: field.2.text

theorem itemTexts_eq_map (items : List Json) : itemTexts items = items.map render := by
  induction items with
  | nil => rfl
  | cons item rest ih => rw [itemTexts, ih, List.map_cons]

theorem map_toList_fieldTexts (fields : List (String × Json)) :
    (fieldTexts fields).map String.toList = fields.map fieldText := by
  induction fields with
  | nil => rfl
  | cons field rest ih =>
    rw [fieldTexts, List.map_cons, ih, List.map_cons, fieldText, String.toList_append, String.toList_append,
      List.append_assoc]
    rfl

theorem text_number (n : Nat) : (number n).text = Nat.toDigits 10 n := by
  rw [text, render, Nat.toList_repr]

theorem text_array (items : List Json) (rest : List Char) :
    (array items).text ++ rest = '[' :: enclosed text ']' items rest := by
  have htext : items.map (fun item => item.render.toList) = items.map text := rfl
  rw [text, render, itemTexts_eq_map]
  simp [enclosed, Function.comp_def, htext]

theorem text_object (fields : List (String × Json)) (rest : List Char) :
    (object fields).text ++ rest = '\x7b' :: enclosed fieldText '\x7d' fields rest := by
  rw [text, render]
  simp [enclosed, map_toList_fieldTexts]

/-- What a value begins with, any digit taken for a zero. -/
def opening : Json → Char
  | null => 'n'
  | bool true => 't'
  | bool false => 'f'
  | number _ => '0'
  | string _ => '"'
  | array _ => '['
  | object _ => '\x7b'

theorem exists_head (j : Json) :
    ∃ c more, j.text = c :: more ∧ (if c.isDigit then '0' else c) = j.opening := by
  cases j with
  | null => exact ⟨_, _, rfl, rfl⟩
  | bool value => cases value <;> exact ⟨_, _, rfl, rfl⟩
  | number n =>
    obtain ⟨c, more, hn⟩ := List.exists_cons_of_ne_nil (@Nat.toDigits_ne_nil n 10)
    have hc : c.isDigit = true :=
      Nat.isDigit_of_mem_toDigits (by omega) (by omega) (hn ▸ List.mem_cons_self : c ∈ Nat.toDigits 10 n)
    exact ⟨c, more, by rw [text_number, hn], if_pos hc⟩
  | string s => exact ⟨'"', _, (List.append_nil _).symm.trans (quote_append s []), rfl⟩
  | array items => exact ⟨'[', _, (List.append_nil _).symm.trans (text_array items []), rfl⟩
  | object fields => exact ⟨'\x7b', _, (List.append_nil _).symm.trans (text_object fields []), rfl⟩

/-- No value begins with a bracket that closes an array. -/
theorem exists_head_ne_close (j : Json) : ∃ c more, j.text = c :: more ∧ c ≠ ']' := by
  obtain ⟨c, more, hj, hc⟩ := exists_head j
  refine ⟨c, more, hj, ?_⟩
  rintro rfl
  cases j with
  | bool value => cases value <;> exact absurd hc (by decide)
  | _ => exact absurd hc (by simp [opening])

/-- Values of one kind: both truth values are of their own. -/
inductive SameKind : Json → Json → Prop
  | null : SameKind null null
  | bool (value : Bool) : SameKind (bool value) (bool value)
  | number (n n' : Nat) : SameKind (number n) (number n')
  | string (s s' : String) : SameKind (string s) (string s')
  | array (items items' : List Json) : SameKind (array items) (array items')
  | object (fields fields' : List (String × Json)) : SameKind (object fields) (object fields')

theorem sameKind_of_opening {j j' : Json} (h : j.opening = j'.opening) : SameKind j j' := by
  cases j with
  | bool value =>
    cases value <;> cases j' with
    | bool value' => cases value' <;> first | exact .bool _ | exact absurd h (by decide)
    | _ => simp [opening] at h
  | _ =>
    cases j' with
    | bool value' => cases value' <;> simp [opening] at h
    | _ => first | constructor | simp [opening] at h

/-- The first character of a value tells its kind. -/
theorem sameKind_of_text {j j' : Json} {rest rest' : List Char} (h : j.text ++ rest = j'.text ++ rest') :
    SameKind j j' := by
  obtain ⟨c, more, hj, hc⟩ := exists_head j
  obtain ⟨c', more', hj', hc'⟩ := exists_head j'
  rw [hj, hj'] at h
  apply sameKind_of_opening
  rw [← hc, ← hc', (List.cons.inj h).1]

/-- What holds of a value if it holds of its parts. -/
@[elab_as_elim]
theorem induction_on {P : Json → Prop} (j : Json) (null : P null) (bool : ∀ value, P (bool value))
    (number : ∀ n, P (number n)) (string : ∀ s, P (string s))
    (array : ∀ items, (∀ item ∈ items, P item) → P (array items))
    (object : ∀ fields, (∀ field ∈ fields, P field.2) → P (object fields)) : P j :=
  @Json.rec P (fun items => ∀ item ∈ items, P item) (fun fields => ∀ field ∈ fields, P field.2) (fun field => P field.2)
    null bool number string array object (by simp) (fun _ _ h ih => List.forall_mem_cons.mpr ⟨h, ih⟩) (by simp)
    (fun _ _ h ih => List.forall_mem_cons.mpr ⟨h, ih⟩) (fun _ _ h => h) j

theorem fieldText_unambiguous {field : String × Json} (h : Unambiguous text field.2) : Unambiguous fieldText field := by
  intro field' rest rest' hrest hrest' he
  rw [fieldText, fieldText, List.append_assoc, List.append_assoc] at he
  obtain ⟨hname, hvalue⟩ := quote_unambiguous field.1 field'.1 _ _ (endsNumber_cons (by decide) _)
    (endsNumber_cons (by decide) _) he
  obtain ⟨hvalue, hrest⟩ := h field'.2 rest rest' hrest hrest' (List.cons.inj hvalue).2
  exact ⟨Prod.ext hname hvalue, hrest⟩

/-- A value can be told from what stands behind it, if that is no digit. The induction is
    on the value. The other value is of its kind, as it begins with the same character. -/
theorem unambiguous (j : Json) : Unambiguous text j := by
  induction j using induction_on with
  | null =>
    intro j' rest rest' _ _ he
    cases sameKind_of_text he
    exact ⟨rfl, List.append_cancel_left he⟩
  | bool value =>
    intro j' rest rest' _ _ he
    cases sameKind_of_text he
    exact ⟨rfl, List.append_cancel_left he⟩
  | number n =>
    intro j' rest rest' hrest hrest' he
    cases sameKind_of_text he with
    | number _ n' =>
      rw [text_number, text_number] at he
      obtain ⟨rfl, hsame⟩ := digits_unambiguous n n' rest rest' hrest hrest' he
      exact ⟨rfl, hsame⟩
  | string s =>
    intro j' rest rest' hrest hrest' he
    cases sameKind_of_text he with
    | string _ s' =>
      obtain ⟨rfl, hsame⟩ := quote_unambiguous s s' rest rest' hrest hrest' he
      exact ⟨rfl, hsame⟩
  | array items ih =>
    intro j' rest rest' _ _ he
    cases sameKind_of_text he with
    | array _ items' =>
      rw [text_array, text_array] at he
      have hclose : ']'.isDigit = false ∧ ']' ≠ ',' := by decide
      obtain ⟨rfl, hsame⟩ := enclosed_unambiguous hclose exists_head_ne_close ih (List.cons.inj he).2
      exact ⟨rfl, hsame⟩
  | object fields ih =>
    intro j' rest rest' _ _ he
    cases sameKind_of_text he with
    | object _ fields' =>
      rw [text_object, text_object] at he
      have hclose : '\x7d'.isDigit = false ∧ '\x7d' ≠ ',' := by decide
      have hhead : ∀ field, ∃ c more, fieldText field = c :: more ∧ c ≠ '\x7d' :=
        fun field => ⟨'"', _, quote_append field.1 _, by decide⟩
      obtain ⟨rfl, hsame⟩ :=
        enclosed_unambiguous hclose hhead (fun field hf => fieldText_unambiguous (ih field hf)) (List.cons.inj he).2
      exact ⟨rfl, hsame⟩

/-- Two values do not have one text. -/
theorem render_inj {j j' : Json} (h : j.render = j'.render) : j = j' := by
  have htext : j.text ++ [] = j'.text ++ [] := by rw [text, text, h]
  exact (unambiguous j j' [] [] endsNumber_nil endsNumber_nil htext).1

/-! ## One line -/

theorem lineFeed_notMem_escape (c : Char) : '\n' ∉ escape c := by
  have hdigit : ∀ d < 16, '\n' ≠ Nat.digitChar d := by decide
  fun_cases escape c with
  | case1 h =>
    rcases (by simpa using h : c = '"' ∨ c = '\\') with rfl | rfl <;> decide
  | case7 _ _ _ _ _ _ h =>
    have hhigh := hdigit (c.toNat / 16) (by omega)
    have hlow := hdigit (c.toNat % 16) (by omega)
    simp [hhigh, hlow]
  | case8 _ _ _ hne => simpa using Ne.symm hne
  | _ => decide

theorem lineFeed_notMem_quote (s : String) : '\n' ∉ (quote s).toList := by
  simp [quote, lineFeed_notMem_escape]

theorem lineFeed_notMem_digits (n : Nat) : '\n' ∉ Nat.toDigits 10 n := by
  intro h
  exact absurd (Nat.isDigit_of_mem_toDigits (by omega) (by omega) h) (by decide)

theorem lineFeed_notMem_enclosed {α : Type} {form : α → List Char} {close : Char} {items : List α}
    (hclose : '\n' ≠ close) (h : ∀ x ∈ items, '\n' ∉ form x) : '\n' ∉ enclosed form close items [] := by
  induction items with
  | nil => simpa [enclosed] using hclose
  | cons x more ih =>
    obtain ⟨hx, hmore⟩ := List.forall_mem_cons.mp h
    rw [enclosed_cons, List.mem_append, not_or, following]
    refine ⟨hx, ?_⟩
    split
    · simpa using hclose
    · exact List.not_mem_cons_of_ne_of_not_mem (by decide) (ih hmore)

/-- A value is written on one line. -/
theorem lineFeed_notMem_text (j : Json) : '\n' ∉ j.text := by
  induction j using induction_on with
  | null => decide
  | bool value => cases value <;> decide
  | number n =>
    rw [text_number]
    exact lineFeed_notMem_digits n
  | string s => exact lineFeed_notMem_quote s
  | array items ih =>
    rw [← List.append_nil (array items).text, text_array, List.mem_cons, not_or]
    exact ⟨by decide, lineFeed_notMem_enclosed (by decide) ih⟩
  | object fields ih =>
    rw [← List.append_nil (object fields).text, text_object, List.mem_cons, not_or]
    refine ⟨by decide, lineFeed_notMem_enclosed (by decide) ?_⟩
    intro field hfield
    simp only [fieldText, List.mem_append, List.mem_cons, not_or]
    exact ⟨lineFeed_notMem_quote field.1, by decide, ih field hfield⟩

end Pushdown.Json
