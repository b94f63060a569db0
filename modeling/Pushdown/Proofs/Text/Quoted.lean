/-
  Pushdown.Proofs.Text.Quoted — a quoted text stands on one line and is that of no other text.

  A character that would not show is written as its code point, with as many digits as it
  takes and a brace behind them. So the form of a character is read back from whatever it
  stands before (`unescape?_escape`), and the first quote that is not escaped ends the text
  (`ofString_unambiguous`).
-/

import Pushdown.Proofs.Json
import Pushdown.Text.Quoted

namespace Pushdown.Text

/-- The characters of a literal are given by its list, without decoding the text again. -/
theorem notMem_literal {c : Char} {text : List Char} (h : c ∉ text) : c ∉ (String.ofList text).toList := by
  rwa [String.toList_ofList]

theorem notMem_append {c : Char} {s t : String} (hs : c ∉ s.toList) (ht : c ∉ t.toList) : c ∉ (s ++ t).toList := by
  rw [String.toList_append, List.mem_append, not_or]
  exact ⟨hs, ht⟩

namespace Quoted

open Json (hexValue hexValue_digitChar escaped_unambiguous)

/-! ## Hexadecimal digits -/

def readHex (digits : List Char) : Nat := digits.foldl (fun n c => 16 * n + hexValue c) 0

theorem readHex_toDigits (n : Nat) : readHex (Nat.toDigits 16 n) = n := by
  induction n using Nat.strongRecOn with
  | ind n ih =>
    rw [Nat.toDigits_eq_if (by omega)]
    split
    · next h => simp [readHex, hexValue_digitChar n h]
    · next h =>
      have hlast := hexValue_digitChar (n % 16) (Nat.mod_lt _ (by omega))
      have hfirst := ih (n / 16) (by omega)
      rw [readHex] at hfirst
      rw [readHex, List.foldl_append, hfirst, List.foldl_cons, List.foldl_nil, hlast, Nat.div_add_mod]

theorem digitChar_of_mem_toDigits {n : Nat} {c : Char} (h : c ∈ Nat.toDigits 16 n) : ∃ d < 16, c = Nat.digitChar d := by
  induction n using Nat.strongRecOn with
  | ind n ih =>
    rw [Nat.toDigits_eq_if (by omega)] at h
    split at h
    · next hn => exact ⟨n, hn, List.mem_singleton.mp h⟩
    · next hn =>
      rcases List.mem_append.mp h with h | h
      · exact ih (n / 16) (by omega) h
      · exact ⟨n % 16, Nat.mod_lt _ (by omega), List.mem_singleton.mp h⟩

theorem ne_of_mem_toDigits {n : Nat} {c d : Char} (hd : ∀ k < 16, Nat.digitChar k ≠ d) (h : c ∈ Nat.toDigits 16 n) :
    c ≠ d := by
  obtain ⟨k, hk, rfl⟩ := digitChar_of_mem_toDigits h
  exact hd k hk

/-! ## Characters -/

/-- The first character of what is left of a quoted text, if it does not end here. -/
def unescape? (close : Char) : List Char → Option (Char × List Char)
  | '\\' :: 'u' :: '\x7b' :: more =>
    let digits := more.takeWhile (· != '\x7d')
    some (Char.ofNat (readHex digits), more.drop (digits.length + 1))
  | '\\' :: '0' :: rest => some ('\x00', rest)
  | '\\' :: 't' :: rest => some ('\t', rest)
  | '\\' :: 'r' :: rest => some ('\r', rest)
  | '\\' :: 'n' :: rest => some ('\n', rest)
  | '\\' :: c :: rest => some (c, rest)
  | c :: rest => if c = close then none else some (c, rest)
  | [] => none

theorem unescape?_codePoint (close c : Char) (rest : List Char) :
    unescape? close (codePoint c ++ rest) = some (c, rest) := by
  have hdigits : (Nat.toDigits 16 c.toNat ++ '\x7d' :: rest).takeWhile (· != '\x7d') = Nat.toDigits 16 c.toNat := by
    have hall : ∀ d ∈ Nat.toDigits 16 c.toNat, (d != '\x7d') = true := by
      intro d hd
      simpa using ne_of_mem_toDigits (by decide) hd
    rw [List.takeWhile_append_of_pos hall, List.takeWhile_cons_of_neg (by simp), List.append_nil]
  have hform : codePoint c ++ rest = '\\' :: 'u' :: '\x7b' :: (Nat.toDigits 16 c.toNat ++ '\x7d' :: rest) := by
    simp [codePoint]
  rw [hform, unescape?]
  simp only [hdigits, readHex_toDigits, Char.ofNat_toNat]
  simp

/-- The quote must not be one of the letters that stand for other characters. -/
theorem unescape?_escape (c : Char) (rest : List Char) : unescape? '"' (escape '"' c ++ rest) = some (c, rest) := by
  fun_cases escape '"' c with
  | case5 _ _ _ _ h =>
    -- a backslash or a quote stands for itself behind a backslash
    rcases (by simpa using h : c = '\\' ∨ c = '"') with rfl | rfl <;> rfl
  | case6 =>
    rw [List.singleton_append, unescape?.eq_def]
    split <;> simp_all
  | case7 => exact unescape?_codePoint '"' c rest
  | _ => subst_vars; rfl

theorem lineFeed_notMem_escape (quote c : Char) : '\n' ∉ escape quote c := by
  fun_cases escape quote c with
  | case5 _ _ _ hne => simpa using Ne.symm hne
  | case6 _ _ _ hne => simpa using Ne.symm hne
  | case7 =>
    have hdigits : '\n' ∉ Nat.toDigits 16 c.toNat := fun h => ne_of_mem_toDigits (by decide) h rfl
    simp [codePoint, hdigits]
  | _ => decide

/-! ## Texts -/

theorem ofString_append (s : String) (rest : List Char) :
    (ofString s).toList ++ rest = '"' :: (s.toList.flatMap (escape '"') ++ '"' :: rest) := by
  simp [ofString]

/-- A quoted text can be told from what stands behind it. -/
theorem ofString_unambiguous {s s' : String} {rest rest' : List Char}
    (h : (ofString s).toList ++ rest = (ofString s').toList ++ rest') : s = s' ∧ rest = rest' := by
  simp only [ofString_append, List.cons.injEq, true_and] at h
  obtain ⟨hs, hrest⟩ := escaped_unambiguous unescape?_escape (fun _ => rfl) h
  exact ⟨String.toList_inj.mp hs, hrest⟩

theorem lineFeed_notMem_ofString (s : String) : '\n' ∉ (ofString s).toList := by
  simp [ofString, lineFeed_notMem_escape]

theorem lineFeed_notMem_ofChar (c : Char) : '\n' ∉ (ofChar c).toList := by
  simp [ofChar, lineFeed_notMem_escape]

end Quoted

end Pushdown.Text
