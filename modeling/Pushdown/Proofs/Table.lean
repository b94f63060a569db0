/-
  Pushdown.Proofs.Table — entries, keys and look-up of a table.

  A new key puts its entry at the end (`entries_insert`); a look-up finds the entries and
  nothing else (`get?_eq_some`). Tables are equal if their entries are, and these if
  something that tells them apart is (`eq_of_map_eq`).
-/

import Pushdown.Table

namespace Pushdown

/-- A map that tells the items of two lists apart tells the lists apart. -/
theorem eq_of_map_eq {α β : Type} {f : α → β} {items items' : List α}
    (h : ∀ x ∈ items, ∀ y ∈ items', f x = f y → x = y) (he : items.map f = items'.map f) : items = items' := by
  induction items generalizing items' with
  | nil => exact (List.map_eq_nil_iff.mp he.symm).symm
  | cons x rest ih =>
    obtain ⟨y, rest', rfl, hfirst, hrest⟩ := List.map_eq_cons_iff.mp he.symm
    have hsame : x = y := h x List.mem_cons_self y List.mem_cons_self hfirst.symm
    have hmore : ∀ x ∈ rest, ∀ y ∈ rest', f x = f y → x = y := fun x hx y hy =>
      h x (List.mem_cons_of_mem _ hx) y (List.mem_cons_of_mem _ hy)
    rw [hsame, ih hmore hrest.symm]

namespace Table

variable {κ α : Type}

theorem ext_entries {t u : Table κ α} (h : t.entries = u.entries) : t = u := by
  cases t
  cases u
  cases h
  rfl

theorem nodup_map_keys {γ : Type} {f : κ → γ} (hf : ∀ k k', f k = f k' → k = k') (t : Table κ α) :
    (t.keys.map f).Nodup := by
  rw [List.Nodup, List.pairwise_map]
  exact t.distinct.imp fun hne e => hne (hf _ _ e)

variable [DecidableEq κ]

theorem put_of_notMem {key : κ} {value : α} {entries : List (κ × α)} (h : key ∉ entries.map Prod.fst) :
    put key value entries = entries ++ [(key, value)] := by
  induction entries with
  | nil => rfl
  | cons entry rest ih =>
    simp only [List.map_cons, List.mem_cons, not_or] at h
    rw [put, if_neg (Ne.symm h.1), ih h.2]
    rfl

theorem entries_insert {t : Table κ α} {key : κ} {value : α} (h : key ∉ t.keys) :
    (t.insert key value).entries = t.entries ++ [(key, value)] :=
  put_of_notMem h

theorem mem_keys_insert {t : Table κ α} {key key' : κ} {value : α} :
    key' ∈ (t.insert key value).keys ↔ key' = key ∨ key' ∈ t.keys := by
  rw [keys_insert]
  split
  · next h =>
    refine (or_iff_right_of_imp ?_).symm
    intro e
    exact e ▸ h
  · rw [List.mem_append, List.mem_singleton, or_comm]

theorem mem_of_get? {t : Table κ α} {key : κ} {value : α} (h : t.get? key = some value) :
    (key, value) ∈ t.entries := by
  obtain ⟨entry, hf, rfl⟩ := Option.map_eq_some_iff.mp h
  have hk : entry.1 = key := by simpa using List.find?_some hf
  subst hk
  exact List.mem_of_find?_eq_some hf

/-- No key stands twice, so each entry is found. -/
theorem get?_eq_some {t : Table κ α} {key : κ} {value : α} :
    t.get? key = some value ↔ (key, value) ∈ t.entries := by
  refine ⟨mem_of_get?, fun h => ?_⟩
  obtain ⟨before, after, hsplit⟩ := List.append_of_mem h
  have hd := t.distinct
  rw [hsplit, List.map_append, List.map_cons] at hd
  have hnew : ∀ entry ∈ before, ¬ entry.1 = key := fun entry he heq =>
    (List.nodup_append.mp hd).2.2 _ (List.mem_map_of_mem he) _ List.mem_cons_self heq
  have hnone : before.find? (fun entry => entry.1 = key) = none := by simpa [List.find?_eq_none] using hnew
  rw [get?, hsplit, List.find?_append, hnone]
  simp

theorem get?_eq_none {t : Table κ α} {key : κ} : t.get? key = none ↔ key ∉ t.keys := by
  simp only [get?, keys, Option.map_eq_none_iff, List.find?_eq_none, decide_eq_true_eq, List.mem_map, not_exists,
    not_and]

end Table

end Pushdown
