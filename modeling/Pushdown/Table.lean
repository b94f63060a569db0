/-
  Pushdown.Table — tables in order of insertion.

  A new key goes to the end; a key that is there already keeps its place and takes the
  new value (`keys_insert`, `get?_insert`). No key stands twice, by construction.
-/

namespace Pushdown

structure Table (κ α : Type) where
  entries : List (κ × α)
  distinct : (entries.map Prod.fst).Nodup
  deriving DecidableEq, Repr

namespace Table

variable {κ α β : Type}

def empty : Table κ α := ⟨[], List.nodup_nil⟩

instance : EmptyCollection (Table κ α) := ⟨empty⟩

def keys (t : Table κ α) : List κ := t.entries.map Prod.fst

def size (t : Table κ α) : Nat := t.entries.length

/-- Changes the values and keeps keys and order. -/
def mapValues (f : α → β) (t : Table κ α) : Table κ β where
  entries := t.entries.map fun entry => (entry.1, f entry.2)
  distinct := by simpa [List.map_map, Function.comp_def] using t.distinct

@[simp] theorem keys_empty : (∅ : Table κ α).keys = [] := rfl

@[simp] theorem keys_mapValues (f : α → β) (t : Table κ α) : (t.mapValues f).keys = t.keys := by
  simp [mapValues, keys, List.map_map, Function.comp_def]

variable [DecidableEq κ]

/-- Gives `key` its value in a list of entries, in its place or at the end. -/
def put (key : κ) (value : α) : List (κ × α) → List (κ × α)
  | [] => [(key, value)]
  | entry :: rest => if entry.1 = key then (key, value) :: rest else entry :: put key value rest

theorem map_fst_put (key : κ) (value : α) (entries : List (κ × α)) :
    (put key value entries).map Prod.fst =
      if key ∈ entries.map Prod.fst then entries.map Prod.fst else entries.map Prod.fst ++ [key] := by
  induction entries with
  | nil => simp [put]
  | cons entry rest ih =>
    by_cases h : entry.1 = key
    · simp [put, h]
    · have h' : ¬ key = entry.1 := fun e => h e.symm
      rw [put, if_neg h, List.map_cons, ih]
      by_cases hk : key ∈ rest.map Prod.fst
      · rw [if_pos hk, if_pos (by simp only [List.map_cons, List.mem_cons]; exact Or.inr hk)]
        rfl
      · rw [if_neg hk, if_neg (by simp only [List.map_cons, List.mem_cons]; exact not_or.mpr ⟨h', hk⟩)]
        rfl

def insert (t : Table κ α) (key : κ) (value : α) : Table κ α where
  entries := put key value t.entries
  distinct := by
    rw [map_fst_put]
    split
    · exact t.distinct
    · next h =>
      exact List.nodup_append.mpr ⟨t.distinct, by simp, fun a ha b hb => by
        rw [List.mem_singleton.mp hb]; exact fun e => h (e ▸ ha)⟩

def get? (t : Table κ α) (key : κ) : Option α :=
  (t.entries.find? fun entry => entry.1 = key).map Prod.snd

def contains (t : Table κ α) (key : κ) : Bool := t.keys.contains key

/-- Whether two tables are equal as mappings, whatever their order. -/
def sameMapping [DecidableEq α] (a b : Table κ α) : Bool :=
  a.size == b.size && a.entries.all fun entry => b.get? entry.1 == some entry.2

/-! ## What the keys and the look-up are after an operation -/

theorem keys_insert (t : Table κ α) (key : κ) (value : α) :
    (t.insert key value).keys = if key ∈ t.keys then t.keys else t.keys ++ [key] :=
  map_fst_put key value t.entries

@[simp] theorem contains_eq_true {t : Table κ α} {key : κ} : t.contains key = true ↔ key ∈ t.keys := by
  simp [contains]

@[simp] theorem get?_empty (key : κ) : (∅ : Table κ α).get? key = none := rfl

theorem get?_insert (t : Table κ α) (key key' : κ) (value : α) :
    (t.insert key value).get? key' = if key = key' then some value else t.get? key' := by
  suffices h : ∀ entries : List (κ × α),
      ((put key value entries).find? fun entry => entry.1 = key').map Prod.snd =
        if key = key' then some value
        else (entries.find? fun entry => entry.1 = key').map Prod.snd from h t.entries
  intro entries
  induction entries with
  | nil => by_cases e : key = key' <;> simp [put, e]
  | cons entry rest ih =>
    by_cases h : entry.1 = key
    · rw [put, if_pos h]
      by_cases e : key = key'
      · simp [e]
      · have e' : ¬ entry.1 = key' := fun he => e (h.symm.trans he)
        simp [e, e']
    · rw [put, if_neg h]
      by_cases e : entry.1 = key'
      · have e' : ¬ key = key' := fun he => h (e.trans he.symm)
        simp [e, e']
      · rw [List.find?_cons_of_neg (by simpa using e), ih, List.find?_cons_of_neg (by simpa using e)]

end Table

end Pushdown
