/-!
# Dictionaries in insertion order

A dictionary is a list of entries with distinct keys.  Inserting under a key that is present
replaces its value in place; a new key goes to the end.

## Main statements

* `find?_insert` — what a lookup sees after an insertion.
* `keys_insert` — the order of the keys after an insertion.
-/

namespace MachineLab

/-- Without the entries under one key, there is nothing under it and what there was under others. -/
theorem lookup_filter_ne {κ α : Type} [BEq κ] [LawfulBEq κ] [DecidableEq κ] (k k' : κ)
    (entries : List (κ × α)) :
    (entries.filter (·.1 != k)).lookup k' = if k' = k then none else entries.lookup k' := by
  induction entries with
  | nil => simp
  | cons entry rest ih =>
    obtain ⟨key, v⟩ := entry
    by_cases hk : key = k
    · subst hk
      by_cases hm : k' = key
      · simp [hm] at ih ⊢
        exact ih
      · simp [List.lookup_cons, hm, ih, beq_eq_false_iff_ne.mpr hm]
    · by_cases hm : k' = key
      · subst hm
        simp [hk]
      · simp [List.lookup_cons, hk, ih, beq_eq_false_iff_ne.mpr hm]

/-- Entries in the order in which their keys first appeared. -/
abbrev Dict (α : Type) := List (String × α)

namespace Dict

variable {α : Type}

def find? (d : Dict α) (key : String) : Option α := List.lookup key d

def contains (d : Dict α) (key : String) : Bool := (find? d key).isSome

def insert : Dict α → String → α → Dict α
  | [], key, value => [(key, value)]
  | (k, v) :: rest, key, value =>
    if k = key then (k, value) :: rest else (k, v) :: insert rest key value

def keys (d : Dict α) : List String := d.map Prod.fst

@[simp] theorem find?_nil (key : String) : find? ([] : Dict α) key = none := rfl

theorem find?_cons (k key : String) (v : α) (d : Dict α) :
    find? ((k, v) :: d) key = if key = k then some v else find? d key := by
  by_cases h : key = k
  · simp [find?, h]
  · have hb : (key == k) = false := by simp [h]
    simp [find?, List.lookup_cons, h, hb]

/-- A lookup after an insertion sees the new value under its key and the old ones elsewhere. -/
theorem find?_insert (d : Dict α) (k key : String) (v : α) :
    find? (insert d k v) key = if key = k then some v else find? d key := by
  induction d with
  | nil => simp [insert, find?_cons]
  | cons entry rest ih =>
    obtain ⟨k', v'⟩ := entry
    by_cases h : k' = k
    · subst h
      by_cases hk : key = k' <;> simp [insert, find?_cons, hk]
    · by_cases hk : key = k'
      · subst hk
        simp [insert, find?_cons, h]
      · simp [insert, find?_cons, h, hk, ih]

/-- A new key goes to the end. -/
theorem insert_of_not_mem {d : Dict α} {key : String} (new : key ∉ keys d) (v : α) :
    insert d key v = d ++ [(key, v)] := by
  induction d with
  | nil => rfl
  | cons entry rest ih =>
    obtain ⟨k, x⟩ := entry
    simp only [keys, List.map_cons, List.mem_cons, not_or] at new
    rw [insert, if_neg (Ne.symm new.1), ih new.2, List.cons_append]

/-- Inserting keeps the order of the keys and adds a new key at the end. -/
theorem keys_insert (d : Dict α) (k : String) (v : α) :
    keys (insert d k v) = if k ∈ keys d then keys d else keys d ++ [k] := by
  induction d with
  | nil => simp [insert, keys]
  | cons entry rest ih =>
    obtain ⟨k', v'⟩ := entry
    by_cases h : k' = k
    · simp [insert, keys, h]
    · have h' : ¬ k = k' := fun e => h e.symm
      simp only [keys] at ih
      by_cases hm : k ∈ rest.map Prod.fst
      · simp [insert, keys, h, hm] at ih ⊢
        exact ih
      · simp [insert, keys, h, h', hm] at ih ⊢
        exact ih

end Dict

end MachineLab
