import Registrar.Text.Basic

/-!
# Dictionaries

A dictionary maps texts to values and lists its entries by key, in the order of code points. The
order is part of the type, so two dictionaries with the same look-ups are the same dictionary
(`Dict.ext_get?`).
-/

namespace Registrar

/-- A finite map from texts, with its entries in ascending order of keys. -/
structure Dict (α : Type) where
  entries : List (Text × α)
  ascending : entries.Pairwise fun a b => a.1 < b.1
deriving DecidableEq

namespace Dict

variable {α : Type}

/-- Puts an entry into an ascending list, in place of one with the same key. -/
def insertEntry (key : Text) (value : α) : List (Text × α) → List (Text × α)
  | [] => [(key, value)]
  | (k, v) :: rest =>
    if key < k then (key, value) :: (k, v) :: rest
    else if key = k then (key, value) :: rest
    else (k, v) :: insertEntry key value rest

theorem mem_insertEntry {key : Text} {value : α} {entries : List (Text × α)} {e : Text × α}
    (h : e ∈ insertEntry key value entries) : e = (key, value) ∨ e ∈ entries := by
  induction entries with
  | nil => simpa [insertEntry] using h
  | cons entry rest ih =>
      obtain ⟨k, v⟩ := entry
      rw [insertEntry] at h
      split at h
      · simpa using h
      · split at h
        · rcases List.mem_cons.mp h with h | h
          · exact Or.inl h
          · exact Or.inr (List.mem_cons_of_mem _ h)
        · rcases List.mem_cons.mp h with h | h
          · exact Or.inr (h ▸ List.mem_cons_self)
          · rcases ih h with h | h
            · exact Or.inl h
            · exact Or.inr (List.mem_cons_of_mem _ h)

/-- Of two different keys that are not in order, the second comes first. -/
theorem lt_of_not_lt_of_ne {a b : Text} (h : ¬ a < b) (hne : a ≠ b) : b < a := by
  by_cases hb : b < a
  · exact hb
  · exact absurd (List.le_antisymm (List.not_lt.mp hb) (List.not_lt.mp h)) hne

theorem ascending_insertEntry {key : Text} {value : α} {entries : List (Text × α)}
    (h : entries.Pairwise fun a b => a.1 < b.1) :
    (insertEntry key value entries).Pairwise fun a b => a.1 < b.1 := by
  induction entries with
  | nil => simp [insertEntry]
  | cons entry rest ih =>
      obtain ⟨k, v⟩ := entry
      have hrest := List.pairwise_cons.mp h
      rw [insertEntry]
      split
      · next hlt =>
        refine List.pairwise_cons.mpr ⟨?_, h⟩
        intro e he
        rcases List.mem_cons.mp he with rfl | he
        · exact hlt
        · exact List.lt_trans hlt (hrest.1 e he)
      · split
        · next heq => exact List.pairwise_cons.mpr ⟨heq ▸ hrest.1, hrest.2⟩
        · next hnlt hne =>
          refine List.pairwise_cons.mpr ⟨?_, ih hrest.2⟩
          intro e he
          rcases mem_insertEntry he with rfl | he
          · exact lt_of_not_lt_of_ne hnlt hne
          · exact hrest.1 e he

/-- The dictionary without entries. -/
def empty : Dict α :=
  ⟨[], List.Pairwise.nil⟩

instance : Inhabited (Dict α) := ⟨empty⟩

/-- The dictionary with one more entry, or with another value for a key it has. -/
def insert (d : Dict α) (key : Text) (value : α) : Dict α :=
  ⟨insertEntry key value d.entries, ascending_insertEntry d.ascending⟩

/-- The value of a key. -/
def get? (d : Dict α) (key : Text) : Option α :=
  (d.entries.find? fun e => e.1 = key).map Prod.snd

/-- Does the dictionary have an entry for the key? -/
def contains (d : Dict α) (key : Text) : Bool :=
  (d.get? key).isSome

/-- The value of a key, or another value when there is none. -/
def getD (d : Dict α) (key : Text) (default : α) : α :=
  (d.get? key).getD default

/-- The dictionary without the entries that fail a test. -/
def filter (d : Dict α) (keep : Text → α → Bool) : Dict α :=
  ⟨d.entries.filter fun e => keep e.1 e.2, d.ascending.filter _⟩

/-- The number of entries. -/
def size (d : Dict α) : Nat :=
  d.entries.length

/-- The keys, ascending. -/
def keys (d : Dict α) : List Text :=
  d.entries.map Prod.fst

/-- The entries of a list put in one after the other; a later entry replaces an earlier one of the
same key. -/
def insertAll (d : Dict α) (entries : List (Text × α)) : Dict α :=
  entries.foldl (fun d e => d.insert e.1 e.2) d

/-- The dictionary of a list of entries; of two with one key, the later counts. -/
def ofList (entries : List (Text × α)) : Dict α :=
  empty.insertAll entries

@[simp] theorem get?_empty (key : Text) : (empty : Dict α).get? key = none := rfl

/-- The value of a key stands in an entry. -/
theorem mem_entries_of_get? {d : Dict α} {key : Text} {value : α} (h : d.get? key = some value) :
    (key, value) ∈ d.entries := by
  obtain ⟨⟨found, _⟩, hfind, rfl⟩ := Option.map_eq_some_iff.mp h
  have hkey : found = key := by simpa using List.find?_some hfind
  rw [← hkey]
  exact List.mem_of_find?_eq_some hfind

theorem find?_insertEntry (key : Text) (value : α) (entries : List (Text × α)) (k : Text) :
    (insertEntry key value entries).find? (fun e => e.1 = k) =
      if key = k then some (key, value) else entries.find? fun e => e.1 = k := by
  induction entries with
  | nil => by_cases h : key = k <;> simp [insertEntry, h]
  | cons entry rest ih =>
      obtain ⟨k', v⟩ := entry
      rw [insertEntry]
      by_cases h : key = k
      · grind
      · grind

/-- **Look-up after insertion.** The new key has the new value, every other key what it had. -/
@[simp] theorem get?_insert (d : Dict α) (key : Text) (value : α) (k : Text) :
    (d.insert key value).get? k = if key = k then some value else d.get? k := by
  simp only [get?, insert, find?_insertEntry]
  split <;> rfl

theorem get?_insert_self (d : Dict α) (key : Text) (value : α) :
    (d.insert key value).get? key = some value := by
  rw [get?_insert, if_pos rfl]

theorem get?_insert_of_ne {key k : Text} (h : key ≠ k) (d : Dict α) (value : α) :
    (d.insert key value).get? k = d.get? k := by
  rw [get?_insert, if_neg h]

/-- Look-up after a selection by key. -/
@[simp] theorem get?_filter (d : Dict α) (keep : Text → Bool) (k : Text) :
    (d.filter fun key _ => keep key).get? k = if keep k then d.get? k else none := by
  have hkey : ∀ e : Text × α,
      (keep e.1 && decide (e.1 = k)) = (keep k && decide (e.1 = k)) := by
    intro e
    by_cases he : e.1 = k
    · rw [he]
    · simp [he]
  by_cases h : keep k
  · simp [get?, filter, List.find?_filter, hkey, h]
  · simp [get?, filter, List.find?_filter, hkey, h]

/-- A key below all keys of a list is not found in it. -/
theorem find?_eq_none_of_lt {k : Text} {entries : List (Text × α)}
    (h : ∀ e ∈ entries, k < e.1) : entries.find? (fun e => e.1 = k) = none := by
  rw [List.find?_eq_none]
  intro e he heq
  have hk : e.1 = k := by simpa using heq
  exact List.lt_irrefl k (hk ▸ h e he)

theorem entries_eq_of_find? {a b : List (Text × α)}
    (ha : a.Pairwise fun x y => x.1 < y.1) (hb : b.Pairwise fun x y => x.1 < y.1)
    (h : ∀ k, (a.find? fun e => e.1 = k).map Prod.snd = (b.find? fun e => e.1 = k).map Prod.snd) :
    a = b := by
  induction a generalizing b with
  | nil =>
      cases b with
      | nil => rfl
      | cons y ys => simpa using h y.1
  | cons x xs ih =>
      cases b with
      | nil => simpa using h x.1
      | cons y ys =>
          have hx := List.pairwise_cons.mp ha
          have hy := List.pairwise_cons.mp hb
          have hkey : x.1 = y.1 := by
            by_cases heq : x.1 = y.1
            · exact heq
            · by_cases hlt : x.1 < y.1
              · have hnone : ys.find? (fun e => e.1 = x.1) = none :=
                  find?_eq_none_of_lt fun e he => List.lt_trans hlt (hy.1 e he)
                have := h x.1
                simp [Ne.symm heq, hnone] at this
              · have hgt := lt_of_not_lt_of_ne hlt heq
                have hnone : xs.find? (fun e => e.1 = y.1) = none :=
                  find?_eq_none_of_lt fun e he => List.lt_trans hgt (hx.1 e he)
                have := h y.1
                simp [heq, hnone] at this
          have hval : x.2 = y.2 := by
            have := h x.1
            simpa [hkey] using this
          have htail : xs = ys := by
            refine ih hx.2 hy.2 ?_
            intro k
            by_cases hk : x.1 = k
            · rw [find?_eq_none_of_lt (hk ▸ hx.1), find?_eq_none_of_lt (hk ▸ hkey ▸ hy.1)]
            · have := h k
              simpa [hk, hkey ▸ hk] using this
          rw [htail, Prod.ext hkey hval]

/-- Dictionaries with the same look-ups are equal. -/
theorem ext_get? {d e : Dict α} (h : ∀ k, d.get? k = e.get? k) : d = e := by
  obtain ⟨a, ha⟩ := d
  obtain ⟨b, hb⟩ := e
  have := entries_eq_of_find? ha hb h
  subst this
  rfl

end Dict

end Registrar
