/-!
# Tables

A `Table` holds a value for each of finitely many keys.  It is a list of entries
with the latest first and no key twice, and is seen through `Table.find?`.
-/

namespace FirmwareVars

/-- A value for each of finitely many keys. -/
structure Table (κ α : Type) where
  /-- The entries, latest first. -/
  entries : List (κ × α) := []
  /-- No key has two entries. -/
  nodup : (entries.map Prod.fst).Nodup := by simp

namespace Table

variable {κ α : Type} [DecidableEq κ]

/-- The value of a key. -/
def find? (t : Table κ α) (k : κ) : Option α := t.entries.lookup k

/-- The table without a key. -/
def erase (t : Table κ α) (k : κ) : Table κ α where
  entries := t.entries.filter fun e => e.1 ≠ k
  nodup := t.nodup.sublist (List.filter_sublist.map _)

/-- The table with a value for a key, in place of the one it has. -/
def insert (t : Table κ α) (k : κ) (a : α) : Table κ α where
  entries := (k, a) :: (t.erase k).entries
  nodup := by
    refine List.nodup_cons.mpr ⟨?_, (t.erase k).nodup⟩
    simp [erase]

/-! ## The values of a changed table -/

theorem lookup_cons_of_ne {k l : κ} (h : l ≠ k) (a : α) (rest : List (κ × α)) :
    List.lookup l ((k, a) :: rest) = List.lookup l rest := by
  have hb : (l == k) = false := beq_eq_false_iff_ne.mpr h
  rw [List.lookup_cons, hb]

theorem lookup_filter_ne (entries : List (κ × α)) (k l : κ) :
    (entries.filter fun e => e.1 ≠ k).lookup l = if l = k then none else entries.lookup l := by
  induction entries with
  | nil => simp
  | cons e rest ih =>
      rcases e with ⟨m, a⟩
      by_cases hm : m = k
      · rw [List.filter_cons_of_neg (by simp [hm]), ih]
        by_cases hl : l = k
        · simp [hl]
        · rw [if_neg hl, if_neg hl, lookup_cons_of_ne (hm ▸ hl)]
      · rw [List.filter_cons_of_pos (by simp [hm])]
        by_cases hl : l = m
        · subst hl
          simp [hm]
        · rw [lookup_cons_of_ne hl, lookup_cons_of_ne hl, ih]

theorem find?_erase (t : Table κ α) (k l : κ) :
    (t.erase k).find? l = if l = k then none else t.find? l :=
  lookup_filter_ne t.entries k l

theorem find?_insert (t : Table κ α) (k l : κ) (a : α) :
    (t.insert k a).find? l = if l = k then some a else t.find? l := by
  have h := find?_erase t k l
  simp only [find?, insert] at h ⊢
  by_cases hl : l = k
  · simp [hl]
  · rw [lookup_cons_of_ne hl, h, if_neg hl, if_neg hl]

end Table

end FirmwareVars
