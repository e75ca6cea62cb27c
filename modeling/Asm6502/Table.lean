/-!
# Tables

Entries by key, kept in the order in which their keys first came.  A change of an entry leaves its
place and all other entries as they are.
-/

namespace Asm6502

def addNew {α : Type} [DecidableEq α] (l : List α) (a : α) : List α :=
  if a ∈ l then l else l ++ [a]

theorem mem_addNew {α : Type} [DecidableEq α] {l : List α} {a b : α} :
    b ∈ addNew l a ↔ b ∈ l ∨ b = a := by
  unfold addNew
  split
  next h =>
    constructor
    · exact Or.inl
    · rintro (hb | rfl)
      · exact hb
      · exact h
  next => simp

theorem nodup_addNew {α : Type} [DecidableEq α] {l : List α} (h : l.Nodup) (a : α) :
    (addNew l a).Nodup := by
  unfold addNew
  split
  next => exact h
  next ha =>
    rw [List.nodup_append]
    refine ⟨h, by simp, ?_⟩
    intro x hx y hy hxy
    rw [List.mem_singleton] at hy
    exact ha (hy ▸ hxy ▸ hx)

structure Table (κ α : Type) where
  entries : List (κ × α)
deriving DecidableEq, Repr

namespace Table

variable {κ α : Type}

def empty : Table κ α := ⟨[]⟩

instance : Inhabited (Table κ α) := ⟨empty⟩

def keys (t : Table κ α) : List κ := t.entries.map Prod.fst

def size (t : Table κ α) : Nat := t.entries.length

def isEmpty (t : Table κ α) : Bool := t.entries.isEmpty

def filter (t : Table κ α) (p : κ -> α -> Bool) : Table κ α :=
  ⟨t.entries.filter fun entry => p entry.1 entry.2⟩

variable [DecidableEq κ]

def findIn (key : κ) : List (κ × α) -> Option α
  | [] => none
  | (k, a) :: rest => if k = key then some a else findIn key rest

/-- Changes the entry of a key in a list of entries; a key without an entry gets the changed fresh
entry at the end. -/
def updateIn (key : κ) (fresh : α) (change : α -> α) : List (κ × α) -> List (κ × α)
  | [] => [(key, change fresh)]
  | (k, a) :: rest =>
      if k = key then (k, change a) :: rest else (k, a) :: updateIn key fresh change rest

def find? (t : Table κ α) (key : κ) : Option α := findIn key t.entries

def contains (t : Table κ α) (key : κ) : Bool := (t.find? key).isSome

def update (t : Table κ α) (key : κ) (fresh : α) (change : α -> α) : Table κ α :=
  ⟨updateIn key fresh change t.entries⟩

def insert (t : Table κ α) (key : κ) (a : α) : Table κ α := t.update key a fun _ => a

def erase (t : Table κ α) (key : κ) : Table κ α := t.filter fun k _ => k ≠ key

theorem findIn_updateIn_self (key : κ) (fresh : α) (change : α -> α) (l : List (κ × α)) :
    findIn key (updateIn key fresh change l) = some (change ((findIn key l).getD fresh)) := by
  induction l with
  | nil => simp [updateIn, findIn]
  | cons entry rest ih =>
      obtain ⟨k, a⟩ := entry
      by_cases h : k = key <;> simp [updateIn, findIn, h, ih]

theorem findIn_updateIn_of_ne {key other : κ} (h : other ≠ key) (fresh : α) (change : α -> α)
    (l : List (κ × α)) : findIn other (updateIn key fresh change l) = findIn other l := by
  induction l with
  | nil => simp [updateIn, findIn, h.symm]
  | cons entry rest ih =>
      obtain ⟨k, a⟩ := entry
      by_cases hk : k = key
      · simp [updateIn, findIn, hk, h.symm]
      · simp [updateIn, findIn, hk, ih]

theorem mem_of_findIn {key : κ} {a : α} {l : List (κ × α)} (h : findIn key l = some a) :
    (key, a) ∈ l := by
  induction l with
  | nil => cases h
  | cons entry rest ih =>
      obtain ⟨k, b⟩ := entry
      unfold findIn at h
      split at h
      next hk =>
        cases h
        simp [hk]
      next => exact List.mem_cons_of_mem _ (ih h)

/-- Where every key has one entry, the entry is found under its key. -/
theorem findIn_map {ι : Type} {f : ι -> κ} (g : ι -> α) (hf : ∀ i j, f i = f j -> i = j) {i : ι}
    {l : List ι} (h : i ∈ l) : findIn (f i) (l.map fun j => (f j, g j)) = some (g i) := by
  induction l with
  | nil => cases h
  | cons j rest ih =>
      rw [List.map_cons, findIn]
      split
      next hj => rw [hf j i hj]
      next hj =>
        rcases List.mem_cons.1 h with rfl | h
        · exact absurd rfl hj
        · exact ih h

theorem mem_updateIn {key : κ} {fresh : α} {change : α -> α} {l : List (κ × α)} {entry : κ × α}
    (h : entry ∈ updateIn key fresh change l) : entry ∈ l ∨ ∃ a, entry = (key, change a) := by
  induction l with
  | nil =>
      rw [updateIn, List.mem_singleton] at h
      exact .inr ⟨fresh, h⟩
  | cons first rest ih =>
      obtain ⟨k, a⟩ := first
      unfold updateIn at h
      split at h
      next hk =>
        rcases List.mem_cons.1 h with h | h
        · exact .inr ⟨a, hk ▸ h⟩
        · exact .inl (List.mem_cons_of_mem _ h)
      next =>
        rcases List.mem_cons.1 h with h | h
        · exact .inl (h ▸ List.mem_cons_self)
        · exact (ih h).imp_left (List.mem_cons_of_mem _)

theorem findIn_filter_self (key : κ) (l : List (κ × α)) :
    findIn key (l.filter fun entry => decide (entry.1 ≠ key)) = none := by
  induction l with
  | nil => rfl
  | cons entry rest ih =>
      by_cases hk : entry.1 = key
      · simpa [hk] using ih
      · simpa [findIn, hk] using ih

theorem findIn_filter_of_ne {key other : κ} (h : other ≠ key) (l : List (κ × α)) :
    findIn other (l.filter fun entry => decide (entry.1 ≠ key)) = findIn other l := by
  induction l with
  | nil => rfl
  | cons entry rest ih =>
      obtain ⟨k, a⟩ := entry
      by_cases hk : k = key
      · simpa [findIn, hk, h.symm] using ih
      · by_cases ho : k = other
        · simp [findIn, ho, h]
        · simpa [findIn, hk, ho] using ih

theorem map_fst_updateIn (key : κ) (fresh : α) (change : α -> α) (l : List (κ × α)) :
    (updateIn key fresh change l).map Prod.fst = addNew (l.map Prod.fst) key := by
  induction l with
  | nil => simp [updateIn, addNew]
  | cons entry rest ih =>
      obtain ⟨k, a⟩ := entry
      by_cases hk : k = key
      · simp [updateIn, addNew, hk]
      · by_cases hr : key ∈ rest.map Prod.fst
        · rw [addNew, if_pos hr] at ih
          simp [updateIn, addNew, hk, ih, List.mem_cons_of_mem k hr]
        · rw [addNew, if_neg hr] at ih
          have hc : key ∉ k :: rest.map Prod.fst := by
            rw [List.mem_cons]
            rintro (h | h)
            · exact hk h.symm
            · exact hr h
          simp only [updateIn, if_neg hk, List.map_cons, ih, addNew, if_neg hc,
            List.cons_append]

theorem find?_update_self (t : Table κ α) (key : κ) (fresh : α) (change : α -> α) :
    (t.update key fresh change).find? key = some (change ((t.find? key).getD fresh)) :=
  findIn_updateIn_self key fresh change t.entries

theorem find?_update_of_ne (t : Table κ α) {key other : κ} (h : other ≠ key) (fresh : α)
    (change : α -> α) : (t.update key fresh change).find? other = t.find? other :=
  findIn_updateIn_of_ne h fresh change t.entries

theorem find?_erase_self (t : Table κ α) (key : κ) : (t.erase key).find? key = none :=
  findIn_filter_self key t.entries

theorem find?_erase_of_ne (t : Table κ α) {key other : κ} (h : other ≠ key) :
    (t.erase key).find? other = t.find? other :=
  findIn_filter_of_ne h t.entries

theorem keys_update (t : Table κ α) (key : κ) (fresh : α) (change : α -> α) :
    (t.update key fresh change).keys = addNew t.keys key :=
  map_fst_updateIn key fresh change t.entries

end Table

end Asm6502
