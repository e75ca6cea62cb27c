import Mathlib.Data.List.Induction
import Asm6502.Table

/-!
# Tables with an index

A table can be kept as a row of entries with an index beside it, which says where the entry of each
key stands.  The two are changed one after the other, and the index alone decides which entry is
changed.  Whatever changes are made, the index stays right and the row holds the entries of the
table.
-/

namespace Asm6502

/-! ## Changes of a table -/

namespace Table

variable {κ α : Type} [DecidableEq κ]

variable {l : List (κ × α)}

theorem updateIn_of_not_mem {key : κ} (h : ∀ a, (key, a) ∉ l) (fresh : α) (change : α -> α) :
    updateIn key fresh change l = l ++ [(key, change fresh)] := by
  induction l with
  | nil => rfl
  | cons entry rest ih =>
      obtain ⟨k, a⟩ := entry
      have hk : k ≠ key := by
        rintro rfl
        exact h a List.mem_cons_self
      rw [updateIn, if_neg hk, ih fun b hb => h b (List.mem_cons_of_mem _ hb), List.cons_append]

theorem isSome_findIn_of_mem {key : κ} {a : α} (h : (key, a) ∈ l) :
    (findIn key l).isSome = true := by
  induction l with
  | nil => cases h
  | cons entry rest ih =>
      rw [findIn]
      split
      next => rfl
      next hk =>
        refine ih ((List.mem_cons.1 h).resolve_left ?_)
        rintro rfl
        exact hk rfl

theorem updateIn_of_getElem? {key : κ} {i : Nat} {a : α} (hi : l[i]? = some (key, a))
    (honly : ∀ j b, l[j]? = some (key, b) -> j = i) (fresh : α) (change : α -> α) :
    updateIn key fresh change l = l.modify i fun entry => (entry.1, change entry.2) := by
  induction l generalizing i with
  | nil => simp at hi
  | cons entry rest ih =>
      obtain ⟨k, b⟩ := entry
      by_cases hk : k = key
      · obtain rfl : 0 = i := honly 0 b (by simp [hk])
        rw [updateIn, if_pos hk, List.modify_zero_cons]
      · obtain _ | i := i
        · simp [hk] at hi
        · have hrest : ∀ j c, rest[j]? = some (key, c) -> j = i := fun j c hj =>
            Nat.succ.inj (honly (j + 1) c (by simpa using hj))
          rw [updateIn, if_neg hk, List.modify_succ_cons, ih (by simpa using hi) hrest]

def after (fresh : κ -> α) (calls : List (κ × (α -> α))) : Table κ α :=
  calls.foldl (fun t call => t.update call.1 (fresh call.1) call.2) empty

variable (fresh : κ -> α)

theorem after_concat (calls : List (κ × (α -> α))) (key : κ) (change : α -> α) :
    after fresh (calls ++ [(key, change)]) = (after fresh calls).update key (fresh key) change := by
  simp [after]

/-- Keys come in the order of their first change. -/
theorem keys_after (calls : List (κ × (α -> α))) :
    (after fresh calls).keys = (calls.map Prod.fst).eraseDups := by
  induction calls using List.reverseRecOn with
  | nil => rfl
  | append_singleton calls call ih =>
      rw [after_concat, keys_update, ih, List.map_append, List.eraseDups_append, addNew]
      simp only [List.mem_eraseDups, List.map_cons, List.map_nil, List.removeAll, List.filter_cons,
        List.filter_nil, List.elem_eq_mem]
      by_cases hmem : call.1 ∈ calls.map Prod.fst <;> simp [hmem, List.eraseDups_cons]

theorem find?_after_of_not_mem {calls : List (κ × (α -> α))} {key : κ}
    (h : key ∉ calls.map Prod.fst) (before : List (κ × (α -> α))) :
    (after fresh (before ++ calls)).find? key = (after fresh before).find? key := by
  induction calls using List.reverseRecOn with
  | nil => rw [List.append_nil]
  | append_singleton calls call ih =>
      simp only [List.map_append, List.map_cons, List.map_nil, List.mem_append, List.mem_singleton,
        not_or] at h
      rw [← List.append_assoc, after_concat, find?_update_of_ne _ h.2, ih h.1]

theorem find?_after_last {behind : List (κ × (α -> α))} {key : κ}
    (h : key ∉ behind.map Prod.fst) (before : List (κ × (α -> α))) (change : α -> α) :
    (after fresh (before ++ (key, change) :: behind)).find? key =
      some (change (((after fresh before).find? key).getD (fresh key))) := by
  rw [List.append_cons, find?_after_of_not_mem fresh h, after_concat, find?_update_self]

end Table

/-- Entries in a row, and beside them where the entry of each key stands. -/
structure IndexedTable (κ α : Type) [DecidableEq κ] [Hashable κ] where
  entries : Array (κ × α)
  index : Std.HashMap κ Nat

namespace IndexedTable

variable {κ α : Type} [DecidableEq κ] [Hashable κ]

def empty : IndexedTable κ α := ⟨#[], ∅⟩

/-- What stands at the place of a key.  Nothing would stand at a place beyond the row. -/
def find? (t : IndexedTable κ α) (key : κ) : Option (Option (κ × α)) :=
  t.index[key]?.map fun i => t.entries[i]?

/-- The place of a key.  A key without one gets a fresh entry behind all others. -/
def place (t : IndexedTable κ α) (key : κ) (fresh : α) : IndexedTable κ α × Nat :=
  match t.index[key]? with
  | some i => (t, i)
  | none =>
      let i := t.entries.size
      (⟨t.entries.push (key, fresh), t.index.insert key i⟩, i)

/-- Changes the entry at the place of a key, its key apart. -/
def update (t : IndexedTable κ α) (key : κ) (fresh : α) (change : α -> α) : IndexedTable κ α :=
  let (t, i) := t.place key fresh
  { t with entries := t.entries.modify i fun entry => (entry.1, change entry.2) }

/-- The index gives a key the one place where an entry of it stands. -/
def IsRight (t : IndexedTable κ α) : Prop :=
  ∀ (key : κ) (i : Nat), t.index[key]? = some i ↔ ∃ a, t.entries[i]? = some (key, a)

/-! ## One change -/

section Change

variable {t : IndexedTable κ α} {key : κ} (fresh : α) (change : α -> α)

theorem update_of_some {i : Nat} (h : t.index[key]? = some i) :
    t.update key fresh change =
      ⟨t.entries.modify i fun entry => (entry.1, change entry.2), t.index⟩ := by
  simp only [update, place, h]

theorem update_of_none (h : t.index[key]? = none) :
    t.update key fresh change =
      ⟨t.entries.push (key, change fresh), t.index.insert key t.entries.size⟩ := by
  simp only [update, place, h, IndexedTable.mk.injEq, and_true]
  refine Array.ext_getElem? fun i => ?_
  rw [Array.getElem?_modify, Array.getElem?_push, Array.getElem?_push]
  by_cases hi : t.entries.size = i
  · simp [hi]
  · simp [hi, Ne.symm hi]

namespace IsRight

variable (h : t.IsRight)

include h

theorem not_mem (hnone : t.index[key]? = none) (a : α) : (key, a) ∉ t.entries.toList := by
  intro hmem
  obtain ⟨i, hi⟩ := List.mem_iff_getElem?.1 hmem
  rw [Array.getElem?_toList] at hi
  rw [(h key i).2 ⟨a, hi⟩] at hnone
  cases hnone

theorem update : (t.update key fresh change).IsRight := by
  intro other j
  cases hindex : t.index[key]? with
  | some i =>
      rw [update_of_some fresh change hindex, h other j]
      simp only [Array.getElem?_modify]
      split
      · simp [Prod.ext_iff]
      · rfl
  | none =>
      rw [update_of_none fresh change hindex]
      simp only [Std.HashMap.getElem?_insert, Array.getElem?_push, beq_iff_eq]
      have hplace := h other j
      by_cases hkey : key = other
      · subst hkey
        by_cases hj : j = t.entries.size
        · simp [hj]
        · simpa [hj, Ne.symm hj, hindex] using hplace
      · by_cases hj : j = t.entries.size
        · simpa [hj, hkey] using hplace
        · simpa [hj, hkey] using hplace

theorem toList_update : (t.update key fresh change).entries.toList =
    Table.updateIn key fresh change t.entries.toList := by
  cases hindex : t.index[key]? with
  | some i =>
      obtain ⟨a, ha⟩ := (h key i).1 hindex
      have honly : ∀ j b, t.entries.toList[j]? = some (key, b) -> j = i := by
        intro j b hj
        rw [Array.getElem?_toList] at hj
        have hsame := (h key j).2 ⟨b, hj⟩
        rw [hindex] at hsame
        exact (Option.some.inj hsame).symm
      rw [update_of_some fresh change hindex, Array.toList_modify,
        Table.updateIn_of_getElem? (by rwa [Array.getElem?_toList]) honly]
  | none =>
      rw [update_of_none fresh change hindex, Array.toList_push,
        Table.updateIn_of_not_mem (h.not_mem hindex)]

theorem find?_eq (key : κ) :
    t.find? key = (Table.findIn key t.entries.toList).map fun a => some (key, a) := by
  cases hfound : Table.findIn key t.entries.toList with
  | some a =>
      obtain ⟨i, hi⟩ := List.mem_iff_getElem?.1 (Table.mem_of_findIn hfound)
      rw [Array.getElem?_toList] at hi
      rw [find?, (h key i).2 ⟨a, hi⟩, Option.map_some, hi]
      rfl
  | none =>
      have hindex : t.index[key]? = none := by
        refine Option.eq_none_iff_forall_ne_some.2 fun i hi => ?_
        obtain ⟨a, ha⟩ := (h key i).1 hi
        rw [← Array.getElem?_toList] at ha
        have hsome := Table.isSome_findIn_of_mem (List.mem_of_getElem? ha)
        rw [hfound] at hsome
        cases hsome
      rw [find?, hindex]
      rfl

theorem update_other {other : κ} (hother : other ≠ key) :
    (t.update key fresh change).index[other]? = t.index[other]? ∧
      ∀ (i : Nat) (a : α), (t.update key fresh change).entries[i]? = some (other, a) ↔
        t.entries[i]? = some (other, a) := by
  cases hindex : t.index[key]? with
  | some i =>
      obtain ⟨b, hb⟩ := (h key i).1 hindex
      rw [update_of_some fresh change hindex]
      refine ⟨rfl, fun j a => ?_⟩
      rw [Array.getElem?_modify]
      split
      next hj =>
        subst hj
        simp [hb, Ne.symm hother]
      next => rfl
  | none =>
      rw [update_of_none fresh change hindex]
      refine ⟨by simp [Std.HashMap.getElem?_insert, Ne.symm hother], fun j a => ?_⟩
      rw [Array.getElem?_push]
      split
      next hj => simp [hj, Ne.symm hother]
      next => rfl

end IsRight

end Change

/-! ## Many changes -/

variable (fresh : κ -> α)

def after (calls : List (κ × (α -> α))) : IndexedTable κ α :=
  calls.foldl (fun t call => t.update call.1 (fresh call.1) call.2) empty

theorem after_concat (calls : List (κ × (α -> α))) (key : κ) (change : α -> α) :
    after fresh (calls ++ [(key, change)]) = (after fresh calls).update key (fresh key) change := by
  simp [after]

theorem isRight_after (calls : List (κ × (α -> α))) : (after fresh calls).IsRight := by
  induction calls using List.reverseRecOn with
  | nil => simp [after, empty, IsRight]
  | append_singleton calls call ih =>
      rw [after_concat]
      exact ih.update _ _

theorem toList_after (calls : List (κ × (α -> α))) :
    (after fresh calls).entries.toList = (Table.after fresh calls).entries := by
  induction calls using List.reverseRecOn with
  | nil => rfl
  | append_singleton calls call ih =>
      rw [after_concat, Table.after_concat, (isRight_after fresh calls).toList_update, ih]
      rfl

/-- A row with an index is a table in which keys keep the order of their first change.  Whatever
changes are made, the index gives each key the one place where its entry stands, the row holds the
entries of the table, each key stands in it once and in the order of the first changes, and what
stands at the place of a key is what the last change of it left, or nothing if there was none.  A
further change leaves the entries of other keys and their places as they are. -/
theorem after_isTable (calls : List (κ × (α -> α))) :
    (∀ (key : κ) (i : Nat), (after fresh calls).index[key]? = some i ↔
      ∃ a, (after fresh calls).entries[i]? = some (key, a)) ∧
    (after fresh calls).entries.toList = (Table.after fresh calls).entries ∧
    (after fresh calls).entries.toList.map Prod.fst = (calls.map Prod.fst).eraseDups ∧
    (∀ key, (after fresh calls).find? key =
      ((Table.after fresh calls).find? key).map fun a => some (key, a)) ∧
    (∀ key, key ∉ calls.map Prod.fst -> (after fresh calls).find? key = none) ∧
    (∀ before key change behind, calls = before ++ (key, change) :: behind ->
      key ∉ behind.map Prod.fst -> (after fresh calls).find? key =
        some (some (key, change (((Table.after fresh before).find? key).getD (fresh key))))) ∧
    ∀ key change other, other ≠ key ->
      (after fresh (calls ++ [(key, change)])).index[other]? = (after fresh calls).index[other]? ∧
      ∀ (i : Nat) (a : α), (after fresh (calls ++ [(key, change)])).entries[i]? = some (other, a) ↔
        (after fresh calls).entries[i]? = some (other, a) := by
  have hright := isRight_after fresh calls
  have hlist := toList_after fresh calls
  have hfind (key : κ) : (after fresh calls).find? key =
      ((Table.after fresh calls).find? key).map fun a => some (key, a) := by
    rw [hright.find?_eq, hlist]
    rfl
  refine ⟨hright, hlist, ?_, hfind, fun key hkey => ?_, ?_, fun key change other hother => ?_⟩
  · rw [hlist]
    exact Table.keys_after fresh calls
  · rw [hfind, ← List.nil_append calls, Table.find?_after_of_not_mem fresh hkey]
    rfl
  · rintro before key change behind rfl hkey
    rw [hfind, Table.find?_after_last fresh hkey]
    rfl
  · rw [after_concat]
    exact hright.update_other _ _ hother

end IndexedTable

end Asm6502
