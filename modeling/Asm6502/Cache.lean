import Asm6502.Table
import Asm6502.Uri

/-!
# Caches

Results by the document they were made for.  Every result gets a number when it is put in, so that
a reader can tell whether the result in hand is still the one in the cache.
-/

namespace Asm6502

structure Cache (α : Type) where
  /-- Each result with its number. -/
  entries : Table Uri (Nat × α)
  /-- The number of the next result. -/
  next : Nat
deriving Repr

namespace Cache

variable {α : Type}

def empty : Cache α := ⟨.empty, 0⟩

instance : Inhabited (Cache α) := ⟨empty⟩

def size (c : Cache α) : Nat := c.entries.size

def isEmpty (c : Cache α) : Bool := c.entries.isEmpty

def find? (c : Cache α) (uri : Uri) : Option α := (c.entries.find? uri).map Prod.snd

def contains (c : Cache α) (uri : Uri) : Bool := c.entries.contains uri

def number? (c : Cache α) (uri : Uri) : Option Nat := (c.entries.find? uri).map Prod.fst

/-- Puts in the result for a document in place of an earlier one. -/
def insert (c : Cache α) (uri : Uri) (a : α) : Cache α :=
  ⟨c.entries.insert uri (c.next, a), c.next + 1⟩

def erase (c : Cache α) (uri : Uri) : Cache α := { c with entries := c.entries.erase uri }

def filter (c : Cache α) (p : Uri -> α -> Bool) : Cache α :=
  { c with entries := c.entries.filter fun uri entry => p uri entry.2 }

/-- Drops all results.  Their numbers are not given again. -/
def clear (c : Cache α) : Cache α := { c with entries := .empty }

@[simp] theorem find?_empty (uri : Uri) : (empty : Cache α).find? uri = none := rfl

@[simp] theorem find?_clear (c : Cache α) (uri : Uri) : c.clear.find? uri = none := rfl

theorem find?_insert (c : Cache α) (uri other : Uri) (a : α) :
    (c.insert uri a).find? other = if other = uri then some a else c.find? other := by
  unfold find? insert Table.insert
  by_cases h : other = uri
  · subst h
    simp [Table.find?_update_self]
  · simp [Table.find?_update_of_ne _ h, h]

theorem find?_erase (c : Cache α) (uri other : Uri) :
    (c.erase uri).find? other = if other = uri then none else c.find? other := by
  unfold find? erase
  by_cases h : other = uri
  · subst h
    simp [Table.find?_erase_self]
  · simp [Table.find?_erase_of_ne _ h, h]

theorem contains_eq (c : Cache α) (uri : Uri) : c.contains uri = (c.find? uri).isSome := by
  simp [contains, find?, Table.contains]

end Cache

end Asm6502
