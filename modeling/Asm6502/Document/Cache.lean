import Asm6502.Cache
import Asm6502.Document

/-!
# Known documents

Documents that were opened or read, each under its own name.
-/

namespace Asm6502

structure DocumentCache extends Cache Document where
  /-- A document is known under its own name only. -/
  named : ∀ uri document, toCache.find? uri = some document -> document.uri = uri

namespace DocumentCache

def empty : DocumentCache := ⟨.empty, by simp⟩

instance : Inhabited DocumentCache := ⟨empty⟩

/-- Takes in a document in place of an earlier one of its name. -/
def insert (c : DocumentCache) (document : Document) : DocumentCache where
  toCache := c.toCache.insert document.uri document
  named := by
    intro uri other h
    rw [Cache.find?_insert] at h
    split at h
    next hu =>
      cases h
      exact hu.symm
    next => exact c.named uri other h

def erase (c : DocumentCache) (uri : Uri) : DocumentCache where
  toCache := c.toCache.erase uri
  named := by
    intro other document h
    rw [Cache.find?_erase] at h
    split at h
    next => cases h
    next => exact c.named other document h

def clear (c : DocumentCache) : DocumentCache where
  toCache := c.toCache.clear
  named := by simp

theorem find?_insert (c : DocumentCache) (document : Document) (uri : Uri) :
    (c.insert document).find? uri = if uri = document.uri then some document else c.find? uri :=
  Cache.find?_insert c.toCache document.uri uri document

theorem find?_erase (c : DocumentCache) (uri other : Uri) :
    (c.erase uri).find? other = if other = uri then none else c.find? other :=
  Cache.find?_erase c.toCache uri other

end DocumentCache

end Asm6502
