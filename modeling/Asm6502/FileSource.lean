import Asm6502.Table
import Asm6502.Uri

/-!
# Files

Where included files come from.  A file that is missing or cannot be read is no failure here; it is
reported where it is named.
-/

namespace Asm6502

/-- Access to files.  A file may exist and still have no text that can be read. -/
structure FileSource where
  read? : Uri -> Option String
  hasFile : Uri -> Bool
  hasFolder : Uri -> Bool

structure MemoryFiles where
  files : Table Uri String
  folders : List Uri
deriving DecidableEq, Repr, Inhabited

namespace MemoryFiles

def empty : MemoryFiles := ⟨.empty, []⟩

def write (m : MemoryFiles) (uri : Uri) (text : String) : MemoryFiles :=
  { m with files := m.files.insert uri text }

def addFolder (m : MemoryFiles) (uri : Uri) : MemoryFiles :=
  { m with folders := addNew m.folders uri }

def hasFolder (m : MemoryFiles) (uri : Uri) : Bool :=
  m.folders.contains uri ||
    (uri.isFolder && m.files.keys.any fun file => uri.text.toList.isPrefixOf file.text.toList)

def source (m : MemoryFiles) : FileSource :=
  { read? := m.files.find?
    hasFile := m.files.contains
    hasFolder := m.hasFolder }

end MemoryFiles

end Asm6502
