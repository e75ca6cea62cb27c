import Asm6502.FileSource

/-!
# Disks

Files by path.  A disk answers where a path leads; document names are looked up by the paths they
stand for.
-/

namespace Asm6502

inductive DiskEntry where
  | folder
  /-- A file, with its text unless its bytes are none. -/
  | file (text : Option String)
deriving DecidableEq, Repr, Inhabited

inductive PathError where
  | notFound
  /-- A part of the path that is not the last one leads to a file. -/
  | notFolder
  | nameTooLong
  | other (details : String)
deriving DecidableEq, Repr, Inhabited

/-- The reason in the words of the operating system. -/
def PathError.message : PathError -> String
  | notFound => "No such file or directory (os error 2)"
  | notFolder => "Not a directory (os error 20)"
  | nameTooLong => "File name too long (os error 36)"
  | other details => details

structure Disk where
  /-- The absolute path without dots to which a path leads, and what is there. -/
  locate : String -> Except PathError (String × DiskEntry)

namespace Disk

def entry? (disk : Disk) (uri : Uri) : Option DiskEntry :=
  uri.filePath?.bind fun path => ((disk.locate path).map Prod.snd).toOption

/-- Access to the files of a disk by document names. -/
def source (disk : Disk) : FileSource :=
  { read? := fun uri =>
      match disk.entry? uri with
      | some (.file text) => text
      | _ => none
    hasFile := fun uri =>
      match disk.entry? uri with
      | some (.file _) => true
      | _ => false
    hasFolder := fun uri => disk.entry? uri = some .folder }

/-- The disk of which only some answers are known; every other path leads nowhere. -/
def ofAnswers (answers : Table String (Except PathError (String × DiskEntry))) : Disk :=
  ⟨fun path => (answers.find? path).getD (.error .notFound)⟩

end Disk

/-- The largest size of a part of a path in bytes. -/
def nameLimit : Nat := 255

/-- The size in bytes from which on a path is too long. -/
def pathLimit : Nat := 4096

/-- A disk that is held in memory, without links.  Paths are lists of names from the top. -/
structure DiskTree where
  files : Table (List String) (Option String)
  folders : List (List String)
  /-- The folder in which relative paths start. -/
  workingFolder : List String

namespace DiskTree

/-- A folder exists if it was made, or if something below it was. -/
def hasFolder (tree : DiskTree) (path : List String) : Bool :=
  (tree.workingFolder :: tree.folders).any (fun folder => path.isPrefixOf folder) ||
    tree.files.keys.any fun file => path.isPrefixOf file.dropLast

def entry? (tree : DiskTree) (path : List String) : Option DiskEntry :=
  match tree.files.find? path with
  | some text => some (.file text)
  | none => if tree.hasFolder path then some .folder else none

def step (tree : DiskTree) (place : List String) (name : String) :
    Except PathError (List String) :=
  if tree.entry? place ≠ some .folder then .error .notFolder
  else if name = "" ∨ name = "." then .ok place
  else if name = ".." then .ok place.dropLast
  else if nameLimit < name.utf8ByteSize then .error .nameTooLong
  else if (tree.entry? (place ++ [name])).isNone then .error .notFound
  else .ok (place ++ [name])

def locate (tree : DiskTree) (path : String) : Except PathError (String × DiskEntry) := do
  if path.isEmpty then throw .notFound
  if pathLimit ≤ path.utf8ByteSize then throw .nameTooLong
  let start := if path.toList.head? = some '/' then [] else tree.workingFolder
  let place <- (path.splitOn "/").foldlM tree.step start
  match tree.entry? place with
  | some entry => return ("/" ++ "/".intercalate place, entry)
  | none => throw .notFound

def disk (tree : DiskTree) : Disk := ⟨tree.locate⟩

end DiskTree

end Asm6502
