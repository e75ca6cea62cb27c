import Asm6502.Url

/-!
# Document names

Documents and folders are named by URLs.  A folder's name ends in a slash.  File names in a source
text are resolved against the folder of the document they stand in.
-/

namespace Asm6502

/-- The name of a document or folder.  Two names are the same when their texts are. -/
structure Uri where
  text : String
deriving DecidableEq, Repr, Inhabited

namespace Uri

def url (uri : Uri) : Url := Url.ofText uri.text.toList

def ofUrl (url : Url) : Uri := ⟨String.ofList url.text⟩

def parse (text : String) : Except UrlError Uri :=
  (Url.parse none text.toList).map ofUrl

end Uri

/-! ## Names relative to a document -/

/-- What the names of documents rest on: the paths of URLs, and how a reference is resolved against
a URL. -/
structure Resolver where
  path : Uri -> List Char
  segments? : Uri -> Option (List (List Char))
  resolve? : Uri -> List Char -> Option Uri

namespace Resolver

variable (r : Resolver)

def isFolder (uri : Uri) : Bool := (r.path uri).getLast? == some '/'

/-- The folder in which a document stands.  A folder is its own. -/
def folder (uri : Uri) : Uri :=
  if r.isFolder uri then uri else (r.resolve? uri ['.']).getD uri

def withSlashes (name : String) : List Char :=
  name.toList.map fun c => if c == '\\' then '/' else c

def join? (uri : Uri) (name : String) : Option Uri :=
  r.resolve? (r.folder uri) (withSlashes name)

def folderReference (name : String) : List Char :=
  let name := withSlashes name
  if name.getLast? = some '/' then name else name ++ ['/']

def joinFolder? (uri : Uri) (name : String) : Option Uri :=
  r.resolve? (r.folder uri) (folderReference name)

/-- The last segment of the path that is not empty, or the whole name if there is none. -/
def fileName (uri : Uri) : String :=
  match ((r.segments? uri).getD []).reverse.find? fun segment => !segment.isEmpty with
  | some segment => String.ofList segment
  | none => uri.text

end Resolver

namespace Uri

def resolver : Resolver where
  path uri := uri.url.path.text
  segments? uri := uri.url.path.segments?
  resolve? uri reference := ((Url.parse (some uri.url) reference).map ofUrl).toOption

def isFolder (uri : Uri) : Bool := resolver.isFolder uri

def folder (uri : Uri) : Uri := resolver.folder uri

def join? (uri : Uri) (name : String) : Option Uri := resolver.join? uri name

def joinFolder? (uri : Uri) (name : String) : Option Uri := resolver.joinFolder? uri name

def fileName (uri : Uri) : String := resolver.fileName uri

/-! ## Paths of the file system -/

def hostOf (authority : List Char) : List Char :=
  let host := (authority.reverse.takeWhile (· != '@')).reverse
  if host.head? = some '[' then host else host.takeWhile (· != ':')

/-- The path of the file or folder on this machine that a name stands for.  A path that ends in a
drive gets a slash behind it. -/
def filePath? (uri : Uri) : Option String := do
  let url := uri.url
  let segments <- url.path.segments?
  let host := hostOf (url.authority.getD [])
  if host.isEmpty ∨ host = "localhost".toList then
    let bytes := segments.flatMap fun segment => 47 :: Url.decode segment
    let path := Url.textOfBytes bytes
    let drive := Url.isDrive (path.drop (path.length - 2)) && 2 < bytes.length
    some (String.ofList (if drive then path ++ ['/'] else path))
  else none

/-- The parts of an absolute path.  Repeated slashes and single dots count for nothing. -/
def pathParts? (path : String) : Option (List (List Char)) :=
  match path.toList with
  | '/' :: rest =>
      some ((splitOn (· == '/') rest).filter fun part => !part.isEmpty && part != ['.'])
  | _ => none

def ofSegments (segments : List (List Char)) : Uri :=
  ofUrl ⟨"file".toList, some [], .rooted segments, none, none⟩

def ofFilePath? (path : String) : Option Uri := do
  let parts <- pathParts? path
  let segments := parts.map (Url.encode Url.inSegment)
  some (ofSegments (if segments.isEmpty then [[]] else segments))

def ofFolderPath? (path : String) : Option Uri := do
  let parts <- pathParts? path
  some (ofSegments (parts.map (Url.encode Url.inSegment) ++ [[]]))

end Uri

end Asm6502
