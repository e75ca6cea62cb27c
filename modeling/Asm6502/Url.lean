import Asm6502.Url.Host

/-!
# URLs

A URL is a scheme with an optional authority, a path, and an optional query and fragment.  A text is
read as a URL on its own, or as a reference that is resolved against another URL.  Paths are
resolved segment by segment: a dot keeps the folder, two dots leave it.
-/

namespace Asm6502

namespace Url

inductive Path where
  /-- Segments, each with a slash in front. -/
  | rooted (segments : List (List Char))
  /-- Text without a slash in front, against which nothing can be resolved. -/
  | rootless (text : List Char)
deriving DecidableEq, Repr, Inhabited

def Path.text : Path -> List Char
  | rooted segments => segments.flatMap fun segment => '/' :: segment
  | rootless text => text

def Path.segments? : Path -> Option (List (List Char))
  | rooted [] => none
  | rooted segments => some segments
  | rootless _ => none

end Url

/-- A URL by its parts.  The authority is the text between the double slash and the path. -/
structure Url where
  scheme : List Char
  authority : Option (List Char)
  path : Url.Path
  query : Option (List Char)
  fragment : Option (List Char)
deriving DecidableEq, Repr, Inhabited

namespace Url

/-! ## Parts and text -/

def marked (mark : List Char) (part : Option (List Char)) : List Char :=
  match part with
  | some text => mark ++ text
  | none => []

/-- The text of a path where no authority stands before it.  It must not look like one. -/
def bareText (path : Path) : List Char :=
  match path with
  | .rooted ([] :: segment :: segments) =>
      ['/', '.'] ++ (Path.rooted ([] :: segment :: segments)).text
  | path => path.text

def text (url : Url) : List Char :=
  url.scheme ++ [':'] ++
    (match url.authority with
    | some authority => ['/', '/'] ++ authority ++ url.path.text
    | none => bareText url.path) ++
    marked ['?'] url.query ++ marked ['#'] url.fragment

/-- Divides a text at the first character of a class, which belongs to neither part. -/
def cutAt (isMark : Char -> Bool) (text : List Char) : List Char × Option (List Char) :=
  match text.dropWhile fun c => !isMark c with
  | [] => (text, none)
  | _ :: rest => (text.takeWhile fun c => !isMark c, some rest)

def pathOfText (text : List Char) : Path :=
  match text with
  | [] => .rooted []
  | '/' :: rest => .rooted (splitOn (· == '/') rest)
  | text => .rootless text

def ofText (text : List Char) : Url :=
  let (rest, fragment) := cutAt (· == '#') text
  let (rest, query) := cutAt (· == '?') rest
  let (scheme, rest) := cutAt (· == ':') rest
  match rest.getD [] with
  | '/' :: '/' :: rest =>
      let authority := rest.takeWhile (· != '/')
      ⟨scheme, some authority, pathOfText (rest.dropWhile (· != '/')), query, fragment⟩
  | '/' :: '.' :: '/' :: '/' :: rest =>
      ⟨scheme, none, pathOfText ('/' :: '/' :: rest), query, fragment⟩
  | [] => ⟨scheme, none, .rootless [], query, fragment⟩
  | rest => ⟨scheme, none, pathOfText rest, query, fragment⟩

/-! ## Schemes -/

/-- Schemes whose URLs always have a host and a path. -/
def isSpecial (scheme : List Char) : Bool :=
  ["http", "https", "ws", "wss", "ftp", "file"].any fun name => name.toList == scheme

def isFile (scheme : List Char) : Bool :=
  scheme == "file".toList

def defaultPort? (scheme : List Char) : Option Nat :=
  if scheme == "http".toList || scheme == "ws".toList then some 80
  else if scheme == "https".toList || scheme == "wss".toList then some 443
  else if scheme == "ftp".toList then some 21
  else none

def isSlash (special : Bool) (c : Char) : Bool :=
  c == '/' || (special && c == '\\')

/-- A letter and more letters, digits, plus, minus or dots up to a colon. -/
def readScheme? (text : List Char) : Option (List Char × List Char) :=
  match text with
  | [] => none
  | first :: _ =>
      if first.isAlpha then
        let name := text.takeWhile fun c => c.isAlphanum || c == '+' || c == '-' || c == '.'
        match text.drop name.length with
        | ':' :: rest => some (name.map Char.toLower, rest)
        | _ => none
      else none

/-! ## Breaks -/

/-- Tabs and line breaks, which count for nothing in a URL. -/
def isBreak (c : Char) : Bool :=
  c == '\t' || c == '\n' || c == '\r'

def unbroken (text : List Char) : List Char :=
  text.filter fun c => !isBreak c

def behind : Nat -> List Char -> List Char
  | 0, text => text
  | _ + 1, [] => []
  | n + 1, c :: rest => if isBreak c then behind (n + 1) rest else behind n rest

/-! ## Segments -/

def isDrive (segment : List Char) : Bool :=
  match segment with
  | [letter, mark] => letter.isAlpha && (mark == ':' || mark == '|')
  | _ => false

def isPlainDrive (segment : List Char) : Bool :=
  isDrive segment && segment.getLast? == some ':'

/-- A drive, alone or with a backslash behind it, cannot be left. -/
def isHeld (segment : List Char) : Bool :=
  isDrive (segment.take 2) && (segment.drop 2).head?.all (· == '\\')

def dotForm (segment : List Char) : List Char :=
  match segment with
  | '%' :: '2' :: c :: rest =>
      if c == 'e' || c == 'E' then '.' :: dotForm rest else segment
  | '.' :: rest => '.' :: dotForm rest
  | _ => segment

/-- A segment of a path as it is written. -/
inductive Segment where
  | plain (text : List Char)
  /-- A drive and the text behind it, with nothing but a break in between. -/
  | onDrive (drive text : List Char)
deriving DecidableEq, Repr, Inhabited

namespace Segment

def ofText (text : List Char) : Segment :=
  let written := unbroken text
  let drive := written.take 2
  let rest := written.drop 2
  if isPlainDrive drive && !rest.isEmpty && (behind 2 text).head?.any isBreak then
    .onDrive drive (encode inPath rest)
  else .plain (encode inPath written)

def isDot (segment : Segment) : Bool :=
  match segment with
  | plain text => dotForm text == ['.']
  | onDrive _ _ => false

def isParent (segment : Segment) : Bool :=
  match segment with
  | plain text => dotForm text == ['.', '.']
  | onDrive _ _ => false

end Segment

/-! ## Paths -/

/-- Where the resolution of a path stands. -/
structure Walk where
  /-- The segments so far. -/
  folder : List (List Char)
  /-- Whether the path named a drive at its front. -/
  onDrive : Bool
deriving DecidableEq, Repr, Inhabited

namespace Walk

def start (folder : List (List Char)) : Walk := ⟨folder, false⟩

def add (walk : Walk) (text : List Char) : Walk :=
  { walk with folder := walk.folder ++ [text] }

/-- The folder above; one cannot leave the root or a drive. -/
def leave (walk : Walk) : Walk :=
  if walk.folder.getLast?.any isHeld then walk else { walk with folder := walk.folder.dropLast }

/-- Enters a segment.  A drive at the front of a file path is written with a colon. -/
def enter (file : Bool) (walk : Walk) : Segment -> Walk
  | .plain text =>
      if file && walk.folder.isEmpty && isDrive text then ⟨[text.take 1 ++ [':']], true⟩
      else walk.add text
  | .onDrive drive text =>
      if walk.folder.isEmpty then (walk.add drive).add text else walk.add (drive ++ text)

/-- Resolves segments.  The last one names a file unless it is empty. -/
def resolve (file : Bool) : Walk -> List Segment -> Walk
  | walk, [] => walk.add []
  | walk, [segment] =>
      if segment.isParent then walk.leave.add []
      else if segment.isDot then walk.add []
      else walk.enter file segment
  | walk, segment :: rest =>
      if segment.isParent then resolve file walk.leave rest
      else if segment.isDot then resolve file walk rest
      else resolve file (walk.enter file segment) rest

end Walk

/-- A file path does not start with empty segments. -/
def dropEmptyFront (segments : List (List Char)) : List (List Char) :=
  match segments.dropWhile List.isEmpty with
  | [] => [[]]
  | segments => segments

def dropSlash (text : List Char) : List Char :=
  if (unbroken text).head?.any (isSlash true) then behind 1 text else text

def endsPath (c : Char) : Bool :=
  c == '?' || c == '#'

/-- Walks along a path that starts in a folder.  What is left is a query or a fragment. -/
def walkPath (scheme : List Char) (folder : List (List Char)) (text : List Char) :
    Walk × List Char :=
  let written := text.takeWhile fun c => !endsPath c
  let segments := (splitOn (isSlash (isSpecial scheme)) written).map Segment.ofText
  ((Walk.start folder).resolve (isFile scheme) segments, text.drop written.length)

def Walk.path (scheme : List Char) (walk : Walk) : Path :=
  .rooted (if isFile scheme then dropEmptyFront walk.folder else walk.folder)

def readPath (scheme : List Char) (folder : List (List Char)) (text : List Char) :
    Path × List Char :=
  let (walk, rest) := walkPath scheme folder text
  (walk.path scheme, rest)

def readEnd (scheme : List Char) (text : List Char) : Option (List Char) × Option (List Char) :=
  let (front, fragment) := cutAt (· == '#') (unbroken text)
  let reserved := if isSpecial scheme then inSpecialQuery else inQuery
  (match front with
    | '?' :: query => some (encode reserved query)
    | _ => none,
    fragment.map (encode inFragment))

def withEnd (scheme : List Char) (authority : Option (List Char)) (path : Path)
    (rest : List Char) : Url :=
  let (query, fragment) := readEnd scheme rest
  ⟨scheme, authority, path, query, fragment⟩

/-! ## Authorities -/

def userInfo (text : List Char) : List Char :=
  let (name, password) := cutAt (· == ':') text
  let written :=
    encode inUserInfo name ++
      match password with
      | none | some [] => []
      | some password => ':' :: encode inUserInfo password
  if written.isEmpty then [] else written ++ ['@']

/-- The length of a host: it ends at a colon outside brackets. -/
def hostLength : Bool -> List Char -> Nat
  | _, [] => 0
  | inBrackets, c :: rest =>
      if c == ':' && !inBrackets then 0
      else 1 + hostLength (if c == '[' then true else if c == ']' then false else inBrackets) rest

def readPort (scheme : List Char) (text : List Char) :
    Except UrlError (List Char × List Char) :=
  let digits := text.takeWhile Char.isDigit
  let rest := text.drop digits.length
  let value := (digitsValue? 10 digits).getD 0
  if 65535 < value then .error .invalidPort
  else if rest.head?.any fun c => !("/\\?#".toList.contains c) then .error .invalidPort
  else if digits.isEmpty || some value == defaultPort? scheme then .ok ([], rest)
  else .ok (':' :: decimal value, rest)

/-- The part of a text that is before the last at sign, and what follows the sign. -/
def splitUser (text : List Char) : Option (List Char) × List Char :=
  let host := (text.reverse.takeWhile (· != '@')).reverse
  if host.length = text.length then (none, text)
  else (some (text.take (text.length - host.length - 1)), host)

def readAuthority (scheme : List Char) (text : List Char) : Except UrlError Url := do
  let special := isSpecial scheme
  let ends (c : Char) : Bool := isSlash special c || endsPath c
  let written := text.takeWhile fun c => !ends c
  let after := text.drop written.length
  let (user, host) := splitUser written
  if user = some [] ∧ host = [] ∧ after ≠ [] then .error .emptyHost
  let user := userInfo (user.getD [])
  let name := host.take (hostLength false host)
  let rest := host.drop name.length ++ after
  if special ∧ name = [] then .error .emptyHost
  let name <- if special then specialHost name else plainHost name
  if name = [] ∧ (rest.head? = some ':' ∨ user ≠ []) then .error .emptyHost
  let (port, rest) <-
    match rest with
    | ':' :: rest => readPort scheme rest
    | rest => .ok ([], rest)
  let authority := some (user ++ name ++ port)
  if special then
    let (path, rest) := readPath scheme [] (dropSlash rest)
    return withEnd scheme authority path rest
  else
    match rest with
    | [] => return withEnd scheme authority (.rooted []) []
    | c :: tail =>
        if endsPath c then return withEnd scheme authority (.rooted []) rest
        else
          let (path, rest) := readPath scheme [] (if c == '/' then tail else rest)
          return withEnd scheme authority path rest

/-! ## Files

The text of a file URL still has its breaks: behind a drive, they divide a segment. -/

def startsWithDrive (text : List Char) : Bool :=
  isDrive (unbroken (text.takeWhile fun c => !(isSlash true c || endsPath c)))

/-- The folder against which a reference is resolved: a path without its last segment.  A lone
drive stays. -/
def folderOf (file : Bool) (path : Path) : List (List Char) :=
  match path with
  | .rooted segments =>
      if file && segments.getLast?.any isPlainDrive then segments else segments.dropLast
  | .rootless _ => []

def localFile (folder : List (List Char)) (text : List Char) : Url :=
  let scheme := "file".toList
  let (path, rest) := readPath scheme folder text
  withEnd scheme (some []) path rest

/-- Reads a file URL behind its double slash.  A path on a drive has no host.  Without a host, the
slash before the path counts as an empty segment. -/
def readFileHost (text : List Char) : Except UrlError Url := do
  let scheme := "file".toList
  let front := text.takeWhile fun c => !(isSlash true c || endsPath c)
  let rest := text.drop front.length
  let written := unbroken front
  if written.isEmpty then return localFile [] rest
  else if isDrive written then return localFile [] text
  else
    let host <- specialHost written
    if host == "localhost".toList then return localFile [] rest
    else
      let (walk, rest) := walkPath scheme [] (dropSlash rest)
      return withEnd scheme (some (if walk.onDrive then [] else host)) (walk.path scheme) rest

/-- A reference with one slash in front stays on the drive or host of its base. -/
def readFromRoot (base : Option Url) (rest : List Char) : Url :=
  match base with
  | some base =>
      if startsWithDrive rest then localFile [] rest
      else
        let first := (base.path.segments?.bind List.head?).getD []
        if isPlainDrive first then localFile [first] rest
        else
          let (path, rest) := readPath base.scheme [] rest
          withEnd base.scheme base.authority path rest
  | none => localFile [] rest

def readFile (base : Option Url) (text : List Char) : Except UrlError Url :=
  let slashes := (unbroken text).takeWhile (isSlash true)
  if 2 ≤ slashes.length then readFileHost (behind 2 text)
  else if slashes.length = 1 then .ok (readFromRoot base (behind 1 text))
  else
    match base, unbroken text with
    | none, _ => .ok (localFile [] text)
    | some base, [] => .ok { base with fragment := none }
    | some base, '?' :: _ => .ok (withEnd base.scheme base.authority base.path text)
    | some base, '#' :: rest => .ok { base with fragment := some (encode inFragment rest) }
    | some base, _ =>
        if startsWithDrive text then .ok (localFile [] text)
        else
          let (path, rest) := readPath base.scheme (folderOf true base.path) text
          .ok (withEnd base.scheme base.authority path rest)

/-! ## References -/

/-- Resolves a reference without a scheme against a URL that is not a file. -/
def readRelative (base : Url) (text : List Char) : Except UrlError Url :=
  match text with
  | [] => .ok { base with fragment := none }
  | first :: rest =>
      let slash (c : Char) : Bool := c == '/' || c == '\\'
      if first == '?' then .ok (withEnd base.scheme base.authority base.path text)
      else if first == '#' then .ok { base with fragment := some (encode inFragment rest) }
      else if slash first then
        if rest.head?.any slash then
          readAuthority base.scheme
            (if "//".toList.isPrefixOf text then text.drop 2 else text.dropWhile slash)
        else
          let (path, rest) := readPath base.scheme [] rest
          .ok (withEnd base.scheme base.authority path rest)
      else
        let (path, rest) := readPath base.scheme (folderOf false base.path) text
        .ok (withEnd base.scheme base.authority path rest)

/-- A text without control characters and spaces at its ends. -/
def trimmed (text : List Char) : List Char :=
  let outer (c : Char) : Bool := c.toNat ≤ 32
  ((text.dropWhile outer).reverse.dropWhile outer).reverse

def parse (base : Option Url) (input : List Char) : Except UrlError Url :=
  let whole := trimmed input
  let text := unbroken whole
  match readScheme? text with
  | some (scheme, rest) =>
      if isFile scheme then
        readFile (base.filter fun base => isFile base.scheme)
          (behind (text.length - rest.length) whole)
      else if isSpecial scheme then
        let slashes := rest.takeWhile (isSlash true)
        match base with
        | some base =>
            if slashes.length < 2 ∧ base.scheme = scheme then readRelative base rest
            else readAuthority scheme (rest.drop slashes.length)
        | none => readAuthority scheme (rest.drop slashes.length)
      else
        match rest with
        | '/' :: '/' :: rest => readAuthority scheme rest
        | '/' :: rest =>
            let (path, rest) := readPath scheme [] rest
            .ok (withEnd scheme none path rest)
        | rest =>
            let written := rest.takeWhile fun c => !endsPath c
            .ok (withEnd scheme none (.rootless (encode isControl written))
              (rest.drop written.length))
  | none =>
      match base with
      | none => .error .relativeWithoutBase
      | some base =>
          match text, base.path with
          | '#' :: rest, _ => .ok { base with fragment := some (encode inFragment rest) }
          | _, .rootless _ => .error .relativeToRootless
          | text, .rooted _ =>
              if isFile base.scheme then readFile (some base) whole else readRelative base text

end Url

end Asm6502
