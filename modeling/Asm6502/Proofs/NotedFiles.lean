import Asm6502.Proofs.IncludeFootprint

/-!
# The files a program notes

The used and watched files of a program decide what the program is, unless an include found a file
and left it out, because too many documents were open or because the file could not be read.  Such
a file is noted nowhere.  A chain of includes that is one longer than the limit is an example.
-/

namespace Asm6502

/-! ## Programs and their files -/

/-- A file is the same for two sources of files, each with the documents that are known. -/
structure SameFile (files : FileSource) (cache : DocumentCache) (files' : FileSource)
    (cache' : DocumentCache) (uri : Uri) : Prop where
  cached : cache'.find? uri = cache.find? uri
  hasFile : files'.hasFile uri = files.hasFile uri
  read : files'.read? uri = files.read? uri

theorem SameFile.symm {files files' : FileSource} {cache cache' : DocumentCache} {uri : Uri}
    (h : SameFile files cache files' cache' uri) : SameFile files' cache' files cache uri :=
  ⟨h.cached.symm, h.hasFile.symm, h.read.symm⟩

namespace Program

/-- The used and watched files of the program that starts with a document decide what the program
is: wherever they and all folders are the same, the program is. -/
def DecidedByNoted (document : Document) (config : Config) (files : FileSource)
    (cache : DocumentCache) : Prop :=
  ∀ (files' : FileSource) (cache' : DocumentCache),
    (∀ uri, files'.hasFolder uri = files.hasFolder uri) ->
    (∀ uri, (resolve document config files cache).1.dependsOn uri = true ->
      SameFile files cache files' cache' uri) ->
    (resolve document config files' cache').1 = (resolve document config files cache).1

theorem alike_of_sameFile {shared : Uri -> Prop} {files files' : FileSource}
    {cache cache' : DocumentCache} (hfolder : ∀ uri, files'.hasFolder uri = files.hasFolder uri)
    (hsame : ∀ uri, shared uri -> SameFile files cache files' cache' uri) :
    Walk.Alike shared files files' ⟨.empty, cache⟩ ⟨.empty, cache'⟩ where
  sources := rfl
  hasFolder := hfolder
  hasFile := by
    intro uri hu
    obtain ⟨hc, hf, -⟩ := hsame uri hu
    unfold Walk.hasFile
    rw [Cache.contains_eq, Cache.contains_eq, hc, hf]
  content := by
    intro uri hu
    obtain ⟨hc, -, hr⟩ := hsame uri hu
    unfold Walk.content?
    rw [hc, hr]

def withoutFile (files : FileSource) (uri : Uri) : FileSource where
  read? other := if other = uri then none else files.read? other
  hasFile other := if other = uri then false else files.hasFile other
  hasFolder := files.hasFolder

theorem sameFile_without (files : FileSource) (cache : DocumentCache) {uri other : Uri}
    (h : other ≠ uri) : SameFile files cache (withoutFile files uri) (cache.erase uri) other where
  cached := by
    rw [DocumentCache.find?_erase, if_neg h]
  hasFile := if_neg h
  read := if_neg h

theorem not_mem_leftOut_without (document : Document) (files : FileSource)
    (cache : DocumentCache) (uri : Uri) :
    uri ∉ document.leftOut (withoutFile files uri) (cache.erase uri) := by
  intro hu
  have hfile := Walk.hasFile_of_mem_leftOut hu
  have hc : (cache.erase uri).find? uri = none := by
    rw [DocumentCache.find?_erase, if_pos rfl]
  simp [Walk.hasFile, Cache.contains_eq, hc, withoutFile] at hfile

theorem DecidedByNoted.noted {document : Document} {config : Config} {files : FileSource}
    {cache : DocumentCache} (h : DecidedByNoted document config files cache) :
    ∀ uri ∈ document.leftOut files cache,
      (resolve document config files cache).1.dependsOn uri = true := by
  intro uri hu
  cases hnoted : (resolve document config files cache).1.dependsOn uri with
  | true => rfl
  | false =>
      -- Take the file away.  The program stays the same and does not hang on the file, so its
      -- walk cannot tell whether the file is there, and cannot have left it out either.
      have hsame : (resolve document config (withoutFile files uri) (cache.erase uri)).1 =
          (resolve document config files cache).1 := by
        refine h _ _ (fun _ => rfl) ?_
        intro other hother
        apply sameFile_without files cache
        rintro rfl
        rw [hnoted] at hother
        cases hother
      have halike : Walk.Alike (fun other => other ≠ uri) (withoutFile files uri) files
          ⟨.empty, cache.erase uri⟩ ⟨.empty, cache⟩ := by
        refine alike_of_sameFile (fun _ => rfl) ?_
        intro other hother
        exact (sameFile_without files cache hother).symm
      obtain ⟨-, hleft⟩ := resolve_congr config halike
        (by
          rintro other hother rfl
          rw [hsame, hnoted] at hother
          cases hother)
        (by
          rintro other hother rfl
          exact not_mem_leftOut_without document files cache other hother)
      rw [hleft] at hu
      exact absurd hu (not_mem_leftOut_without document files cache uri)

/-- The used and watched files decide what a program is exactly when they have every file that an
include finds and leaves out. -/
theorem decidedByNoted_iff (document : Document) (config : Config) (files : FileSource)
    (cache : DocumentCache) :
    DecidedByNoted document config files cache ↔
      ∀ uri ∈ document.leftOut files cache,
        (resolve document config files cache).1.dependsOn uri = true := by
  constructor
  · exact DecidedByNoted.noted
  · intro hleft files' cache' hfolder hsame
    exact (resolve_congr config (alike_of_sameFile hfolder hsame) (fun _ h => h) hleft).1

end Program

/-! ## Chains of includes -/

namespace Document

/-- Whether all that a document asks for is one include of a given file. -/
def includesOnly (document : Document) (target : Uri) : Bool :=
  match Line.walkAll document.file.lines with
  | [line] =>
      match line.fileRequest with
      | .document name _ => document.uri.join? name = some target
      | _ => false
  | _ => false

theorem request_of_includesOnly {document : Document} {target : Uri}
    (h : document.includesOnly target = true) :
    ∃ line name location, Line.walkAll document.file.lines = [line] ∧
      line.fileRequest = .document name location ∧ document.uri.join? name = some target := by
  unfold includesOnly at h
  split at h
  next line hlines =>
    split at h
    next name location hr => exact ⟨line, name, location, hlines, hr, of_decide_eq_true h⟩
    next => cases h
  next => cases h

end Document

namespace Walk

variable {files : FileSource}

variable {w : Walk} {n : Nat} {link : Nat -> Document}

/-- Documents each of which asks for the next one only, where all files up to the last are there. -/
structure Chain (files : FileSource) (w : Walk) (n : Nat) (link : Nat -> Document) : Prop where
  includes : ∀ k ≤ n, (link k).includesOnly (link (k + 1)).uri = true
  hasFile : ∀ k ≤ n, w.hasFile files (link (k + 1)).uri = true
  content : ∀ k < n, w.content? files (link (k + 1)).uri = some (link (k + 1))
  distinct : ∀ j ≤ n + 1, ∀ k ≤ n + 1, (link j).uri = (link k).uri -> j = k

theorem Chain.tail {w' : Walk} (h : Chain files w (n + 1) link) (he : Extends files w w') :
    Chain files w' n fun k => link (k + 1) where
  includes k hk := h.includes (k + 1) (by omega)
  hasFile k hk := by rw [he.hasFile, h.hasFile (k + 1) (by omega)]
  content k hk := by rw [he.content, h.content (k + 1) (by omega)]
  distinct j hj k hk huri := by
    have := h.distinct (j + 1) (by omega) (k + 1) (by omega) huri
    omega

/-- A file next to the document is found at once, so nothing is watched for it. -/
theorem target?_of_join {document target : Uri} {name : String}
    (hjoin : document.join? name = some target) (hfile : w.hasFile files target = true)
    (path : List Uri) (line : Line) :
    w.target? files document name = some target ∧
      (w.lookFor files path document line name).watchedFiles = w.watchedFiles := by
  have hcandidates : w.candidates document name =
      target :: w.includeFolders.filterMap fun folder => folder.join? name := by
    simp [candidates, hjoin]
  constructor
  · rw [target?, hcandidates, List.find?_cons_of_pos hfile]
  · change ((w.candidates document name).takeWhile fun uri => !w.hasFile files uri).foldl addNew
      w.watchedFiles = _
    rw [hcandidates, List.takeWhile_cons_of_neg (by simp [hfile]), List.foldl_nil]

theorem Chain.first (h : Chain files w n link) (path : List Uri) :
    ∃ line name location, Line.walkAll (link 0).file.lines = [line] ∧
      line.fileRequest = .document name location ∧
      (w.addDocument (link 0)).target? files (link 0).uri name = some (link 1).uri ∧
      ((w.addDocument (link 0)).lookFor files path (link 0).uri line name).watchedFiles =
        w.watchedFiles := by
  obtain ⟨line, name, location, hlines, hr, hjoin⟩ :=
    Document.request_of_includesOnly (h.includes 0 (Nat.zero_le n))
  have hfile : (w.addDocument (link 0)).hasFile files (link 1).uri = true :=
    h.hasFile 0 (Nat.zero_le n)
  obtain ⟨ht, hwatched⟩ := target?_of_join hjoin hfile path line
  exact ⟨line, name, location, hlines, hr, ht, hwatched⟩

/-- A walk through a chain leaves the file behind its last document out and notes the others. -/
theorem Chain.cut_off {path : List Uri} (h : Chain files w n link)
    (hpath : ∀ k ≤ n, (link (k + 1)).uri ∉ path) :
    leftOut files n path (link 0) w = [(link (n + 1)).uri] ∧
      (∀ uri ∈ (through files n path (link 0) w).usedFiles,
        uri ∈ w.usedFiles ∨ ∃ k ≤ n, uri = (link k).uri) ∧
      (through files n path (link 0) w).watchedFiles = w.watchedFiles := by
  -- Induction on the length: behind its first document the chain is one shorter.
  induction n generalizing link path w with
  | zero =>
      obtain ⟨line, name, location, hlines, hr, ht, hwatched⟩ := h.first path
      have hopen := hpath 0 (Nat.le_refl 0)
      have hthrough : through files 0 path (link 0) w =
          (w.addDocument (link 0)).lookFor files path (link 0).uri line name := by
        rw [through_eq, hlines, overLines, List.foldl_cons, List.foldl_nil, visit_eq, hr]
        simp only [ht, enterFile, if_neg hopen, opener]
      refine ⟨?_, ?_, hthrough ▸ hwatched⟩
      · rw [leftOut_eq_leftOutOver, hlines, leftOutOver_cons, leftOutOver_nil,
          leftOutAt_of_target? hr ht hopen]
        cases (w.addDocument (link 0)).content? files (link 1).uri <;> rfl
      · intro uri hu
        rw [hthrough] at hu
        rcases mem_addNew.1 hu with hu | hu
        · exact .inl hu
        · exact .inr ⟨0, Nat.le_refl 0, hu⟩
  | succ n ih =>
      obtain ⟨line, name, location, hlines, hr, ht, hwatched⟩ := h.first path
      have hopen := hpath 0 (Nat.zero_le _)
      have hcontent : (w.addDocument (link 0)).content? files (link 1).uri = some (link 1) :=
        h.content 0 (Nat.succ_pos n)
      have he := (addDocument_extends files w (link 0)).trans
        ((lookFor_extends files _ path (link 0).uri line name).trans
          (remember_extends (hasFile_of_target? ht) hcontent))
      have hpath' : ∀ k ≤ n, (link (k + 2)).uri ∉ path ++ [(link 1).uri] := by
        intro k hk hmem
        rcases List.mem_append.1 hmem with hmem | hmem
        · exact hpath (k + 1) (by omega) hmem
        · have := h.distinct (k + 2) (by omega) 1 (by omega) (List.mem_singleton.1 hmem)
          omega
      obtain ⟨hleft, hused, hwatched'⟩ := ih (h.tail he) hpath'
      have hsources := remember_sources
        ((w.addDocument (link 0)).lookFor files path (link 0).uri line name) (link 1)
      have hthrough : through files (n + 1) path (link 0) w =
          through files n (path ++ [(link 1).uri]) (link 1)
            (((w.addDocument (link 0)).lookFor files path (link 0).uri line name).remember
              (link 1)) := by
        rw [through_eq, hlines, overLines, List.foldl_cons, List.foldl_nil,
          visit_eq_through hr ht hopen hcontent]
      refine ⟨?_, ?_, ?_⟩
      · rw [leftOut_eq_leftOutOver, hlines, leftOutOver_cons, leftOutOver_nil,
          leftOutAt_of_target? hr ht hopen, hcontent, List.append_nil]
        exact hleft
      · intro uri hu
        rw [hthrough] at hu
        rcases hused uri hu with hu | ⟨k, hk, hu⟩
        · rw [hsources] at hu
          rcases mem_addNew.1 hu with hu | hu
          · exact .inl hu
          · exact .inr ⟨0, Nat.zero_le _, hu⟩
        · exact .inr ⟨k + 1, by omega, hu⟩
      · rw [hthrough, hwatched', hsources, hwatched]

end Walk

namespace Program

/-- A program that starts with a chain of includes longer than the limit is not decided by the
files it notes. -/
theorem not_decidedByNoted_of_chain {config : Config} {files : FileSource} {cache : DocumentCache}
    {link : Nat -> Document}
    (h : Walk.Chain files ⟨.empty, cache⟩ (includeLimit - 1) link) :
    ¬ DecidedByNoted (link 0) config files cache := by
  intro hdecided
  have hpath : ∀ k ≤ includeLimit - 1, (link (k + 1)).uri ∉ [(link 0).uri] := by
    intro k hk hmem
    have := h.distinct (k + 1) (by omega) 0 (by omega) (List.mem_singleton.1 hmem)
    omega
  obtain ⟨hleft, hused, hwatched⟩ := h.cut_off hpath
  have hnoted := hdecided.noted (link (includeLimit - 1 + 1)).uri (by
    rw [Document.leftOut, hleft]
    exact List.mem_singleton.2 rfl)
  rw [resolve_eq, dependsOn_iff] at hnoted
  rcases hnoted with hu | hu
  · rcases hused _ hu with hu | ⟨k, hk, hu⟩
    · cases hu
    · have := h.distinct _ (Nat.le_refl _) k (by omega) hu
      omega
  · have hu := hwatched ▸ hu
    cases hu

/-- The files of a chain, by number. -/
def numbered (k : Nat) : Uri := ⟨"file:///" ++ toString k⟩

/-- A text that includes the file with the next number. -/
def numberedText (k : Nat) : String := " INCLUDE \"" ++ toString (k + 1) ++ "\"\n"

/-- As many files as may be open at a time. -/
def numberedFiles : MemoryFiles :=
  ⟨⟨(List.range 64).map fun k => (numbered k, numberedText k)⟩, []⟩

/-- One more document, which the last of the files includes. -/
def numberedCache : DocumentCache :=
  DocumentCache.empty.insert (.ofText "" (numbered 64))

theorem numbered_inj {j k : Nat} (h : numbered j = numbered k) : j = k := by
  have htext : toString j = toString k := by
    rw [numbered, numbered, Uri.mk.injEq, String.append_right_inj] at h
    exact h
  have hdigits : Nat.toDigits 10 j = Nat.toDigits 10 k := by
    rw [Nat.toString_eq_ofList_toDigits, Nat.toString_eq_ofList_toDigits] at htext
    exact String.ofList_injective htext
  have hvalue := congrArg (Nat.ofDigitChars 10 · 0) hdigits
  simpa only [Nat.ofDigitChars_ten_toDigits] using hvalue

theorem find?_numberedCache (k : Nat) :
    numberedCache.find? (numbered k) =
      if k = 64 then some (.ofText "" (numbered 64)) else none := by
  rw [numberedCache, DocumentCache.find?_insert, Document.uri_ofText]
  by_cases hk : k = 64
  · rw [if_pos (congrArg numbered hk), if_pos hk]
  · rw [if_neg (fun h => hk (numbered_inj h)), if_neg hk]
    rfl

theorem content?_numbered {k : Nat} (hk : k < 64) :
    Walk.content? ⟨.empty, numberedCache⟩ numberedFiles.source (numbered k) =
      some (.ofText (numberedText k) (numbered k)) := by
  have hread : numberedFiles.source.read? (numbered k) = some (numberedText k) :=
    Table.findIn_map numberedText (fun _ _ => numbered_inj) (List.mem_range.2 hk)
  rw [Walk.content?, find?_numberedCache, if_neg (Nat.ne_of_lt hk), hread]
  rfl

theorem numbered_chain :
    Walk.Chain numberedFiles.source ⟨.empty, numberedCache⟩ (includeLimit - 1)
      fun k => .ofText (numberedText k) (numbered k) where
  includes := by
    have hall : ∀ k < 64,
        (Document.ofText (numberedText k) (numbered k)).includesOnly (numbered (k + 1)) = true := by
      decide +kernel
    exact fun k hk => hall k (Nat.lt_succ_of_le hk)
  hasFile := by
    intro k hk
    rw [numberedFiles.source_readable.hasFile_eq]
    rw [Document.uri_ofText]
    rcases Nat.eq_or_lt_of_le hk with rfl | hk
    · rw [Walk.content?, find?_numberedCache]
      rfl
    · rw [content?_numbered (Nat.succ_lt_succ hk)]
      rfl
  content := fun k hk => content?_numbered (Nat.succ_lt_succ hk)
  distinct := fun _ _ _ _ h => numbered_inj h

def includer : Document := .ofText "  INCLUDE \"b.h\"\n" ⟨"file:///work/main.asm"⟩

def unreadable : FileSource where
  read? _ := none
  hasFile uri := decide (uri = ⟨"file:///work/b.h"⟩)
  hasFolder _ := false

/-- A file behind a chain as long as the limit is noted nowhere, and neither is a file that cannot
be read. -/
theorem not_decidedByNoted_left_out :
    ¬ DecidedByNoted (.ofText (numberedText 0) (numbered 0)) ⟨[]⟩ numberedFiles.source
        numberedCache ∧
      ¬ DecidedByNoted includer ⟨[]⟩ unreadable .empty := by
  refine ⟨not_decidedByNoted_of_chain numbered_chain, ?_⟩
  intro h
  have hleft : includer.leftOut unreadable .empty = [⟨"file:///work/b.h"⟩] := by
    decide +kernel
  have hnoted := h.noted ⟨"file:///work/b.h"⟩ (by rw [hleft]; exact List.mem_singleton.2 rfl)
  exact absurd hnoted (by decide +kernel)

end Program

end Asm6502
