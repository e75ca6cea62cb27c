import Asm6502.Uri

/-!
# Names of folders

A source text names folders in which files are looked for.  Such a name is resolved with a slash at
its end.  How references are resolved is left to a resolver, and what is used of the standard for
URLs is stated as its laws.  Then files can be joined to the folder with a name, unless the name
holds a query or a fragment, in which the slash is lost, or leads to a URL without segments.
-/

namespace Asm6502

/-- One or more letters and digits. -/
def IsPlainName (name : List Char) : Prop := name ≠ [] ∧ ∀ c ∈ name, c.isAlphanum = true

instance (name : List Char) : Decidable (IsPlainName name) :=
  @instDecidableAnd _ _ _ (List.decidableBAll _ _)

theorem IsPlainName.ne {name : List Char} (h : IsPlainName name) {mark : Char}
    (hmark : mark.isAlphanum = false) : ∀ c ∈ name, c ≠ mark := by
  rintro c hc rfl
  rw [h.2 c hc] at hmark
  cases hmark

/-- A text without the marks in front of a query and a fragment. -/
def IsBare (text : List Char) : Prop := ∀ c ∈ text, c ≠ '?' ∧ c ≠ '#'

instance (text : List Char) : Decidable (IsBare text) :=
  List.decidableBAll _ _

namespace Resolver

/-- What the standard for URLs says of references, as far as folders are concerned. -/
structure FollowsStandard (r : Resolver) : Prop where
  /-- A path with segments has a slash in front of each. -/
  path_eq {uri : Uri} {segments : List (List Char)} (h : r.segments? uri = some segments) :
    r.path uri = segments.flatMap ('/' :: ·)
  /-- Behind a slash at the end of a reference stands an empty segment.  Queries and fragments come
  from the reference alone. -/
  slash {base uri : Uri} {reference : List Char} {segments : List (List Char)}
    (hbare : IsBare reference) (h : r.resolve? base (reference ++ ['/']) = some uri)
    (hsegments : r.segments? uri = some segments) :
    segments.getLast? = some [] ∧ IsBare uri.text.toList
  /-- A plain name takes the place of an empty last segment, and a dot empties it again. -/
  plain {uri : Uri} {front : List (List Char)} {name : List Char} (hname : IsPlainName name)
    (hbare : IsBare uri.text.toList) (h : r.segments? uri = some (front ++ [[]])) :
    ∃ file, r.resolve? uri name = some file ∧ r.segments? file = some (front ++ [name]) ∧
      r.resolve? file ['.'] = some uri
  /-- Nothing is resolved against a path that is neither empty nor made of segments. -/
  rootless {uri : Uri} {name : List Char} (hname : IsPlainName name)
    (h : r.segments? uri = none) (hpath : r.path uri ≠ []) : r.resolve? uri name = none

structure Opens (r : Resolver) (folder : Uri) : Prop where
  isFolder : r.isFolder folder = true
  own : r.folder folder = folder
  files (name : String) (hname : IsPlainName name.toList) :
    ∃ file, r.join? folder name = some file ∧ r.folder file = folder ∧ r.fileName file = name

variable {r : Resolver} {uri folder : Uri} {name : String}

theorem withSlashes_of_isPlainName (h : IsPlainName name.toList) :
    withSlashes name = name.toList := by
  have hkeep : ∀ c ∈ name.toList, (if c == '\\' then '/' else c) = c := by
    intro c hc
    rw [if_neg (by simpa using h.ne (by decide) c hc)]
  rw [withSlashes, List.map_congr_left hkeep, List.map_id']

/-- The slash at the end of a reference to a folder stands behind what the name holds. -/
theorem exists_folderReference (h : IsBare name.toList) :
    ∃ reference, folderReference name = reference ++ ['/'] ∧ IsBare reference := by
  have hbare : IsBare (withSlashes name) := by
    intro c hc
    obtain ⟨d, hd, rfl⟩ := List.mem_map.1 hc
    split
    · decide
    · exact h d hd
  unfold folderReference
  dsimp only
  split
  · next hlast =>
    obtain ⟨reference, hreference⟩ := List.getLast?_eq_some_iff.1 hlast
    refine ⟨reference, hreference, fun c hc => hbare c ?_⟩
    rw [hreference]
    exact List.mem_append_left _ hc
  · exact ⟨_, rfl, hbare⟩

variable {front : List (List Char)}

theorem fileName_of_segments? (hname : IsPlainName name.toList)
    (hsegments : r.segments? uri = some (front ++ [name.toList])) : r.fileName uri = name := by
  have hne : (!name.toList.isEmpty) = true := by simpa using hname.1
  rw [fileName, hsegments]
  simp [hne]

namespace FollowsStandard

variable (h : r.FollowsStandard)

include h

theorem isFolder_of_segments?
    (hsegments : r.segments? uri = some (front ++ [[]])) : r.isFolder uri = true := by
  simp [isFolder, h.path_eq hsegments]

theorem not_isFolder_of_segments? (hname : IsPlainName name.toList)
    (hsegments : r.segments? uri = some (front ++ [name.toList])) : r.isFolder uri = false := by
  have hlast := List.getLast?_eq_some_getLast hname.1
  have hslash := hname.ne (by decide : '/'.isAlphanum = false) _ (List.getLast_mem hname.1)
  simpa [isFolder, h.path_eq hsegments, List.getLast?_append, List.getLast?_cons, hlast]
    using hslash

/-- A folder without query and fragment opens if its path has segments with nothing in the last. -/
theorem opens (hsegments : r.segments? folder = some (front ++ [[]]))
    (hbare : IsBare folder.text.toList) : r.Opens folder := by
  have hfolder := h.isFolder_of_segments? hsegments
  have hown : r.folder folder = folder := if_pos hfolder
  refine ⟨hfolder, hown, fun name hname => ?_⟩
  obtain ⟨file, hfile, hinside, hback⟩ := h.plain hname hbare hsegments
  refine ⟨file, ?_, ?_, fileName_of_segments? hname hinside⟩
  · rw [join?, hown, withSlashes_of_isPlainName hname, hfile]
  · rw [Resolver.folder, h.not_isFolder_of_segments? hname hinside, hback]
    rfl

end FollowsStandard

/-- The name of a file in the folder `/`, or of that folder itself, which is empty. -/
def rootName? (uri : Uri) : Option (List Char) :=
  match uri.text.toList with
  | '/' :: name => if '/' ∈ name then none else some name
  | _ => none

theorem rootName?_eq_some {name : List Char} :
    rootName? uri = some name ↔ uri.text.toList = '/' :: name ∧ '/' ∉ name := by
  unfold rootName?
  split
  · next rest htext =>
    rw [htext, List.cons.injEq]
    split
    · next hslash => simpa using fun hsame => hsame ▸ hslash
    · next hslash => simpa using fun hsame => hsame ▸ hslash
  · next hno => simpa using fun htext => absurd htext (hno name)

/-- The resolver that knows the folder `/` and the files in it. -/
def oneFolder : Resolver where
  path uri := uri.text.toList
  segments? uri := (rootName? uri).map fun name => [name]
  resolve? uri reference := (rootName? uri).bind fun _ =>
    if reference ∈ [['.'], ['/'], ['.', '/']] then some ⟨"/"⟩
    else if IsPlainName reference then some ⟨String.ofList ('/' :: reference)⟩
    else none

theorem oneFolder_followsStandard : oneFolder.FollowsStandard where
  path_eq {uri segments} h := by
    obtain ⟨name, hname, rfl⟩ := Option.map_eq_some_iff.1 h
    rw [List.flatMap_singleton]
    exact (rootName?_eq_some.1 hname).1
  slash {base uri reference segments} hbare h hsegments := by
    obtain ⟨-, -, hfound⟩ := Option.bind_eq_some_iff.1 h
    split at hfound
    · cases hfound
      cases hsegments
      decide
    · have hplain : ¬ IsPlainName (reference ++ ['/']) := fun hplain =>
        hplain.ne (by decide) '/' (by simp) rfl
      rw [if_neg hplain] at hfound
      cases hfound
  plain {uri front name} hname hbare h := by
    obtain ⟨root, hroot, hfront⟩ := Option.map_eq_some_iff.1 h
    have hlast : front = [] ∧ root = [] := by
      rcases front with _ | ⟨first, front⟩ <;> simp_all
    obtain ⟨rfl, rfl⟩ := hlast
    obtain rfl : uri = ⟨"/"⟩ := by
      have htext := congrArg String.ofList (rootName?_eq_some.1 hroot).1
      rw [String.ofList_toList] at htext
      exact congrArg Uri.mk htext
    have hdots : name ∉ [['.'], ['/'], ['.', '/']] := by
      intro hmem
      have hall : ∀ other ∈ [['.'], ['/'], ['.', '/']], ¬ IsPlainName other := by decide
      exact hall name hmem hname
    have hfile : rootName? ⟨String.ofList ('/' :: name)⟩ = some name :=
      rootName?_eq_some.2 ⟨String.toList_ofList, fun hslash => hname.ne (by decide) _ hslash rfl⟩
    refine ⟨⟨String.ofList ('/' :: name)⟩, ?_, congrArg (Option.map fun name => [name]) hfile,
      congrArg (Option.bind · _) hfile⟩
    show (if name ∈ _ then _ else _) = _
    rw [if_neg hdots, if_pos hname]
  rootless {uri name} hname h hpath := by
    have hroot : rootName? uri = none := Option.map_eq_none_iff.1 h
    exact congrArg (Option.bind · _) hroot

end Resolver

end Asm6502
