import Reckoner.FileTree
import Reckoner.Proofs.Text.Path

/-!
# Reading what was written

Creating a file changes one content and makes nothing a folder that was none: the folder of the file
exists already, and with it all folders above.  So the file reads as it was written, and every other
file as before: `read_create_self` and `read_create_other`.

Files in one folder have different names if their last parts differ, whatever the folder is:
`exists_key_join`.
-/

namespace Reckoner.FileTree

open Reckoner.Path

variable {t t' : FileTree} {fs hs ps qs : List String} {n name path content other c : String}

/-! ## Clean absolute names -/

theorem absolute_eq_slash_iff (hps : ∀ p ∈ ps, IsPart p) : absolute ps = "/" ↔ ps = [] := by
  have hroot : absolute [] = "/" := by decide
  rw [← hroot, absolute_inj hps (by simp)]

theorem below_absolute (hps : ∀ p ∈ ps, IsPart p) (n : String) :
    below (absolute ps) n = absolute (ps ++ [n]) := by
  rw [absolute_concat, below, stem]
  split_ifs with hslash hnil hnil
  · rfl
  · exact (hnil ((absolute_eq_slash_iff hps).1 hslash)).elim
  · exact (hslash ((absolute_eq_slash_iff hps).2 hnil)).elim
  · rfl

theorem not_liesBelow_self (name : String) : liesBelow name name = false := by
  rw [liesBelow]
  split_ifs with hslash
  · simp [hslash]
  · rw [String.isPrefixOf, String.startsWith_string_eq_false_iff]
    intro hpasses
    have hlength := hpasses.length_le
    simp only [String.toList_append, List.length_append] at hlength
    exact absurd hlength (by simp)

/-- What lies below a name has more parts. -/
theorem prefix_of_liesBelow (hps : ∀ p ∈ ps, IsPart p) (hqs : ∀ q ∈ qs, IsPart q)
    (h : liesBelow (absolute qs) (absolute ps) = true) : ps <+: qs := by
  rw [liesBelow] at h
  split_ifs at h with hslash
  · rw [(absolute_eq_slash_iff hps).1 hslash]
    exact List.nil_prefix
  · obtain ⟨rest, hrest⟩ := String.startsWith_string_iff.1 h
    have htext : absolute qs = absolute ps ++ "/" ++ String.ofList rest := by
      rw [← String.toList_inj, String.toList_append, String.toList_ofList, hrest]
    refine ⟨parts (String.ofList rest), ?_⟩
    rw [← parts_absolute hqs, htext, parts_append_slash, parts_absolute hps]

theorem exists_key (t : FileTree) (path : String) :
    ∃ ps, (∀ p ∈ ps, IsName p) ∧ t.key path = absolute ps := by
  have hclean {path : String} (h : isAbsolute path = true) :
      ∃ ps, (∀ p ∈ ps, IsName p) ∧ clean path = absolute ps :=
    ⟨_, isName_settle fun p => isPart_of_mem_parts, clean_of_absolute h⟩
  rw [key]
  split_ifs with habsolute
  · exact hclean habsolute
  · apply hclean
    rw [String.append_assoc, isAbsolute_append (ne_empty_of_isAbsolute t.rooted), t.rooted]

/-- A file in a folder has the parts of the folder and its own name. -/
theorem exists_key_join (t : FileTree) (folder : String) :
    ∃ fs, (∀ p ∈ fs, IsName p) ∧ ∀ n, IsName n → t.key (join folder n) = absolute (fs ++ [n]) := by
  have hfolder : ∀ p ∈ parts folder, IsPart p := fun p => isPart_of_mem_parts
  have hroot : ∀ p ∈ parts t.root, IsPart p := fun p => isPart_of_mem_parts
  cases habsolute : isAbsolute folder with
  | true =>
    have hkept := isPart_settle true hfolder
    refine ⟨settle true (settle true (parts folder)), isName_settle hkept, fun n hn => ?_⟩
    rw [join_of_absolute habsolute hn, key, if_pos (isAbsolute_absolute _),
      clean_of_absolute (isAbsolute_absolute _), parts_absolute (isPart_concat hkept hn.toIsPart),
      settle_concat true _ hn]
  | false =>
    have hkept := isPart_settle false hfolder
    refine ⟨settle true (parts t.root ++ settle false (parts folder)),
      isName_settle (List.forall_mem_append.2 ⟨hroot, hkept⟩), fun n hn => ?_⟩
    have hrelative : isAbsolute (join folder n) = false := by
      rw [join_of_relative habsolute hn]
      exact not_isAbsolute_intercalate (isPart_concat hkept hn.toIsPart)
    rw [key, if_neg (by simp [hrelative]), join_of_relative habsolute hn, clean_of_absolute,
      parts_append_slash, parts_intercalate (isPart_concat hkept hn.toIsPart), ← List.append_assoc,
      settle_concat true _ hn]
    rw [String.append_assoc, isAbsolute_append (ne_empty_of_isAbsolute t.rooted), t.rooted]

/-! ## Folders and contents -/

/-- Everything above a content is a folder. -/
theorem isFolder_put (t : FileTree) (name content x : String) :
    (t.put name content).isFolder x = (t.isFolder x || liesBelow name x) := by
  have hfiles : (t.put name content).files.any (fun f => liesBelow f.1 x) =
      ((t.files.any fun f => liesBelow f.1 x) || liesBelow name x) := by
    rw [Bool.eq_iff_iff]
    simp only [put, List.any_cons, List.any_filter, Bool.or_eq_true, List.any_eq_true,
      Bool.and_eq_true, bne_iff_ne, ne_eq]
    constructor
    · rintro (hname | ⟨f, hf, -, hbelow⟩)
      · exact .inr hname
      · exact .inl ⟨f, hf, hbelow⟩
    · rintro (⟨f, hf, hbelow⟩ | hname)
      · by_cases hsame : f.1 = name
        · exact .inl (hsame ▸ hbelow)
        · exact .inr ⟨f, hf, hsame, hbelow⟩
      · exact .inl hname
  simp only [isFolder, Bool.or_assoc]
  rw [hfiles]
  rfl

theorem content?_put_self (h : name ≠ "/dev/null") :
    (t.put name content).content? name = some content := by
  simp [content?, put, h]

theorem lookup_filter {files : List (String × String)} (h : other ≠ name) :
    (files.filter fun f => f.1 != name).lookup other = files.lookup other := by
  induction files with
  | nil => rfl
  | cons f rest ih =>
    obtain ⟨key, text⟩ := f
    by_cases hkey : key = name
    · have hother : (other == key) = false := by simpa [hkey] using h
      rw [List.filter_cons_of_neg (by simp [hkey]), ih, List.lookup_cons, hother]
    · rw [List.filter_cons_of_pos (by simp [hkey]), List.lookup_cons, List.lookup_cons, ih]

theorem content?_put_other (h : other ≠ name) :
    (t.put name content).content? other = t.content? other := by
  have hother : (other == name) = false := by simpa using h
  rw [content?, content?, put, List.lookup_cons, hother, lookup_filter h]

/-! ## Following parts -/

/-- The ways in which a part is followed. -/
inductive Follows (t : FileTree) (here : String) (n : String) (rest : List String) :
    FileStatus → Prop
  | tooLong (h : partLimit < n.utf8ByteSize) : Follows t here n rest (.fault .nameTooLong)
  | folder (hfits : n.utf8ByteSize ≤ partLimit) (hfolder : t.isFolder (below here n) = true) :
    Follows t here n rest (t.walk (below here n) rest)
  | file (hfits : n.utf8ByteSize ≤ partLimit) (hfolder : t.isFolder (below here n) = false)
    {c : String} (hcontent : t.content? (below here n) = some c) (hlast : rest = []) :
    Follows t here n rest (.file c)
  | notFolder (hlast : rest ≠ []) : Follows t here n rest (.fault .notFolder)
  | absent (hfits : n.utf8ByteSize ≤ partLimit) (hfolder : t.isFolder (below here n) = false)
    (hcontent : t.content? (below here n) = none) : Follows t here n rest (.fault .absent)

theorem follows_walk (t : FileTree) (here n : String) (rest : List String) :
    Follows t here n rest (t.walk here (n :: rest)) := by
  rw [walk]
  by_cases hlong : n.utf8ByteSize > partLimit
  · rw [if_pos hlong]
    exact .tooLong hlong
  · rw [if_neg hlong]
    have hfits := Nat.le_of_not_lt hlong
    cases hfolder : t.isFolder (below here n) with
    | true =>
      simp only [hfolder, if_true]
      exact .folder hfits hfolder
    | false =>
      simp only [hfolder, Bool.false_eq_true, if_false]
      cases hcontent : t.content? (below here n) with
      | none => exact .absent hfits hfolder hcontent
      | some c =>
        cases rest with
        | nil => exact .file hfits hfolder hcontent rfl
        | cons p more => exact .notFolder (List.cons_ne_nil p more)

theorem walk_of_isFolder {here : String} (hfits : n.utf8ByteSize ≤ partLimit)
    (hfolder : t.isFolder (below here n) = true) (rest : List String) :
    t.walk here (n :: rest) = t.walk (below here n) rest := by
  rw [walk, if_neg (by omega), if_pos hfolder]

theorem walk_eq_folder_cons {here : String} {rest : List String}
    (h : t.walk here (n :: rest) = .folder) :
    n.utf8ByteSize ≤ partLimit ∧ t.isFolder (below here n) = true ∧
      t.walk (below here n) rest = .folder := by
  have hfollows := follows_walk t here n rest
  generalize hstatus : t.walk here (n :: rest) = status at h hfollows
  cases hfollows with
  | folder hfits hfolder => exact ⟨hfits, hfolder, h⟩
  | tooLong hlong => cases h
  | file hfits hfolder hcontent hlast => cases h
  | notFolder hlast => cases h
  | absent hfits hfolder hcontent => cases h

/-- Folders that are reached in one tree are reached in another that has all its folders. -/
theorem walk_mono {here : String} (hmono : ∀ x, t.isFolder x = true → t'.isFolder x = true)
    (h : t.walk here ps = .folder) : t'.walk here ps = .folder := by
  induction ps generalizing here with
  | nil => rfl
  | cons p rest ih =>
    obtain ⟨hfits, hfolder, hrest⟩ := walk_eq_folder_cons h
    rw [walk_of_isFolder hfits (hmono _ hfolder)]
    exact ih hrest

theorem walk_append (here : List String) (hhere : ∀ p ∈ here, IsPart p) (hps : ∀ p ∈ ps, IsPart p)
    (h : t.walk (absolute here) ps = .folder) (qs : List String) :
    t.walk (absolute here) (ps ++ qs) = t.walk (absolute (here ++ ps)) qs := by
  induction ps generalizing here with
  | nil => rw [List.nil_append, List.append_nil]
  | cons p rest ih =>
    obtain ⟨hp, hrest⟩ := List.forall_mem_cons.1 hps
    obtain ⟨hfits, hfolder, hwalk⟩ := walk_eq_folder_cons h
    rw [List.cons_append, walk_of_isFolder hfits hfolder]
    rw [below_absolute hhere] at hwalk ⊢
    rw [ih _ (isPart_concat hhere hp) hrest hwalk, List.append_assoc, List.singleton_append]

/-- On the way to a folder there are folders. -/
theorem isFolder_of_walk (here : List String) (hhere : ∀ p ∈ here, IsPart p)
    (hps : ∀ p ∈ ps, IsPart p) (h : t.walk (absolute here) ps = .folder) (hpasses : qs <+: ps)
    (hne : qs ≠ []) : t.isFolder (absolute (here ++ qs)) = true := by
  induction ps generalizing here qs with
  | nil => exact (hne (List.prefix_nil.1 hpasses)).elim
  | cons p rest ih =>
    obtain ⟨hp, hrest⟩ := List.forall_mem_cons.1 hps
    obtain ⟨-, hfolder, hwalk⟩ := walk_eq_folder_cons h
    rw [below_absolute hhere] at hfolder hwalk
    cases qs with
    | nil => exact (hne rfl).elim
    | cons q more =>
      obtain ⟨rfl, hmore⟩ := List.cons_prefix_cons.1 hpasses
      by_cases hlast : more = []
      · rwa [hlast]
      · have hnext := ih _ (isPart_concat hhere hp) hrest hwalk hmore hlast
        rwa [List.append_assoc, List.singleton_append] at hnext

/-- A file stands in a folder. -/
theorem walk_folder_of_file {here : String} (h : t.walk here (fs ++ [n]) = .file c) :
    t.walk here fs = .folder := by
  induction fs generalizing here with
  | nil => rfl
  | cons p rest ih =>
    have hfollows := follows_walk t here p (rest ++ [n])
    rw [List.cons_append] at h
    generalize hstatus : t.walk here (p :: (rest ++ [n])) = status at h hfollows
    cases hfollows with
    | folder hfits hfolder =>
      rw [walk_of_isFolder hfits hfolder]
      exact ih h
    | file hfits hfolder hcontent hlast => simp at hlast
    | tooLong hlong => cases h
    | notFolder hlast => cases h
    | absent hfits hfolder hcontent => cases h

/-- A folder is there, and a name in it is that of a file or of nothing. -/
structure Free (t : FileTree) (fs : List String) (n : String) : Prop where
  walk_eq : t.walk "/" fs = .folder
  fits : n.utf8ByteSize ≤ partLimit
  not_folder : t.isFolder (absolute (fs ++ [n])) = false

theorem walk_concat (hfs : ∀ p ∈ fs, IsPart p) (h : t.walk "/" fs = .folder) (n : String) :
    t.walk "/" (fs ++ [n]) = t.walk (absolute fs) [n] :=
  walk_append [] (by simp) hfs h [n]

theorem Free.walk_file (h : Free t fs n) (hfs : ∀ p ∈ fs, IsPart p)
    (hcontent : t.content? (absolute (fs ++ [n])) = some c) : t.walk "/" (fs ++ [n]) = .file c := by
  have hfolder := h.not_folder
  rw [← below_absolute hfs] at hfolder hcontent
  rw [walk_concat hfs h.walk_eq, walk, if_neg (Nat.not_lt.2 h.fits)]
  simp [hfolder, hcontent]

theorem free_of_file (hfs : ∀ p ∈ fs, IsPart p) (h : t.walk "/" (fs ++ [n]) = .file c) :
    Free t fs n ∧ t.content? (absolute (fs ++ [n])) = some c := by
  have hfolder := walk_folder_of_file h
  rw [walk_concat hfs hfolder] at h
  have hfollows := follows_walk t (absolute fs) n []
  generalize t.walk (absolute fs) [n] = status at h hfollows
  cases hfollows with
  | file hfits hnot hcontent hlast =>
    rw [below_absolute hfs] at hnot hcontent
    cases h
    exact ⟨⟨hfolder, hfits, hnot⟩, hcontent⟩
  | folder hfits hfolder => cases h
  | tooLong hlong => cases h
  | notFolder hlast => cases h
  | absent hfits hfolder hcontent => cases h

theorem free_of_absent (hfs : ∀ p ∈ fs, IsPart p) (hfolder : t.walk "/" fs = .folder)
    (h : t.walk "/" (fs ++ [n]) = .fault .absent) : Free t fs n := by
  rw [walk_concat hfs hfolder] at h
  have hfollows := follows_walk t (absolute fs) n []
  generalize t.walk (absolute fs) [n] = status at h hfollows
  cases hfollows with
  | absent hfits hnot hcontent =>
    rw [below_absolute hfs] at hnot
    exact ⟨hfolder, hfits, hnot⟩
  | file hfits hnot hcontent hlast => cases h
  | folder hfits hfolder => cases h
  | tooLong hlong => cases h
  | notFolder hlast => cases h

/-! ## Creating and reading -/

/-- What creating a file does to a tree. -/
structure Created (t : FileTree) (name content : String) (t' : FileTree) : Prop where
  root : t'.root = t.root
  isFolder (x : String) : t'.isFolder x = (t.isFolder x || liesBelow name x)
  content_self : t'.content? name = some content
  content_other {x : String} (h : x ≠ name) : t'.content? x = t.content? x

theorem created_put (t : FileTree) (content : String) (h : name ≠ "/dev/null") :
    Created t name content (t.put name content) :=
  ⟨rfl, isFolder_put t name content, content?_put_self h, content?_put_other⟩

theorem Created.mono (h : Created t name content t') {x : String} (hx : t.isFolder x = true) :
    t'.isFolder x = true := by
  rw [h.isFolder, hx, Bool.true_or]

theorem Created.key_eq (h : Created t name content t') (path : String) :
    t'.key path = t.key path := by
  rw [key, key, h.root]

/-- The names that are looked up at all. -/
structure Admissible (path : String) : Prop where
  valid : path.toList.contains (Char.ofNat 0) = false
  ne_empty : path ≠ ""
  fits : path.utf8ByteSize ≤ nameLimit

theorem status_of_admissible (h : Admissible path) :
    t.status path = t.walk "/" (parts (t.key path)) := by
  rw [status, if_neg (Bool.not_eq_true _ ▸ h.valid), if_neg h.ne_empty,
    if_neg (Nat.not_lt.2 h.fits)]

theorem admissible_of_file (h : t.status path = .file c) : Admissible path := by
  rw [status] at h
  split_ifs at h with hvalid hempty hlong
  exact ⟨by simpa using hvalid, hempty, Nat.le_of_not_lt hlong⟩

theorem admissible_of_absent (hne : path ≠ "") (h : t.status path = .fault .absent) :
    Admissible path := by
  rw [status, if_neg hne] at h
  split_ifs at h with hvalid hlong
  · cases h
  · cases h
  · exact ⟨by simpa using hvalid, hne, Nat.le_of_not_lt hlong⟩

theorem read_eq_ok_iff : t.read path = .ok c ↔ t.status path = .file c := by
  rw [read]
  cases t.status path with
  | file content => simp
  | folder => simp
  | fault f => simp

/-- A file is created over a file, or in a folder that is there. -/
theorem create_eq_ok (h : t.create path content = .ok t') :
    (∃ old, t.status path = .file old ∧
      t' = if t.key path = "/dev/null" then t else t.put (t.key path) content) ∨
    t.status path = .fault .absent ∧ path ≠ "" ∧
      t.walk "/" (parts (folderOf (t.key path))) = .folder ∧
      t' = { t.put (t.key path) content with created := t.created ++ [t.key path] } := by
  unfold create at h
  cases hstatus : t.status path with
  | file old =>
    rw [hstatus] at h
    cases h
    exact .inl ⟨old, rfl, rfl⟩
  | folder =>
    rw [hstatus] at h
    cases h
  | fault f =>
    rw [hstatus] at h
    cases f with
    | absent =>
      dsimp only at h
      split_ifs at h with hempty
      cases hfolder : t.walk "/" (parts (folderOf (t.key path))) with
      | folder =>
        rw [hfolder] at h
        cases h
        exact .inr ⟨rfl, hempty, rfl, rfl⟩
      | file c =>
        rw [hfolder] at h
        cases h
      | fault f =>
        rw [hfolder] at h
        cases h
    | isFolder | notFolder | invalidName | nameTooLong => cases h

variable (hfs : ∀ p ∈ fs, IsName p) (hn : IsName n) (hkey : t.key path = absolute (fs ++ [n]))
  (hnull : t.key path ≠ "/dev/null") (h : t.create path content = .ok t')
include hfs hn hkey

theorem parts_key : parts (t.key path) = fs ++ [n] := by
  rw [hkey, parts_absolute]
  exact isPart_concat (isPart_of_isName hfs) hn.toIsPart

include hnull h

theorem created_of_create : Admissible path ∧ Free t fs n ∧ Created t (t.key path) content t' := by
  have hparts := isPart_of_isName hfs
  have hwalk (hpath : Admissible path) : t.status path = t.walk "/" (fs ++ [n]) := by
    rw [status_of_admissible hpath, parts_key hfs hn hkey]
  have hcreated := created_put t content hnull
  rcases create_eq_ok h with ⟨old, hstatus, rfl⟩ | ⟨hstatus, hne, hfolder, rfl⟩
  · have hpath := admissible_of_file hstatus
    rw [hwalk hpath] at hstatus
    rw [if_neg hnull]
    exact ⟨hpath, (free_of_file hparts hstatus).1, hcreated⟩
  · have hpath := admissible_of_absent hne hstatus
    rw [hwalk hpath] at hstatus
    rw [hkey, folderOf_absolute hfs hn, parts_absolute hparts] at hfolder
    exact ⟨hpath, free_of_absent hparts hfolder hstatus, hcreated.root, hcreated.isFolder,
      hcreated.content_self, hcreated.content_other⟩

/-- A file that was created reads as it was written. -/
theorem read_create_self : t'.read path = .ok content := by
  obtain ⟨hpath, hfree, hcreated⟩ := created_of_create hfs hn hkey hnull h
  have hfree' : Free t' fs n := by
    refine ⟨walk_mono (fun _ => hcreated.mono) hfree.walk_eq, hfree.fits, ?_⟩
    rw [hcreated.isFolder, hfree.not_folder, hkey, not_liesBelow_self, Bool.or_false]
  have hcontent := hcreated.content_self
  rw [hkey] at hcontent
  rw [read_eq_ok_iff, status_of_admissible hpath, hcreated.key_eq, parts_key hfs hn hkey]
  exact hfree'.walk_file (isPart_of_isName hfs) hcontent

/-- Creating a file leaves every other file as it is. -/
theorem read_create_other (hother : t.key other ≠ t.key path) (hread : t.read other = .ok c) :
    t'.read other = .ok c := by
  obtain ⟨-, hfree, hcreated⟩ := created_of_create hfs hn hkey hnull h
  obtain ⟨ps, hps, hkey'⟩ := exists_key t other
  have hparts := isPart_of_isName hps
  have hpath := admissible_of_file (read_eq_ok_iff.1 hread)
  rw [read_eq_ok_iff, status_of_admissible hpath, hkey', parts_absolute hparts] at hread
  rw [read_eq_ok_iff, status_of_admissible hpath, hcreated.key_eq, hkey', parts_absolute hparts]
  rcases List.eq_nil_or_concat ps with rfl | ⟨gs, m, rfl⟩
  · cases hread
  rw [List.concat_eq_append] at *
  have hgs : ∀ p ∈ gs, IsPart p := (List.forall_mem_append.1 hparts).1
  obtain ⟨hfree', hcontent⟩ := free_of_file hgs hread
  -- the new file lies below this one only if this one is a folder on the way to it
  have hbelow : liesBelow (t.key path) (absolute (gs ++ [m])) = false := by
    rw [← Bool.not_eq_true]
    intro hbelow
    have hall := isPart_concat (isPart_of_isName hfs) hn.toIsPart
    rw [hkey] at hbelow
    rcases List.prefix_concat_iff.1 (prefix_of_liesBelow hparts hall hbelow) with hsame | hpasses
    · exact hother (by rw [hkey', hkey, hsame])
    · have hfolder := isFolder_of_walk [] (by simp) (isPart_of_isName hfs) hfree.walk_eq
        hpasses (by simp)
      exact Bool.false_ne_true (hfree'.not_folder.symm.trans hfolder)
  refine Free.walk_file ⟨walk_mono (fun _ => hcreated.mono) hfree'.walk_eq, hfree'.fits, ?_⟩ hgs ?_
  · rw [hcreated.isFolder, hfree'.not_folder, hbelow, Bool.or_false]
  · rw [hcreated.content_other (hkey' ▸ hother), hcontent]

end Reckoner.FileTree
