import Mathlib.Data.List.Induction
import Reckoner.Text.Path

/-!
# Names and their parts

A clean absolute name is a slash and its parts with slashes between them.  `absolute` writes it and
`parts` reads it back.  Cleaning works on parts alone: `settle` is what it keeps of them, and a part
that is no dot or double dot stays at the end.  So joining a folder and such a part puts the part
after what cleaning keeps of the folder.
-/

namespace Reckoner.Path

/-- A part of a name: not empty, and without a slash. -/
structure IsPart (part : String) : Prop where
  ne_empty : part ≠ ""
  no_slash : '/' ∉ part.toList

/-- A part that leads to something below its folder. -/
structure IsName (part : String) : Prop extends IsPart part where
  ne_dot : part ≠ "."
  ne_dots : part ≠ ".."

/-- The absolute name with given parts. -/
def absolute (ps : List String) : String := "/" ++ String.intercalate "/" ps

variable {ps qs : List String} {n : String}

theorem isPart_of_isName (h : ∀ p ∈ ps, IsName p) : ∀ p ∈ ps, IsPart p :=
  fun p hp => (h p hp).toIsPart

theorem isPart_concat (hps : ∀ p ∈ ps, IsPart p) (hn : IsPart n) : ∀ p ∈ ps ++ [n], IsPart p :=
  List.forall_mem_append.2 ⟨hps, List.forall_mem_singleton.2 hn⟩

/-! ## Parts -/

theorem no_slash_of_mem_splitOn (text : List Char) : ∀ part ∈ text.splitOn '/', '/' ∉ part := by
  induction text with
  | nil => simp
  | cons c rest ih =>
    rw [List.splitOn_cons_eq_if_modifyHead]
    split_ifs with hc
    · simpa using ih
    · cases hrest : rest.splitOn '/' with
      | nil => simp
      | cons first more =>
        rw [hrest] at ih
        have hfirst := ih first List.mem_cons_self
        intro part hpart
        rcases List.mem_cons.1 hpart with rfl | hmore
        · simp only [List.mem_cons, not_or]
          exact ⟨fun h => hc (by simp [← h]), hfirst⟩
        · exact ih part (List.mem_cons_of_mem _ hmore)

theorem isPart_of_mem_parts {path : String} (h : n ∈ parts path) : IsPart n := by
  obtain ⟨hmem, hne⟩ := List.mem_filter.1 h
  obtain ⟨part, hpart, rfl⟩ := List.mem_map.1 hmem
  refine ⟨by simpa using hne, ?_⟩
  rw [String.toList_ofList]
  exact no_slash_of_mem_splitOn _ part hpart

/-- A slash divides the parts before it from the parts after it. -/
theorem parts_append_slash (a b : String) : parts (a ++ "/" ++ b) = parts a ++ parts b := by
  have htext : (a ++ "/" ++ b).toList = a.toList ++ '/' :: b.toList := by simp
  rw [parts, htext, List.splitOn_append_cons_self, List.map_append, List.filter_append]
  rfl

theorem parts_slash_append (b : String) : parts ("/" ++ b) = parts b := by
  have hempty : parts "" = [] := by decide
  simpa [hempty] using parts_append_slash "" b

theorem parts_intercalate (h : ∀ p ∈ ps, IsPart p) : parts (String.intercalate "/" ps) = ps := by
  cases ps with
  | nil => decide
  | cons p rest =>
    have hsplit : (String.intercalate "/" (p :: rest)).toList.splitOn '/' =
        (p :: rest).map String.toList := by
      rw [String.toList_intercalate]
      refine List.splitOn_intercalate '/' (fun part hpart => ?_) (by simp)
      obtain ⟨q, hq, rfl⟩ := List.mem_map.1 hpart
      exact (h q hq).no_slash
    rw [parts, hsplit, List.map_map, List.filter_eq_self.2]
    · simp [Function.comp_def]
    · simpa using fun q hq => (h q hq).ne_empty

/-! ## Absolute names -/

@[simp] theorem parts_absolute (h : ∀ p ∈ ps, IsPart p) : parts (absolute ps) = ps := by
  rw [absolute, parts_slash_append, parts_intercalate h]

theorem absolute_inj (hps : ∀ p ∈ ps, IsPart p) (hqs : ∀ q ∈ qs, IsPart q) :
    absolute ps = absolute qs ↔ ps = qs := by
  refine ⟨fun h => ?_, fun h => h ▸ rfl⟩
  rw [← parts_absolute hps, h, parts_absolute hqs]

theorem isAbsolute_append {a : String} (h : a ≠ "") (b : String) :
    isAbsolute (a ++ b) = isAbsolute a := by
  rw [isAbsolute, isAbsolute, String.toList_append]
  cases htext : a.toList with
  | nil => exact (h (by simpa using htext)).elim
  | cons c rest => rfl

theorem ne_empty_of_isAbsolute {a : String} (h : isAbsolute a = true) : a ≠ "" := by
  rintro rfl
  cases h

@[simp] theorem isAbsolute_absolute (ps : List String) : isAbsolute (absolute ps) = true := by
  rw [absolute, isAbsolute_append (by decide)]
  rfl

/-- What stands before the last slash of an absolute name with one more part. -/
def stem (ps : List String) : String := if ps = [] then "" else absolute ps

theorem absolute_concat (ps : List String) (n : String) :
    absolute (ps ++ [n]) = stem ps ++ "/" ++ n := by
  unfold stem absolute
  split_ifs with hps
  · rw [hps]
    rfl
  · rw [String.intercalate_append_of_ne_nil hps (by simp)]
    simp [String.append_assoc]

theorem parts_stem (h : ∀ p ∈ ps, IsPart p) : parts (stem ps) = ps := by
  unfold stem
  split_ifs with hps
  · rw [hps]
    decide
  · exact parts_absolute h

/-! ## Cleaning -/

/-- The parts that cleaning keeps. -/
def settle (rooted : Bool) (ps : List String) : List String :=
  (ps.foldl (addPart rooted) []).reverse

theorem settle_concat (rooted : Bool) (ps : List String) (h : IsName n) :
    settle rooted (ps ++ [n]) = settle rooted ps ++ [n] := by
  simp [settle, addPart, h.ne_dot, h.ne_dots]

/-- Names are kept. -/
theorem settle_eq_self (rooted : Bool) (h : ∀ p ∈ ps, IsName p) : settle rooted ps = ps := by
  induction ps using List.reverseRecOn with
  | nil => rfl
  | append_singleton ps n ih =>
    rw [settle_concat rooted ps (h n (by simp)), ih fun p hp => h p (by simp [hp])]

/-- What is kept was there before or is the part added; double dots gather in relative names. -/
theorem mem_addPart {rooted : Bool} {before : List String} {part p : String}
    (h : p ∈ addPart rooted before part) :
    p ∈ before ∨ (p = part ∧ part ≠ "." ∧ part ≠ "..") ∨ p = ".." ∧ rooted = false := by
  unfold addPart at h
  by_cases hdot : part = "."
  · rw [if_pos hdot] at h
    exact .inl h
  rw [if_neg hdot] at h
  by_cases hdots : part = ".."
  · rw [if_pos hdots] at h
    cases before with
    | nil =>
      cases rooted with
      | true => cases h
      | false => exact .inr (.inr ⟨List.mem_singleton.1 h, rfl⟩)
    | cons last earlier =>
      dsimp only at h
      split_ifs at h with hlast
      · rcases List.mem_cons.1 h with rfl | hmem
        · exact .inl (hlast ▸ List.mem_cons_self)
        · exact .inl hmem
      · exact .inl (List.mem_cons_of_mem _ h)
  · rw [if_neg hdots] at h
    rcases List.mem_cons.1 h with rfl | hmem
    · exact .inr (.inl ⟨rfl, hdot, hdots⟩)
    · exact .inl hmem

theorem mem_foldl_addPart {rooted : Bool} {before : List String} {p : String}
    (h : p ∈ ps.foldl (addPart rooted) before) :
    p ∈ before ∨ (p ∈ ps ∧ p ≠ "." ∧ p ≠ "..") ∨ p = ".." ∧ rooted = false := by
  induction ps generalizing before with
  | nil => exact .inl h
  | cons part rest ih =>
    rcases ih h with hmem | ⟨hmem, hname⟩ | hdots
    · rcases mem_addPart hmem with hbefore | ⟨rfl, hname⟩ | hdots
      · exact .inl hbefore
      · exact .inr (.inl ⟨List.mem_cons_self, hname⟩)
      · exact .inr (.inr hdots)
    · exact .inr (.inl ⟨List.mem_cons_of_mem _ hmem, hname⟩)
    · exact .inr (.inr hdots)

theorem mem_settle {rooted : Bool} {p : String} (h : p ∈ settle rooted ps) :
    (p ∈ ps ∧ p ≠ "." ∧ p ≠ "..") ∨ p = ".." ∧ rooted = false :=
  (mem_foldl_addPart (List.mem_reverse.1 h)).resolve_left List.not_mem_nil

theorem isPart_settle (rooted : Bool) (h : ∀ p ∈ ps, IsPart p) :
    ∀ p ∈ settle rooted ps, IsPart p := by
  intro p hp
  rcases mem_settle hp with ⟨hmem, -⟩ | ⟨rfl, -⟩
  · exact h p hmem
  · exact ⟨by decide, by decide⟩

/-- An absolute name keeps nothing but names. -/
theorem isName_settle (h : ∀ p ∈ ps, IsPart p) : ∀ p ∈ settle true ps, IsName p := by
  intro p hp
  rcases mem_settle hp with ⟨hmem, hdot, hdots⟩ | ⟨-, hrooted⟩
  · exact ⟨h p hmem, hdot, hdots⟩
  · cases hrooted

theorem clean_of_absolute {path : String} (h : isAbsolute path = true) :
    clean path = absolute (settle true (parts path)) := by
  simp only [clean, h, if_true]
  rfl

theorem clean_of_relative {path : String} (h : isAbsolute path = false)
    (hkept : settle false (parts path) ≠ []) :
    clean path = String.intercalate "/" (settle false (parts path)) := by
  have hbody : String.intercalate "/" (settle false (parts path)) ≠ "" := by
    intro hempty
    have hsettled := isPart_settle false fun p (hp : p ∈ parts path) => isPart_of_mem_parts hp
    have hparts := parts_intercalate hsettled
    rw [hempty] at hparts
    exact hkept hparts.symm
  simp only [clean, h, Bool.false_eq_true, if_false]
  exact if_neg hbody

/-! ## Files in folders -/

theorem IsName.parts_eq (h : IsName n) : parts n = [n] := by
  have hparts : ∀ p ∈ [n], IsPart p := by simpa using h.toIsPart
  exact parts_intercalate hparts

theorem IsPart.not_isAbsolute (h : IsPart n) : isAbsolute n = false := by
  rw [isAbsolute]
  cases htext : n.toList with
  | nil => rfl
  | cons c rest =>
    have hc : c ≠ '/' := by
      rintro rfl
      exact h.no_slash (by simp [htext])
    simpa using hc

theorem not_isAbsolute_intercalate (h : ∀ p ∈ ps, IsPart p) :
    isAbsolute (String.intercalate "/" ps) = false := by
  match ps with
  | [] => decide
  | [p] => exact (h p List.mem_cons_self).not_isAbsolute
  | p :: q :: rest =>
    have hp := h p List.mem_cons_self
    rw [String.intercalate_cons_cons, String.append_assoc, isAbsolute_append hp.ne_empty,
      hp.not_isAbsolute]

theorem join_of_absolute {folder : String} (hfolder : isAbsolute folder = true) (hn : IsName n) :
    join folder n = absolute (settle true (parts folder) ++ [n]) := by
  have hne := ne_empty_of_isAbsolute hfolder
  have habsolute : isAbsolute (folder ++ "/" ++ n) = true := by
    rwa [String.append_assoc, isAbsolute_append hne]
  rw [join, if_neg hne, clean_of_absolute habsolute, parts_append_slash, hn.parts_eq,
    settle_concat true _ hn]

theorem join_of_relative {folder : String} (hfolder : isAbsolute folder = false) (hn : IsName n) :
    join folder n = String.intercalate "/" (settle false (parts folder) ++ [n]) := by
  rw [join]
  split_ifs with hempty hname
  · exact (hn.ne_empty hname).elim
  · have hkept : settle false (parts n) = [n] := by
      rw [hn.parts_eq, settle_eq_self false (by simpa using hn)]
    rw [clean_of_relative hn.not_isAbsolute (by simp [hkept]), hkept, hempty]
    rfl
  · have hrelative : isAbsolute (folder ++ "/" ++ n) = false := by
      rwa [String.append_assoc, isAbsolute_append hempty]
    have hkept :
        settle false (parts (folder ++ "/" ++ n)) = settle false (parts folder) ++ [n] := by
      rw [parts_append_slash, hn.parts_eq, settle_concat false _ hn]
    rw [clean_of_relative hrelative (by simp [hkept]), hkept]

/-- The folder of an absolute name. -/
theorem folderOf_absolute (hps : ∀ p ∈ ps, IsName p) (hn : IsName n) :
    folderOf (absolute (ps ++ [n])) = absolute ps := by
  have hchars : (absolute (ps ++ [n])).toList.reverse.dropWhile (· != '/') =
      (stem ps ++ "/").toList.reverse := by
    rw [absolute_concat, String.toList_append, List.reverse_append, List.dropWhile_append_of_pos]
    · simp
    · intro c hc
      have hne : c ≠ '/' := fun h => hn.no_slash (by simpa [h] using hc)
      simpa using hne
  have hparts : parts (stem ps ++ "/") = ps := by
    have hempty : parts "" = [] := by decide
    have hslash := parts_append_slash (stem ps) ""
    rw [parts_stem (isPart_of_isName hps), hempty] at hslash
    simpa using hslash
  have habsolute : isAbsolute (stem ps ++ "/") = true := by
    unfold stem
    split_ifs with h
    · decide
    · rw [isAbsolute_append (ne_empty_of_isAbsolute (isAbsolute_absolute ps)), isAbsolute_absolute]
  simp only [folderOf, hchars, List.reverse_reverse, String.ofList_toList]
  rw [clean_of_absolute habsolute, hparts, settle_eq_self true hps]

end Reckoner.Path
