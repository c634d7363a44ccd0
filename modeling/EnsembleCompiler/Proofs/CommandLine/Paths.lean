import EnsembleCompiler.CommandLine.FileSystem
import Mathlib.Data.List.DropRight
import Mathlib.Tactic.Common

/-!
# Paths

A path is a directory, with the slash at its end, and a name behind it. Two paths in one directory
lead through the same locations up to their names, and the extension of a path is a matter of its
name only.
-/

namespace EnsembleCompiler.CommandLine

/-- A directory as it stands in front of a name: empty, or with a slash at its end. -/
def IsDirectoryPart (directory : List Char) : Prop :=
  directory = [] ∨ ∃ front, directory = front ++ ['/']

/-- Every path is a directory and a name. -/
theorem exists_parts (path : List Char) :
    ∃ directory name, path = directory ++ name ∧ IsDirectoryPart directory ∧ '/' ∉ name := by
  refine ⟨path.rdropWhile (· ≠ '/'), path.rtakeWhile (· ≠ '/'),
    List.rdropWhile_append_rtakeWhile.symm, ?_, fun h => ?_⟩
  · rcases List.eq_nil_or_concat' (path.rdropWhile (· ≠ '/')) with hnil | ⟨front, c, hfront⟩
    · exact .inl hnil
    · have hlast := List.rdropWhile_last_not (· ≠ '/') path
      rw [hfront] at hlast
      have hc : c = '/' := by simpa using hlast (by simp)
      exact .inr ⟨front, by rw [hfront, hc]⟩
  · simpa using List.mem_rtakeWhile_imp h

/-! ### The way to a name -/

theorem splitSlashes_slash (current front rest : List Char) :
    splitSlashes current (front ++ '/' :: rest) =
      splitSlashes current front ++ splitSlashes [] rest := by
  induction front generalizing current with
  | nil => simp [splitSlashes]
  | cons c front ih =>
    by_cases hc : c = '/'
    · subst hc
      simp [splitSlashes, ih]
    · simp [splitSlashes, ih]

theorem splitSlashes_name {name : List Char} (h : '/' ∉ name) (current : List Char) :
    splitSlashes current name = [String.ofList (current.reverse ++ name)] := by
  induction name generalizing current with
  | nil => simp [splitSlashes]
  | cons c name ih =>
    rw [List.mem_cons, not_or] at h
    have hc : c ≠ '/' := fun hc => h.1 hc.symm
    simp [splitSlashes, ih h.2]

/-- All paths into a directory begin at one location, and go one way up to their names. -/
theorem exists_route {directory : List Char} (h : IsDirectoryPart directory) :
    ∃ start route, ∀ name, '/' ∉ name →
      startOf (String.ofList (directory ++ name)) = start ∧
      splitSlashes [] (directory ++ name) = route ++ [String.ofList name] := by
  rcases h with rfl | ⟨front, rfl⟩
  · refine ⟨[], [], fun name hname => ⟨?_, splitSlashes_name hname []⟩⟩
    have hhead : name.head? ≠ some '/' := fun h => hname (List.mem_of_mem_head? h)
    simp [startOf, hhead]
  · refine ⟨startOf (String.ofList (front ++ ['/'])), splitSlashes [] front, fun name hname => ?_⟩
    constructor
    · cases front <;> simp [startOf]
    · simpa [splitSlashes_name hname] using splitSlashes_slash [] front name

/-! ### The extension -/

/-- A name by which a path can lead on from a directory. -/
structure IsName (name : List Char) : Prop where
  ne_nil : name ≠ []
  ne_dot : name ≠ ['.']
  noSlash : '/' ∉ name

/-- A name up to its last dot: all of it if that is its first character, or if it has none. -/
def stemOf (name : List Char) : List Char :=
  let beforeDot := ((name.reverse.dropWhile (· ≠ '.')).drop 1).reverse
  if beforeDot.isEmpty then name else beforeDot

/-- A name with its extension replaced. Two dots have none, and they are what becomes of a name
whose stem is a dot. -/
def renamed (name : List Char) : List Char :=
  if name = ['.', '.'] || stemOf name = ['.'] then ['.', '.'] else stemOf name ++ ['.', 'r', 's']

/-- A file name with at least one character in front of `.rs`. -/
def HasTargetExtension (path : String) : Prop :=
  ∃ front c, path.toList = front ++ [c, '.', 'r', 's'] ∧ c ≠ '/'

section

variable {directory name : List Char}

theorem stemOf_ne_nil (h : name ≠ []) : stemOf name ≠ [] := by
  simp only [stemOf]
  split <;> simp_all

theorem stemOf_subset (name : List Char) : stemOf name ⊆ name := by
  intro c hc
  simp only [stemOf] at hc
  split at hc
  · exact hc
  · have hdropped := (List.drop_sublist ..).subset (List.mem_reverse.1 hc)
    exact List.mem_reverse.1 ((List.dropWhile_sublist _).subset hdropped)

theorem stemOf_append {stem : List Char} (h : stem ≠ []) {extension : List Char}
    (hdot : '.' ∉ extension) : stemOf (stem ++ '.' :: extension) = stem := by
  have hdrop : (stem ++ '.' :: extension).reverse.dropWhile (· ≠ '.') = '.' :: stem.reverse := by
    rw [List.reverse_append, List.reverse_cons, List.append_assoc,
      List.dropWhile_append_of_pos (by grind)]
    simp
  simp only [stemOf, hdrop]
  simp [h]

theorem renamed_ne_nil (name : List Char) : renamed name ≠ [] := by
  unfold renamed
  split <;> simp

theorem slash_notMem_renamed (h : '/' ∉ name) : '/' ∉ renamed name := by
  have hstem := fun hc => h (stemOf_subset name hc)
  unfold renamed
  split
  · simp
  · simpa using hstem

/-- Only a name that has the extension is renamed to itself, but for two dots. -/
theorem exists_of_renamed_eq (h : IsName name) (heq : renamed name = name) :
    name = ['.', '.'] ∨ ∃ front c, name = front ++ [c, '.', 'r', 's'] := by
  unfold renamed at heq
  split at heq
  · exact .inl heq.symm
  · obtain ⟨front, c, hstem⟩ := (List.eq_nil_or_concat' _).resolve_left (stemOf_ne_nil h.ne_nil)
    exact .inr ⟨front, c, by simpa [hstem] using heq.symm⟩

/-- A name that has the extension is renamed to itself, unless a dot is all that is in front. -/
theorem renamed_of_extension (front : List Char) (c : Char) :
    renamed (front ++ [c, '.', 'r', 's']) = front ++ [c, '.', 'r', 's'] ∨
      renamed (front ++ [c, '.', 'r', 's']) = ['.', '.'] := by
  have hstem : stemOf (front ++ [c, '.', 'r', 's']) = front ++ [c] := by
    have hend : '.' ∉ ['r', 's'] := by decide
    simpa using stemOf_append (List.append_ne_nil_of_right_ne_nil front (List.cons_ne_nil c [])) hend
  unfold renamed
  split
  · exact .inr rfl
  · exact .inl (by simp [hstem])

/-- The extension of a path is that of its name. -/
theorem hasTargetExtension_parts (hdirectory : IsDirectoryPart directory) (hname : '/' ∉ name) :
    HasTargetExtension (String.ofList (directory ++ name)) ↔
      ∃ front c, name = front ++ [c, '.', 'r', 's'] := by
  constructor
  · rintro ⟨front, c, heq, hc⟩
    rw [String.toList_ofList] at heq
    obtain ⟨more, -, rfl⟩ | ⟨more, rfl, hmore⟩ := List.append_eq_append_iff.1 heq
    · exact ⟨more, c, rfl⟩
    · -- a directory that reaches into the last four characters would end in a slash there
      rcases List.eq_nil_or_concat' more with rfl | ⟨before, d, rfl⟩
      · exact ⟨[], c, hmore.symm⟩
      · obtain ⟨front', hslash⟩ := hdirectory.resolve_left (by simp)
        rw [← List.append_assoc] at hslash
        have hd : d = '/' := List.singleton_inj.1 (List.append_inj' hslash rfl).2
        have hmem : '/' ∈ [c, '.', 'r', 's'] := by rw [hmore, hd]; simp
        simp [hc.symm] at hmem
  · rintro ⟨front, c, rfl⟩
    exact ⟨directory ++ front, c, by simp, by rintro rfl; simp at hname⟩

theorem stripEnd_of_isName (h : IsName name) :
    stripEnd (name.reverse ++ directory.reverse) = name.reverse ++ directory.reverse := by
  have hslash : '/' ∉ name.reverse := by simpa using h.noSlash
  have hdot : name.reverse ≠ ['.'] := fun hd => h.ne_dot (by simpa using congrArg List.reverse hd)
  have hnil : name.reverse ≠ [] := by simpa using h.ne_nil
  generalize name.reverse = reversed at hslash hdot hnil
  cases reversed with
  | nil => exact absurd rfl hnil
  | cons c rest =>
    have hc : c ≠ '/' := by grind
    have hrest : c = '.' → ∀ more, rest ++ directory.reverse ≠ '/' :: more := by
      cases rest <;> grind
    rw [List.cons_append, stripEnd]
    · exact fun _ h => hc (List.cons.inj h).1
    · rintro more h
      obtain ⟨hdot, hmore⟩ := List.cons.inj h
      exact hrest hdot more hmore

/-- The extension of a path is replaced in its name. -/
theorem withExtension_parts (hdirectory : IsDirectoryPart directory) (hname : IsName name) :
    withExtension (String.ofList (directory ++ name)) "rs" =
      String.ofList (directory ++ renamed name) := by
  -- the path is taken apart from its end, so everything is said of the reversed characters
  have hpass : ∀ c ∈ name.reverse, decide (c ≠ '/') = true := by
    intro c hc
    have := hname.noSlash
    grind
  have htake : (name.reverse ++ directory.reverse).takeWhile (· ≠ '/') = name.reverse := by
    rw [List.takeWhile_append_of_pos hpass]
    obtain rfl | ⟨front, rfl⟩ := hdirectory <;> simp
  have hdrop : (name.reverse ++ directory.reverse).dropWhile (· ≠ '/') = directory.reverse := by
    rw [List.dropWhile_append_of_pos hpass]
    obtain rfl | ⟨front, rfl⟩ := hdirectory <;> simp
  have hstrip : stripEnd (name.reverse ++ directory.reverse) = name.reverse ++ directory.reverse :=
    stripEnd_of_isName hname
  have hend : (name.reverse ++ directory.reverse).length =
      (String.ofList (directory ++ name)).length := by
    simp [Nat.add_comm]
  simp only [withExtension, String.toList_ofList, List.reverse_append, hstrip, htake, hdrop,
    List.reverse_reverse, hend, decide_true, Bool.and_true, hname.ne_nil, hname.ne_dot, decide_false,
    Bool.false_or]
  change (if _ then _ else if decide (stemOf name = ['.']) = true then _ else
    String.ofList (directory ++ stemOf name ++ ['.']) ++ "rs") = _
  by_cases hdots : name = ['.', '.']
  · simp [renamed, hdots]
  · by_cases hstem : stemOf name = ['.']
    · simp [renamed, hdots, hstem]
    · rw [show "rs" = String.ofList ['r', 's'] from rfl, ← String.ofList_append]
      simp [renamed, hdots, hstem]

end

end EnsembleCompiler.CommandLine
