import EnsembleCompiler.Proofs.CommandLine.Paths

/-!
# Effects on the file system

A write that succeeds puts its bytes at one location, which is no directory, and leaves every other
entry; so every path that led somewhere still leads there. Beside a file that can be read, the path
with the extension of target texts leads to another location of the same directory, unless it is
the same path.
-/

namespace EnsembleCompiler.CommandLine.FileSystem

variable {fs before after : FileSystem} {location : Location} {bytes : List UInt8}

/-- A file at a location has the bytes. -/
def Holds (fs : FileSystem) (location : Location) (bytes : List UInt8) : Prop :=
  fs.find? location = some (.file bytes) ∨ fs.find? location = some .sink ∧ bytes = []

theorem Holds.not_directory (h : fs.Holds location bytes) :
    fs.find? location ≠ some .directory := by
  rcases h with h | ⟨h, -⟩ <;> simp [h]

/-- The second file system is the first with the bytes at a location. A sink swallows them. -/
structure Writes (before : FileSystem) (location : Location) (bytes : List UInt8)
    (after : FileSystem) : Prop where
  not_directory : before.find? location ≠ some .directory
  written : after.find? location = some (.file bytes) ∨
    before.find? location = some .sink ∧ after.find? location = some .sink
  other : ∀ other, other ≠ location → after.find? other = before.find? other

theorem writes_set (h : fs.find? location ≠ some .directory) :
    fs.Writes location bytes (fs.set location bytes) where
  not_directory := h
  written := by
    have hplain : (location = ["/"] || location.all (· = "..")) ≠ true := by
      intro hspecial
      exact h (by rw [find?, if_pos hspecial])
    exact .inl (by rw [find?, if_neg hplain]; simp [set])
  other := by
    intro other hother
    have hentries : (fs.entries.filter (·.1 ≠ location)).find? (·.1 = other) =
        fs.entries.find? (·.1 = other) := by
      rw [List.find?_filter]
      congr 1
      funext entry
      by_cases hentry : entry.1 = other <;> simp [hentry, hother]
    rw [find?, find?, set, List.find?_cons_of_neg (by simpa using hother.symm), hentries]

/-- A write that succeeds changes nothing but its target. -/
theorem writes_of_write {path : String} (h : fs.write path bytes = .ok after) :
    ∃ location, fs.target path = .ok location ∧ fs.Writes location bytes after := by
  rw [write] at h
  cases htarget : fs.target path with
  | error e => simp [htarget, bind, Except.bind] at h
  | ok location =>
    refine ⟨location, rfl, ?_⟩
    simp only [htarget, bind, Except.bind] at h
    split at h
    · cases h
    · rename_i hsink
      cases h
      exact ⟨by simp [hsink], .inr ⟨hsink, hsink⟩, fun _ _ => rfl⟩
    · rename_i hfile
      cases h
      exact writes_set (by simp [hfile])
    · rename_i hnone
      cases h
      exact writes_set (by simp [hnone])

/-! ### Ways -/

theorem walk_concat (fs : FileSystem) (start : Location) (route : List String) (name : String) :
    fs.walk start (route ++ [name]) = fs.walk start route >>= fun l => fs.step l name := by
  simp [walk, List.foldlM_append]

/-- A step leads on from a directory only: to itself, one step up, or to an entry of it. -/
theorem step_eq_ok {l l' : Location} {name : String} :
    fs.step l name = .ok l' ↔
      fs.find? l = some .directory ∧
      ((name = "" ∨ name = ".") ∧ l' = l ∨ name = ".." ∧ l' = parentOf l ∨
        (name ≠ "" ∧ name ≠ "." ∧ name ≠ "..") ∧ name.utf8ByteSize ≤ nameLimit ∧
          (fs.find? (l ++ [name])).isNone = false ∧ l' = l ++ [name]) := by
  rw [step]
  by_cases hdirectory : fs.find? l = some .directory
  · rw [if_neg (not_not.2 hdirectory)]
    grind
  · rw [if_pos hdirectory]
    grind

theorem Writes.step (h : before.Writes location bytes after) {l l' : Location} {name : String}
    (hstep : before.step l name = .ok l') : after.step l name = .ok l' := by
  obtain ⟨hdirectory, hcases⟩ := step_eq_ok.1 hstep
  have hl : after.find? l = before.find? l :=
    h.other l (fun heq => h.not_directory (heq ▸ hdirectory))
  have hentry : (before.find? (l ++ [name])).isNone = false →
      (after.find? (l ++ [name])).isNone = false := by
    intro hsome
    by_cases heq : l ++ [name] = location
    · rcases h.written with hfile | ⟨-, hsink⟩
      · simp [heq, hfile]
      · simp [heq, hsink]
    · rwa [h.other _ heq]
  refine step_eq_ok.2 ⟨hl ▸ hdirectory, hcases.imp_right (Or.imp_right ?_)⟩
  exact fun ⟨hname, hsize, hsome, heq⟩ => ⟨hname, hsize, hentry hsome, heq⟩

/-- What a path led to, it leads to after a write. -/
theorem Writes.walk (h : before.Writes location bytes after) {start l : Location}
    {names : List String} (hwalk : before.walk start names = .ok l) :
    after.walk start names = .ok l := by
  induction names generalizing start with
  | nil => exact hwalk
  | cons name names ih =>
    simp only [FileSystem.walk, List.foldlM_cons] at hwalk ⊢
    cases hstep : before.step start name with
    | error e => simp [hstep, bind, Except.bind] at hwalk
    | ok next =>
      rw [hstep] at hwalk
      rw [h.step hstep]
      exact ih hwalk

/-- A path leads to a location. -/
def LeadsTo (fs : FileSystem) (path : String) (location : Location) : Prop :=
  checkPath path = .ok () ∧ fs.walk (startOf path) (splitSlashes [] path.toList) = .ok location

/-- Reading finds a file where the path leads. -/
theorem read_eq_ok {path : String} :
    fs.read path = .ok bytes ↔ ∃ l, fs.LeadsTo path l ∧ fs.Holds l bytes := by
  simp only [read, LeadsTo, Holds]
  cases hcheck : checkPath path with
  | error e => simp [bind, Except.bind]
  | ok u =>
    cases hwalk : fs.walk (startOf path) (splitSlashes [] path.toList) with
    | error e => simp [bind, Except.bind]
    | ok l =>
      simp only [bind, Except.bind, Except.ok.injEq, true_and, exists_eq_left']
      match fs.find? l with
      | none => simp
      | some (.file content) => simp
      | some .directory => simp
      | some .sink => simp [eq_comm]

theorem Writes.leadsTo (h : before.Writes location bytes after) {path : String} {l : Location}
    (hpath : before.LeadsTo path l) : after.LeadsTo path l :=
  ⟨hpath.1, h.walk hpath.2⟩

/-- A file at another location is read as before. -/
theorem Writes.read_other (h : before.Writes location bytes after) {path : String} {l : Location}
    (hpath : before.LeadsTo path l) (hne : l ≠ location) {content : List UInt8}
    (hcontent : before.Holds l content) : after.read path = .ok content :=
  read_eq_ok.2 ⟨l, h.leadsTo hpath, by rwa [Holds, h.other l hne]⟩

/-- The file at the location of a write that had bytes before has the new ones. -/
theorem Writes.read_written (h : before.Writes location bytes after) {path : String}
    (hpath : before.LeadsTo path location) {content : List UInt8}
    (hcontent : before.Holds location content) (hne : content ≠ []) :
    after.read path = .ok bytes := by
  refine read_eq_ok.2 ⟨location, h.leadsTo hpath, .inl (h.written.resolve_right ?_)⟩
  rintro ⟨hsink, -⟩
  rcases hcontent with hfile | ⟨-, hempty⟩
  · simp [hsink] at hfile
  · exact hne hempty

section

variable {path name : String} {route : List String}

/-- A path leads through its directory to its last step. -/
theorem LeadsTo.step {l : Location} (h : fs.LeadsTo path l)
    (hsplit : splitSlashes [] path.toList = route ++ [name]) :
    ∃ d, fs.walk (startOf path) route = .ok d ∧ fs.step d name = .ok l := by
  have hwalk := h.2
  rw [hsplit, walk_concat] at hwalk
  cases hroute : fs.walk (startOf path) route with
  | error e => simp [hroute, bind, Except.bind] at hwalk
  | ok d => exact ⟨d, rfl, by simpa [hroute, bind, Except.bind] using hwalk⟩

/-- The location to write is the entry of the directory with the name of the path. -/
theorem target_route (h : fs.target path = .ok location)
    (hsplit : splitSlashes [] path.toList = route ++ [name]) (hname : name ≠ "") :
    name ≠ ".." ∧ ∃ d, fs.walk (startOf path) route = .ok d ∧ location = d ++ [name] := by
  have hdrop : (route ++ [name]).reverse.dropWhile (· = "") = name :: route.reverse := by
    simp [hname]
  cases hcheck : checkPath path with
  | error e => simp [target, hcheck, bind, Except.bind] at h
  | ok u =>
    cases hroute : fs.walk (startOf path) route with
    | error e => simp [target, hcheck, hsplit, hname, hroute, bind, Except.bind] at h
    | ok d =>
      simp only [target, hcheck, hsplit, hdrop, List.reverse_reverse, hroute, bind,
        Except.bind] at h
      split_ifs at h with hdirectory hend hsize
      cases h
      exact ⟨fun hdots => hend (by simp [hdots]), d, rfl, rfl⟩

end

end EnsembleCompiler.CommandLine.FileSystem
