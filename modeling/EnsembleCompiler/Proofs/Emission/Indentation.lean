import EnsembleCompiler.Proofs.Assembly.Measures
import EnsembleCompiler.Proofs.Emission.Characters

/-!
# The layout of a tree

The lines of a tree are written from a list of pending steps. They are those of the recursion on the
tree: a leaf has one line, and a split stands around the lines of its two subtrees, which are one
level deeper. The text shows them apart, and the indentation of each line is that of its level.
-/

namespace EnsembleCompiler

/-- The number of blanks in front of a line. -/
def indentation (line : String) : Nat := (line.toList.takeWhile (· = ' ')).length

/-- A text that can stand behind the indentation of a line. -/
structure StandsInLine (text : String) : Prop where
  unindented : NextChar (· ≠ ' ') text.toList
  inLine : '\n' ∉ text.toList

theorem indentation_indent {text : String} (h : StandsInLine text) (level : Nat) :
    indentation (indent level ++ text) = 4 * min level maxIndentLevel := by
  have hblanks : ∀ c ∈ (indent level).toList, decide (c = ' ') = true := by
    intro c hc
    rw [indent, String.toList_ofList] at hc
    simp [(List.mem_replicate.1 hc).2]
  have hnext : NextChar (fun c => decide (c = ' ') = false) text.toList :=
    h.unindented.mono fun c hc => decide_eq_false hc
  rw [indentation, String.toList_append, takeWhile_append_of_next hblanks hnext, indent,
    String.toList_ofList, List.length_replicate]

theorem StandsInLine.not_mem_indent {text : String} (h : StandsInLine text) (level : Nat) :
    '\n' ∉ (indent level ++ text).toList := by
  rw [String.toList_append, List.mem_append, not_or]
  refine ⟨fun hfeed => ?_, h.inLine⟩
  rw [indent, String.toList_ofList] at hfeed
  exact absurd (List.mem_replicate.1 hfeed).2 (by decide)

/-- Lines that are joined are those between the line feeds of the text. -/
theorem splitOn_joinLines {lines : List String} (hne : lines ≠ [])
    (h : ∀ line ∈ lines, '\n' ∉ line.toList) :
    (joinLines lines).toList.splitOn '\n' = lines.map String.toList := by
  have hparts : ∀ part ∈ lines.map String.toList, '\n' ∉ part := by
    intro part hpart
    obtain ⟨line, hline, rfl⟩ := List.mem_map.1 hpart
    exact h line hline
  rw [joinLines, String.toList_intercalate]
  exact List.splitOn_intercalate '\n' hparts (by simpa using hne)

namespace Emitter

variable (e : Emitter)

/-! ### What stands in the lines -/

theorem standsInLine_literal (x : Binary64) : StandsInLine (e.literal x) := by
  have hchars : ∀ c ∈ (e.literal x).toList, c ≠ ' ' ∧ c ≠ '\n' := by
    intro c hc
    rcases mem_literalText e.options.precision _ hc with hword | hmark
    · constructor <;> (rintro rfl; exact absurd hword (by decide))
    · constructor <;> (rintro rfl; exact absurd hmark (by decide))
  exact ⟨fun c hc => (hchars c (List.mem_of_mem_head? hc)).1, fun hfeed => (hchars _ hfeed).2 rfl⟩

theorem not_mem_condition (feature : UInt64) (threshold : Binary64) (defaultLeft : Bool) :
    '\n' ∉ (e.condition feature threshold defaultLeft).toList := by
  have hfeature : '\n' ∉ Nat.toDigits 10 feature.toNat := fun hfeed =>
    absurd ((digits_toDigits feature.toNat).isDigit _ hfeed) (by decide)
  have hthreshold := (e.standsInLine_literal threshold).inLine
  unfold condition
  cases defaultLeft <;> simp [String.toList_append, hfeature, hthreshold]

/-- What stands in the first line of a split. -/
def splitHead (feature : UInt64) (threshold : Binary64) (defaultLeft : Bool) : String :=
  "if " ++ e.condition feature threshold defaultLeft ++ " \x7b"

theorem standsInLine_splitHead (feature : UInt64) (threshold : Binary64) (defaultLeft : Bool) :
    StandsInLine (e.splitHead feature threshold defaultLeft) := by
  have hcondition := e.not_mem_condition feature threshold defaultLeft
  unfold splitHead
  constructor
  · simp [String.toList_append, NextChar]
  · simp [String.toList_append, hcondition]

theorem standsInLine_else : StandsInLine "\x7d else \x7b" :=
  ⟨.cons (by decide), by decide⟩

theorem standsInLine_close : StandsInLine "\x7d" :=
  ⟨.cons (by decide), by decide⟩

/-- Every line of a subtree is a text behind the indentation of a level. -/
theorem exists_of_mem_subtreeLines {node : Node} {level : Nat} {line : String}
    (h : line ∈ e.subtreeLines node level) :
    ∃ deeper text, line = indent deeper ++ text ∧ StandsInLine text := by
  induction node generalizing level with
  | leaf id weight => exact ⟨level, _, List.mem_singleton.1 h, e.standsInLine_literal weight⟩
  | split id feature threshold defaultLeft left right ihl ihr =>
    simp only [subtreeLines, List.mem_append, List.mem_singleton] at h
    rcases h with (((h | h) | h) | h) | h
    · exact ⟨level, _, h, e.standsInLine_splitHead feature threshold defaultLeft⟩
    · exact ihl h
    · exact ⟨level, _, h, standsInLine_else⟩
    · exact ihr h
    · exact ⟨level, _, h, standsInLine_close⟩

theorem length_subtreeLines (node : Node) (level : Nat) :
    (e.subtreeLines node level).length = node.leafCount + 3 * (node.leafCount - 1) := by
  induction node generalizing level with
  | leaf id weight => simp [subtreeLines]
  | split id feature threshold defaultLeft left right ihl ihr =>
    have hl := left.leafCount_pos
    have hr := right.leafCount_pos
    simp only [subtreeLines, List.length_append, List.length_singleton, ihl, ihr,
      Node.leafCount_split]
    omega

/-! ### Where the lines of a subtree are -/

/-- The lines of a subtree stand together, at the level of the tree and as many deeper as there are
splits above it. -/
theorem subtreeLines_of_below {depth : Nat} {node sub : Node} (h : Node.Below depth node sub)
    (level : Nat) :
    ∃ before behind, e.subtreeLines node level =
      before ++ e.subtreeLines sub (level + depth) ++ behind := by
  -- down the tree: a split puts its own lines and those of the other subtree around
  induction h generalizing level with
  | here node => exact ⟨[], [], by simp⟩
  | @left depth id feature threshold defaultLeft left right sub _ ih =>
    obtain ⟨before, behind, hlines⟩ := ih (level + 1)
    rw [Nat.add_right_comm, Nat.add_assoc level] at hlines
    refine ⟨[indent level ++ e.splitHead feature threshold defaultLeft] ++ before,
      behind ++ [indent level ++ "\x7d else \x7b"] ++ e.subtreeLines right (level + 1)
        ++ [indent level ++ "\x7d"], ?_⟩
    rw [subtreeLines, hlines]
    simp only [splitHead, List.append_assoc]
  | @right depth id feature threshold defaultLeft left right sub _ ih =>
    obtain ⟨before, behind, hlines⟩ := ih (level + 1)
    rw [Nat.add_right_comm, Nat.add_assoc level] at hlines
    refine ⟨[indent level ++ e.splitHead feature threshold defaultLeft]
      ++ e.subtreeLines left (level + 1) ++ [indent level ++ "\x7d else \x7b"] ++ before,
      behind ++ [indent level ++ "\x7d"], ?_⟩
    rw [subtreeLines, hlines]
    simp only [splitHead, List.append_assoc]

/-- **The text of a tree.** The lines that are written from pending steps are those of the recursion
on the tree, and they are what the line feeds of its text divide. A tree of `m` leaves has
`m + 3 * (m - 1)` lines, none of which is indented by more than 128 blanks. The lines of a split
stand around those of its subtrees, which are one level deeper, and its own three lines are
indented alike: by four blanks for each level up to the deepest indentation. -/
theorem nodeLines_layout (node : Node) (level : Nat) :
    e.nodeLines node level = e.subtreeLines node level ∧
      (joinLines (e.nodeLines node level)).toList.splitOn '\n' =
        (e.subtreeLines node level).map String.toList ∧
      (e.nodeLines node level).length = node.leafCount + 3 * (node.leafCount - 1) ∧
      (∀ line ∈ e.nodeLines node level, indentation line ≤ 128) ∧
      ∀ depth id feature threshold defaultLeft left right,
        Node.Below depth node (.split id feature threshold defaultLeft left right) →
        ∃ head middle last before behind,
          e.nodeLines node level = before ++ ([head] ++ e.subtreeLines left (level + depth + 1)
            ++ [middle] ++ e.subtreeLines right (level + depth + 1) ++ [last]) ++ behind ∧
          head = indent (level + depth) ++ e.splitHead feature threshold defaultLeft ∧
          middle = indent (level + depth) ++ "\x7d else \x7b" ∧
          last = indent (level + depth) ++ "\x7d" ∧
          ∀ line ∈ [head, middle, last], indentation line = 4 * min (level + depth) 32 := by
  have hlength := e.length_subtreeLines node level
  have hcount := node.leafCount_pos
  have hne : e.subtreeLines node level ≠ [] := List.length_pos_iff.1 (by omega)
  rw [nodeLines_eq]
  refine ⟨rfl, splitOn_joinLines hne fun line hline => ?_, hlength, fun line hline => ?_, ?_⟩
  · obtain ⟨deeper, text, rfl, htext⟩ := e.exists_of_mem_subtreeLines hline
    exact htext.not_mem_indent deeper
  · obtain ⟨deeper, text, rfl, htext⟩ := e.exists_of_mem_subtreeLines hline
    rw [indentation_indent htext, maxIndentLevel]
    omega
  · intro depth id feature threshold defaultLeft left right hbelow
    obtain ⟨before, behind, hlines⟩ := e.subtreeLines_of_below hbelow level
    refine ⟨_, _, _, before, behind, hlines, rfl, rfl, rfl, ?_⟩
    have hhead := e.standsInLine_splitHead feature threshold defaultLeft
    intro line hline
    simp only [List.mem_cons, List.not_mem_nil, or_false] at hline
    rcases hline with rfl | rfl | rfl
    · exact indentation_indent hhead _
    · exact indentation_indent standsInLine_else _
    · exact indentation_indent standsInLine_close _

end Emitter

end EnsembleCompiler
