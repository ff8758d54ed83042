import FrontEnd.Outline.Basic
import FrontEnd.Proofs.Outline.Label

/-!
The indented text of a tree determines the tree, as long as its labels keep to one line and do not
start with a space. The text is read back in two steps: each line shows a depth and a label, and
what stands deeper after an entry is below it.
-/

namespace FrontEnd

namespace Outline

/-! ### Labels and their depths -/

mutual

/-- The labels of a tree whose root stands at the given depth, each with its own depth, in the order
of the lines. -/
def entries (depth : Nat) : Outline → List (Nat × String)
  | node label children => (depth, label) :: allEntries (depth + 1) children

/-- The labels of neighbouring trees, one tree after the other. -/
def allEntries (depth : Nat) : List Outline → List (Nat × String)
  | [] => []
  | tree :: rest => entries depth tree ++ allEntries depth rest

end

/-- All labels of a tree, each in front of those below it. -/
def labels (outline : Outline) : List String :=
  (outline.entries 0).map Prod.snd

/-- Whether a label keeps to its line and is told apart from the blanks in front of it. An empty
label is. -/
def IsPlainLabel (label : String) : Prop :=
  '\n' ∉ label.toList ∧ label.toList.head? ≠ some ' '

instance (label : String) : Decidable (IsPlainLabel label) :=
  inferInstanceAs (Decidable (_ ∧ _))

mutual

theorem lines_eq_map_entries (depth : Nat) (outline : Outline) :
    outline.lines depth = (outline.entries depth).map fun entry => line entry.1 entry.2 := by
  match outline with
  | .node label children =>
    rw [lines, entries, List.map_cons, allLines_eq_map_allEntries (depth + 1) children]

theorem allLines_eq_map_allEntries (depth : Nat) (outlines : List Outline) :
    allLines depth outlines =
      (allEntries depth outlines).map fun entry => line entry.1 entry.2 := by
  match outlines with
  | [] =>
    rw [allLines, allEntries, List.map_nil]
  | tree :: rest =>
    rw [allLines, allEntries, List.map_append, lines_eq_map_entries depth tree,
      allLines_eq_map_allEntries depth rest]

end

mutual

/-- Nothing in a tree stands higher than its root. -/
theorem le_of_mem_entries (depth : Nat) (outline : Outline) :
    ∀ entry ∈ outline.entries depth, depth ≤ entry.1 := by
  match outline with
  | .node label children =>
    rw [entries, List.forall_mem_cons]
    refine ⟨Nat.le_refl depth, fun entry hmem => ?_⟩
    have hbelow := le_of_mem_allEntries (depth + 1) children entry hmem
    omega

theorem le_of_mem_allEntries (depth : Nat) (outlines : List Outline) :
    ∀ entry ∈ allEntries depth outlines, depth ≤ entry.1 := by
  match outlines with
  | [] =>
    rw [allEntries]
    exact List.forall_mem_nil _
  | tree :: rest =>
    rw [allEntries, List.forall_mem_append]
    exact ⟨le_of_mem_entries depth tree, le_of_mem_allEntries depth rest⟩

end

/-! ### Trees from depths -/

/-- The neighbouring trees whose roots stand at the given depth. An entry is the root of what stands
deeper after it, up to the next entry that does not. -/
def forest (depth : Nat) : List (Nat × String) → List Outline
  | [] => []
  | (_, label) :: rest =>
    .node label (forest (depth + 1) (rest.takeWhile (depth < ·.1)))
      :: forest depth (rest.dropWhile (depth < ·.1))
termination_by entries => entries.length
decreasing_by
  · exact Nat.lt_succ_of_le (List.takeWhile_sublist _).length_le
  · exact Nat.lt_succ_of_le (List.dropWhile_sublist _).length_le

mutual

/-- The entries of a tree are read back as the tree, up to an entry that does not stand deeper than
its root. -/
theorem forest_entries_append (depth : Nat) (outline : Outline) {after : List (Nat × String)}
    (hafter : ∀ entry ∈ after.head?, entry.1 ≤ depth) :
    forest depth (outline.entries depth ++ after) = outline :: forest depth after := by
  match outline with
  | .node label children =>
    have hbelow : ∀ entry ∈ allEntries (depth + 1) children, decide (depth < entry.1) = true :=
      fun entry hmem => decide_eq_true (le_of_mem_allEntries (depth + 1) children entry hmem)
    have htake : after.takeWhile (depth < ·.1) = [] := by
      cases after with
      | nil => rfl
      | cons entry after => simp [hafter entry rfl]
    have hdrop : after.dropWhile (depth < ·.1) = after := by
      cases after with
      | nil => rfl
      | cons entry after => simp [hafter entry rfl]
    rw [entries, List.cons_append, forest, List.takeWhile_append_of_pos hbelow, htake,
      List.append_nil, List.dropWhile_append_of_pos hbelow, hdrop,
      forest_allEntries (depth + 1) children]

theorem forest_allEntries (depth : Nat) (outlines : List Outline) :
    forest depth (allEntries depth outlines) = outlines := by
  match outlines with
  | [] =>
    rw [allEntries, forest]
  | tree :: rest =>
    have hnext : ∀ entry ∈ (allEntries depth rest).head?, entry.1 ≤ depth := by
      match rest with
      | [] => simp [allEntries]
      | .node label children :: others => simp [allEntries, entries]
    rw [allEntries, forest_entries_append depth tree hnext, forest_allEntries depth rest]

end

/-! ### Entries from a text -/

/-- The depth and the label that a line shows: two blanks for each level, and then the label. -/
def entryOf (text : List Char) : Nat × String :=
  let indent := text.takeWhile (· = ' ')
  (indent.length / 2, String.ofList (text.drop indent.length))

/-- The tree that a text shows; nothing if the text has no lines. -/
def ofText? (text : String) : Option Outline :=
  (forest 0 ((text.toList.splitOn '\n').dropLast.map entryOf)).head?

/-- A label behind its blanks, without the end of the line. -/
def indented (entry : Nat × String) : List Char :=
  List.replicate (2 * entry.1) ' ' ++ entry.2.toList

theorem toList_line (entry : Nat × String) :
    (line entry.1 entry.2).toList = indented entry ++ ['\n'] := by
  simp [line, indented]

theorem entryOf_indented {entry : Nat × String} (hplain : IsPlainLabel entry.2) :
    entryOf (indented entry) = entry := by
  have hindent : IsRun (· = ' ') (List.replicate (2 * entry.1) ' ') entry.2.toList := by
    refine ⟨fun c hmem => decide_eq_true (List.eq_of_mem_replicate hmem), fun c hhead => ?_⟩
    refine decide_eq_false ?_
    rintro rfl
    exact hplain.2 hhead
  rw [entryOf, indented, hindent.takeWhile_eq]
  simp

theorem splitOn_lines {lines : List (List Char)} (hfree : ∀ line ∈ lines, '\n' ∉ line) :
    (lines.flatMap fun line => line ++ ['\n']).splitOn '\n' = lines ++ [[]] := by
  induction lines with
  | nil => rfl
  | cons line rest ih =>
    obtain ⟨hline, hrest⟩ := List.forall_mem_cons.mp hfree
    have hinside : ∀ c ∈ line, (c == '\n') = false := fun c hmem => by
      simpa using ne_of_mem_of_not_mem hmem hline
    rw [List.flatMap_cons, List.append_assoc, List.singleton_append, List.splitOn,
      List.splitOnP_append_cons_of_forall_mem hinside '\n' (by decide), ← List.splitOn,
      ih hrest, List.cons_append]

/-- The text of a tree with plain labels is read back as the tree. -/
theorem ofText?_render {outline : Outline} (hplain : ∀ label ∈ outline.labels, IsPlainLabel label) :
    ofText? outline.render = some outline := by
  have hentries : ∀ entry ∈ outline.entries 0, IsPlainLabel entry.2 :=
    fun entry hmem => hplain entry.2 (List.mem_map_of_mem hmem)
  have htext : outline.render.toList =
      ((outline.entries 0).map indented).flatMap fun line => line ++ ['\n'] := by
    rw [render, String.toList_join, lines_eq_map_entries, List.flatMap_map, List.flatMap_map]
    exact List.flatMap_congr fun entry _ => toList_line entry
  have hfree : ∀ line ∈ (outline.entries 0).map indented, '\n' ∉ line := by
    refine List.forall_mem_map.mpr fun entry hmem => ?_
    simp [indented, (hentries entry hmem).1]
  have hread : ((outline.entries 0).map indented).map entryOf = outline.entries 0 := by
    rw [List.map_map]
    exact (List.map_congr_left fun entry hmem => entryOf_indented (hentries entry hmem)).trans
      (List.map_id _)
  have htree : forest 0 (outline.entries 0) = [outline] := by
    have hwhole : forest 0 (outline.entries 0 ++ []) = outline :: forest 0 [] :=
      forest_entries_append 0 outline (by simp)
    rwa [List.append_nil, forest] at hwhole
  rw [ofText?, htext, splitOn_lines hfree, List.dropLast_concat, hread, htree, List.head?_cons]

/-- Trees of any depth and width whose labels are plain have the same text only if they are the same
tree. -/
theorem render_inj {first second : Outline} (hfirst : ∀ label ∈ first.labels, IsPlainLabel label)
    (hsecond : ∀ label ∈ second.labels, IsPlainLabel label) :
    first.render = second.render ↔ first = second := by
  refine ⟨fun hrender => ?_, congrArg render⟩
  have hread := ofText?_render hfirst
  rw [hrender, ofText?_render hsecond] at hread
  exact (Option.some.inj hread).symm

/-- A tree with empty labels, and with a leaf next to a deeper branch. -/
def emptyLabels : Outline :=
  .node "" [.node "" [.leaf "a b"], .leaf "", .node "c" [.node "" [.leaf "d"], .leaf "e"]]

/-- The same labels, of which the last one stands deeper. -/
def emptyLabelsDeeper : Outline :=
  .node "" [.node "" [.leaf "a b"], .leaf "", .node "c" [.node "" [.leaf "d", .leaf "e"]]]

theorem render_inj_emptyLabels :
    (∀ label ∈ emptyLabels.labels, IsPlainLabel label) ∧
      (∀ label ∈ emptyLabelsDeeper.labels, IsPlainLabel label) ∧
      emptyLabels.labels = emptyLabelsDeeper.labels ∧
      emptyLabels.render ≠ emptyLabelsDeeper.render := by
  have hfirst : ∀ label ∈ emptyLabels.labels, IsPlainLabel label := by decide
  have hsecond : ∀ label ∈ emptyLabelsDeeper.labels, IsPlainLabel label := by decide
  refine ⟨hfirst, hsecond, by decide, fun hrender => ?_⟩
  exact absurd ((render_inj hfirst hsecond).mp hrender) (by decide)

end Outline

end FrontEnd
