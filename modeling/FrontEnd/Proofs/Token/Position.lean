import FrontEnd.Location

/-!
The position after a text, counted on the whole text instead of character by character: the newlines
in it, the characters after the last of them, and its bytes.
-/

namespace FrontEnd

namespace Position

/-- The position just past a text that begins at the start. -/
def past (text : List Char) : Position where
  row := text.count '\n'
  col := (text.reverse.takeWhile (· ≠ '\n')).length
  offset := (String.ofList text).utf8ByteSize

theorem utf8ByteSize_ofList_append (before after : List Char) :
    (String.ofList (before ++ after)).utf8ByteSize =
      (String.ofList before).utf8ByteSize + (String.ofList after).utf8ByteSize := by
  rw [String.ofList_append, String.utf8ByteSize_append]

theorem utf8ByteSize_ofList_singleton (c : Char) :
    (String.ofList [c]).utf8ByteSize = c.utf8Size := by
  rw [← String.singleton_eq_ofList, String.utf8ByteSize_singleton]

theorem utf8ByteSize_ofList_pos {text : List Char} (hne : text ≠ []) :
    0 < (String.ofList text).utf8ByteSize := by
  obtain ⟨c, text, rfl⟩ := List.exists_cons_of_ne_nil hne
  have hsize := utf8ByteSize_ofList_append [c] text
  rw [utf8ByteSize_ofList_singleton, List.singleton_append] at hsize
  have hpos := c.utf8Size_pos
  omega

/-- A character lies before a place of the text if the bytes in front of it are fewer. -/
theorem mem_of_utf8ByteSize_lt {front back before after : List Char} {c : Char}
    (htext : front ++ c :: back = before ++ after)
    (hlt : (String.ofList front).utf8ByteSize < (String.ofList before).utf8ByteSize) :
    c ∈ before := by
  obtain ⟨middle, hbefore, hback⟩ | ⟨middle, hfront, -⟩ := List.append_eq_append_iff.mp htext
  · cases middle with
    | nil =>
      rw [List.append_nil] at hbefore
      rw [hbefore] at hlt
      omega
    | cons d middle =>
      obtain rfl := (List.cons.inj hback).1
      simp [hbefore]
  · have hsize := utf8ByteSize_ofList_append before middle
    rw [← hfront] at hsize
    omega

/-- A place of the text with no fewer bytes in front of it comes after the other one. -/
theorem exists_append_of_utf8ByteSize_le {front back before after : List Char} {c : Char}
    (htext : front ++ c :: back = before ++ after)
    (hle : (String.ofList before).utf8ByteSize ≤ (String.ofList front).utf8ByteSize) :
    ∃ middle, front = before ++ middle ∧ after = middle ++ c :: back := by
  obtain ⟨middle, hbefore, hback⟩ | ⟨middle, hfront, hafter⟩ := List.append_eq_append_iff.mp htext
  · have hempty : middle = [] := by
      by_cases hmiddle : middle = []
      · exact hmiddle
      · have hsize := utf8ByteSize_ofList_append front middle
        have hpos := utf8ByteSize_ofList_pos hmiddle
        rw [← hbefore] at hsize
        omega
    subst hempty
    exact ⟨[], by simpa using hbefore.symm, by simpa using hback.symm⟩
  · exact ⟨middle, hfront, hafter⟩

theorem step_past (before : List Char) (c : Char) :
    (past before).step c = past (before ++ [c]) := by
  have hoffset := utf8ByteSize_ofList_append before [c]
  rw [utf8ByteSize_ofList_singleton] at hoffset
  by_cases hline : c = '\n'
  · simp only [step, past, if_pos hline, hoffset]
    simp [hline]
  · simp only [step, past, if_neg hline, hoffset]
    simp [hline]

theorem advance_past (before text : List Char) :
    (past before).advance text = past (before ++ text) := by
  induction text generalizing before with
  | nil => simp
  | cons c text ih => rw [advance_cons, step_past, ih, List.append_assoc, List.singleton_append]

end Position

end FrontEnd
