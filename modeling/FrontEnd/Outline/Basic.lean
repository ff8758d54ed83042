/-!
Labelled trees and their indented text: one line for each label, two blanks for each level.
-/

namespace FrontEnd

/-- A tree of labels. -/
inductive Outline where
  | node (label : String) (children : List Outline)

namespace Outline

def leaf (label : String) : Outline := node label []

/-- The line of a label at some depth. -/
def line (depth : Nat) (label : String) : String :=
  String.ofList (List.replicate (2 * depth) ' ') ++ label ++ "\n"

mutual

/-- The lines of a tree whose root stands at the given depth: the label, then what is below it. -/
def lines (depth : Nat) : Outline → List String
  | node label children => line depth label :: allLines (depth + 1) children

/-- The lines of neighbouring trees, one tree after the other. -/
def allLines (depth : Nat) : List Outline → List String
  | [] => []
  | tree :: rest => lines depth tree ++ allLines depth rest

end

/-- The indented text of a tree. -/
def render (outline : Outline) : String :=
  String.join (outline.lines 0)

end Outline

end FrontEnd
