import FrontEnd.Symbol.Basic

/-!
Scopes by their labels. The label of a function's scope tells the name of the function, and no such
label is that of the scope outside of functions.
-/

namespace FrontEnd

namespace Scope

/-- What stands before the name of a function in the label of its scope. -/
def functionLabel : List Char :=
  "function:".toList

/-- The function to which a scope belongs. -/
def functionName? (scope : Scope) : Option String :=
  if functionLabel <+: scope.label.toList then
    some (String.ofList (scope.label.toList.drop functionLabel.length))
  else none

theorem toList_label_function (name : String) :
    (function name).label.toList = functionLabel ++ name.toList :=
  String.toList_append

theorem functionName?_function (name : String) : (function name).functionName? = some name := by
  unfold functionName?
  rw [toList_label_function, if_pos (List.prefix_append _ _), List.drop_left, String.ofList_toList]

theorem eq_function_of_functionName? {scope : Scope} {name : String}
    (hname : scope.functionName? = some name) : scope = function name := by
  unfold functionName? at hname
  split at hname
  · next hprefix =>
    obtain ⟨rest, hrest⟩ := hprefix
    obtain rfl := Option.some.inj hname
    have hlabel : scope.label.toList = (function (String.ofList rest)).label.toList := by
      rw [toList_label_function, String.toList_ofList, hrest]
    rw [← hrest, List.drop_left]
    exact congrArg Scope.mk (String.toList_injective hlabel)
  · cases hname

theorem functionName?_unit : unit.functionName? = none :=
  if_neg (by decide)

end Scope

end FrontEnd
