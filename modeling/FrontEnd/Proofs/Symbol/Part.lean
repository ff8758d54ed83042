import FrontEnd.Proofs.Symbol.Table

/-!
Parts of a table. A test on keys picks some of the symbols. What is looked up or changed under a key
that passes the test depends on that part alone, and what is done under any other key leaves the
part as it is.
-/

namespace FrontEnd

namespace SymbolTable

variable {ι : Type} [Interner ι] {keep : Key → Bool}

/-- The symbols whose keys pass a test. -/
def part (keep : Key → Bool) (table : SymbolTable ι) : List Symbol :=
  table.toList.filter fun symbol => keep symbol.key

theorem find?_eq_find?_part {key : Key} (hkeep : keep key = true) (table : SymbolTable ι) :
    table.find? key = (table.part keep).find? (·.key = key) := by
  rw [find?_eq_find?_toList, part, List.find?_filter]
  congr 1
  funext symbol
  by_cases hkey : symbol.key = key
  · simp [hkey, hkeep]
  · simp [hkey]

theorem part_insert_of_free {table : SymbolTable ι} {symbol : Symbol}
    (hfree : table.find? symbol.key = none) :
    (table.insert symbol).2.part keep =
      table.part keep ++ if keep symbol.key then [symbol] else [] := by
  rw [part, (insert_of_free hfree).2, List.filter_append, part, List.filter_cons, List.filter_nil]

theorem part_insert_of_taken {table : SymbolTable ι} {symbol : Symbol}
    (htaken : table.find? symbol.key ≠ none) :
    (table.insert symbol).2.part keep = table.part keep := by
  rw [part, (insert_of_taken htaken).2, part]

theorem part_retype? (table : SymbolTable ι) (key : Key) (type : Option ValueType) :
    ((table.retype? key type).getD table).part keep =
      (table.part keep).map (Symbol.retypeAt key type) := by
  rw [part, toList_retype?, List.filter_map, part]
  congr 2
  funext symbol
  rw [Function.comp_apply, Symbol.key_retypeAt]

/-- A key outside of the part has no symbol in it to be changed. -/
theorem map_retypeAt_part {key : Key} (hkeep : keep key = false) (table : SymbolTable ι)
    (type : Option ValueType) :
    (table.part keep).map (Symbol.retypeAt key type) = table.part keep := by
  refine (List.map_congr_left fun symbol hmem => ?_).trans (List.map_id _)
  have hkept : keep symbol.key = true := by simpa using (List.mem_filter.mp hmem).2
  have hne : symbol.key ≠ key := by
    rintro rfl
    rw [hkept] at hkeep
    cases hkeep
  rw [Symbol.retypeAt, if_neg hne, id]

end SymbolTable

end FrontEnd
