import FrontEnd.Symbol.Table

/-!
The table of symbols as a list. Looking a key up, registering a symbol and giving a symbol another
type are what one expects of a list whose keys are pairwise distinct.
-/

namespace FrontEnd

/-- The symbol with another type, if it is the one with the key. -/
def Symbol.retypeAt (key : Key) (type : Option ValueType) (symbol : Symbol) : Symbol :=
  if symbol.key = key then { symbol with type := type } else symbol

theorem Symbol.key_retypeAt (key : Key) (type : Option ValueType) (symbol : Symbol) :
    (symbol.retypeAt key type).key = symbol.key := by
  unfold retypeAt
  split <;> rfl

namespace SymbolTable

variable {ι : Type} [Interner ι]

theorem find?_eq_find?_toList (table : SymbolTable ι) (key : Key) :
    table.find? key = table.toList.find? (·.key = key) := by
  cases hlist : table.toList.find? (·.key = key) with
  | none =>
    rw [List.find?_eq_none] at hlist
    refine find?_eq_none_iff.mpr fun symbol hmem hkey => hlist symbol hmem ?_
    simpa using hkey
  | some symbol =>
    have hkey := List.find?_some hlist
    exact find?_eq_some_iff.mpr ⟨List.mem_of_find?_eq_some hlist, by simpa using hkey⟩

theorem find?_insert {table : SymbolTable ι} {symbol : Symbol}
    (hfree : table.find? symbol.key = none) (key : Key) :
    (table.insert symbol).2.find? key =
      if symbol.key = key then some symbol else table.find? key := by
  rw [find?_eq_find?_toList, (insert_of_free hfree).2, List.find?_append,
    ← find?_eq_find?_toList]
  by_cases hkey : symbol.key = key
  · rw [← hkey, hfree]
    simp
  · simp [hkey]

/-- Only one place of the table has a symbol with the key. -/
theorem getElem?_unique {table : SymbolTable ι} {i j : Nat} {first second : Symbol}
    (hfirst : table.symbols[i]? = some first) (hsecond : table.symbols[j]? = some second)
    (hkey : first.key = second.key) : i = j := by
  have hi : table.place? first.key = some i := place?_eq_some_iff.mpr ⟨first, hfirst, rfl⟩
  have hj : table.place? first.key = some j := place?_eq_some_iff.mpr ⟨second, hsecond, hkey.symm⟩
  rw [hi] at hj
  exact Option.some.inj hj

theorem toList_of_update? {table after : SymbolTable ι} {symbol : Symbol}
    (hupdate : table.update? symbol = some after) :
    after.toList = table.toList.map fun other =>
      if other.key = symbol.key then symbol else other := by
  unfold update? at hupdate
  split at hupdate
  · cases hupdate
  · next place hplace =>
    obtain rfl := Option.some.inj hupdate
    obtain ⟨old, hold, hkey⟩ := place?_eq_some_iff.mp hplace
    apply List.ext_getElem?
    intro i
    simp only [toList, Array.getElem?_toList, List.getElem?_map, Array.getElem?_setIfInBounds]
    by_cases hi : place = i
    · subst hi
      have hbound : place < table.symbols.size := (Array.getElem?_eq_some_iff.mp hold).1
      rw [if_pos rfl, if_pos hbound, hold, Option.map_some, if_pos hkey]
    · rw [if_neg hi]
      cases hother : table.symbols[i]? with
      | none => rfl
      | some other =>
        have hdistinct : other.key ≠ symbol.key := fun hsame =>
          hi (getElem?_unique hold hother (hkey.trans hsame.symm))
        simp [hdistinct]

theorem update?_isSome_iff {table : SymbolTable ι} {symbol : Symbol} :
    (table.update? symbol).isSome ↔ (table.find? symbol.key).isSome := by
  rw [← place?_isSome_iff_find?]
  unfold update?
  split <;> simp_all

/-- Giving a key another type changes at most the symbol with the key. -/
theorem toList_retype? (table : SymbolTable ι) (key : Key) (type : Option ValueType) :
    ((table.retype? key type).getD table).toList = table.toList.map (Symbol.retypeAt key type) := by
  unfold retype?
  cases hfind : table.find? key with
  | none =>
    have hfree := find?_eq_none_iff.mp hfind
    have hsame : ∀ symbol ∈ table.toList, symbol.retypeAt key type = symbol := by
      intro symbol hmem
      rw [Symbol.retypeAt, if_neg (hfree symbol hmem)]
    rw [List.map_congr_left hsame, List.map_id']
    rfl
  | some symbol =>
    obtain ⟨hmem, hkey⟩ := find?_eq_some_iff.mp hfind
    have hpresent : (table.update? { symbol with type := type }).isSome := by
      rw [update?_isSome_iff]
      exact Option.isSome_iff_exists.mpr ⟨symbol, find?_eq_some_iff.mpr ⟨hmem, rfl⟩⟩
    obtain ⟨after, hafter⟩ := Option.isSome_iff_exists.mp hpresent
    rw [Option.bind_some, hafter, Option.getD_some, toList_of_update? hafter]
    refine List.map_congr_left fun other hother => ?_
    have hsymbol : Symbol.key { symbol with type := type } = key := hkey
    rw [hsymbol, Symbol.retypeAt]
    by_cases hsame : other.key = key
    · have hfound : table.find? key = some other := find?_eq_some_iff.mpr ⟨hother, hsame⟩
      rw [hfind] at hfound
      rw [if_pos hsame, if_pos hsame, Option.some.inj hfound]
    · rw [if_neg hsame, if_neg hsame]

theorem find?_retype? (table : SymbolTable ι) (key other : Key) (type : Option ValueType) :
    ((table.retype? key type).getD table).find? other =
      (table.find? other).map (Symbol.retypeAt key type) := by
  rw [find?_eq_find?_toList, find?_eq_find?_toList, toList_retype?, List.find?_map]
  congr 2
  funext symbol
  rw [Function.comp_apply, Symbol.key_retypeAt]

end SymbolTable

end FrontEnd
