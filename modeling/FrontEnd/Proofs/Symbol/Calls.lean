import FrontEnd.Analysis.Pass
import FrontEnd.Proofs.Symbol.Table

/-!
Runs of calls on a table of symbols. Whatever calls a table answers from the empty one on, it
answers them like a plain list of symbols with at most one symbol for each key. How strings are
interned does not show, and neither does it show that a symbol was refused.
-/

namespace FrontEnd

/-- Values and functions have keys of their own. -/
inductive SymbolKind where
  | value
  | function
deriving DecidableEq

/-- The key under which a name is looked up; the scope of a function does not matter. -/
def SymbolKind.key (name : String) (scope : Scope) : SymbolKind → Key
  | value => .value name scope
  | function => .function name

/-- What can be asked of a table of symbols. -/
inductive TableCall where
  | insert (symbol : Symbol)
  | update (symbol : Symbol)
  | retype (kind : SymbolKind) (name : String) (scope : Scope) (type : Option ValueType)
  | lookup (kind : SymbolKind) (name : String) (scope : Scope)
  | lookupValue (name : String) (scope : Scope)
  | lookupFunction (name : String)
  | list
  | count
  | reset

/-- What comes back from a call. -/
inductive TableAnswer where
  /-- Whether the table was changed, and what was reported. -/
  | changed (success : Bool) (reported : List Diagnostic)
  | found (symbol : Option Symbol)
  | listed (symbols : List Symbol)
  | counted (count : Nat)
  | forgotten
deriving DecidableEq

namespace TableCall

variable {ι : Type} [Interner ι]

/-- The table after a change, if there was one. -/
def changing (table : SymbolTable ι) (after? : Option (SymbolTable ι)) :
    TableAnswer × SymbolTable ι :=
  (.changed after?.isSome [], after?.getD table)

/-- The answer of a table, and the table after it. -/
def onTable (table : SymbolTable ι) : TableCall → TableAnswer × SymbolTable ι
  | insert symbol =>
    let (inserted, reported, after) := table.register symbol
    (.changed inserted reported, after)
  | update symbol => changing table (table.update? symbol)
  | retype kind name scope type => changing table (table.retype? (kind.key name scope) type)
  | lookup kind name scope => (.found (table.find? (kind.key name scope)), table)
  | lookupValue name scope => (.found (table.value? name scope), table)
  | lookupFunction name => (.found (table.function? name), table)
  | list => (.listed table.toList, table)
  | count => (.counted table.size, table)
  | reset => (.forgotten, ∅)

/-- A list of symbols after a change of the symbol with the key, if there is one. -/
def changingAt (symbols : List Symbol) (key : Key) (change : Symbol → Symbol) :
    TableAnswer × List Symbol :=
  if symbols.any (·.key = key) then
    (.changed true [], symbols.map fun other => if other.key = key then change other else other)
  else (.changed false [], symbols)

/-- The answer of a list of symbols, and the list after it. A symbol is appended unless its key is
taken, and then it is reported; a change is made in place. -/
def onList (symbols : List Symbol) : TableCall → TableAnswer × List Symbol
  | insert symbol =>
    if symbols.any (·.key = symbol.key) then (.changed false [symbol.duplicate], symbols)
    else (.changed true [], symbols ++ [symbol])
  | update symbol => changingAt symbols symbol.key fun _ => symbol
  | retype kind name scope type =>
    changingAt symbols (kind.key name scope) fun other => { other with type := type }
  | lookup kind name scope => (.found (symbols.find? (·.key = kind.key name scope)), symbols)
  | lookupValue name scope => (.found (symbols.find? (·.key = .value name scope)), symbols)
  | lookupFunction name => (.found (symbols.find? (·.key = .function name)), symbols)
  | list => (.listed symbols, symbols)
  | count => (.counted symbols.length, symbols)
  | reset => (.forgotten, [])

/-- The answers to calls one after the other, and the state after the last of them. -/
def run {σ : Type} (answer : σ → TableCall → TableAnswer × σ) :
    σ → List TableCall → List TableAnswer × σ
  | state, [] => ([], state)
  | state, call :: rest =>
    let (first, next) := answer state call
    let (others, last) := run answer next rest
    (first :: others, last)

end TableCall

namespace SymbolTable

variable {ι : Type} [Interner ι]

theorem nodup_keys (table : SymbolTable ι) : (table.toList.map Symbol.key).Nodup := by
  rw [List.Nodup, List.pairwise_map, List.pairwise_iff_getElem]
  intro i j hi hj hij hkey
  have hsame : i = j :=
    getElem?_unique (Array.getElem?_eq_getElem hi) (Array.getElem?_eq_getElem hj) hkey
  omega

theorem any_key_eq_isSome (table : SymbolTable ι) (key : Key) :
    table.toList.any (·.key = key) = (table.find? key).isSome := by
  rw [find?_eq_find?_toList, Bool.eq_iff_iff, List.any_eq_true, List.find?_isSome]

theorem lt_size_of_index {table : SymbolTable ι} {key : InternedKey} {i : Nat}
    (hindex : table.index[key]? = some i) : i < table.size := by
  obtain ⟨symbol, hsymbol, -⟩ := (table.index_eq_some_iff key i).mp hindex
  exact (Array.getElem?_eq_some_iff.mp hsymbol).1

/-- A key is given another type exactly if there is a symbol with it. -/
theorem isSome_retype? (table : SymbolTable ι) (key : Key) (type : Option ValueType) :
    (table.retype? key type).isSome = (table.find? key).isSome := by
  unfold retype?
  cases hfind : table.find? key with
  | none => rfl
  | some symbol =>
    have hpresent : table.find? (Symbol.key { symbol with type := type }) = some symbol := by
      rw [← hfind, ← (find?_eq_some_iff.mp hfind).2]
      rfl
    rw [Option.bind_some, Option.isSome_some, update?_isSome_iff, hpresent, Option.isSome_some]

end SymbolTable

namespace TableCall

variable {ι : Type} [Interner ι]

/-- A change of the table is the change of the list if both find the key and change its symbol
alike. -/
theorem changing_eq_changingAt {table : SymbolTable ι} {after? : Option (SymbolTable ι)} {key : Key}
    {change : Symbol → Symbol} (hsome : after?.isSome = (table.find? key).isSome)
    (hlist : ∀ after, after? = some after → after.toList =
      table.toList.map fun other => if other.key = key then change other else other) :
    (changing table after?).1 = (changingAt table.toList key change).1 ∧
      (changing table after?).2.toList = (changingAt table.toList key change).2 := by
  unfold changing changingAt
  rw [SymbolTable.any_key_eq_isSome, ← hsome]
  cases after? with
  | none => exact ⟨rfl, rfl⟩
  | some after => exact ⟨rfl, hlist after rfl⟩

/-- One call gets the same answer from a table and from the list of its symbols, and leaves the
same symbols. -/
theorem onTable_eq_onList (table : SymbolTable ι) (call : TableCall) :
    (call.onTable table).1 = (call.onList table.toList).1 ∧
      (call.onTable table).2.toList = (call.onList table.toList).2 := by
  cases call with
  | insert symbol =>
    simp only [onTable, onList, SymbolTable.register, SymbolTable.any_key_eq_isSome]
    cases hfind : table.find? symbol.key with
    | none =>
      obtain ⟨hinserted, hafter⟩ := SymbolTable.insert_of_free hfind
      simp [hinserted, hafter]
    | some other =>
      have htaken : table.find? symbol.key ≠ none := by simp [hfind]
      obtain ⟨hrefused, hafter⟩ := SymbolTable.insert_of_taken htaken
      simp [hrefused, hafter]
  | update symbol =>
    exact changing_eq_changingAt (Bool.eq_iff_iff.mpr SymbolTable.update?_isSome_iff)
      fun _ hafter => SymbolTable.toList_of_update? hafter
  | retype kind name scope type =>
    refine changing_eq_changingAt (SymbolTable.isSome_retype? table _ type) fun after hafter => ?_
    have hlist := SymbolTable.toList_retype? table (kind.key name scope) type
    rw [hafter, Option.getD_some] at hlist
    exact hlist
  | lookup kind name scope => exact ⟨congrArg _ (table.find?_eq_find?_toList _), rfl⟩
  | lookupValue name scope => exact ⟨congrArg _ (table.find?_eq_find?_toList _), rfl⟩
  | lookupFunction name => exact ⟨congrArg _ (table.find?_eq_find?_toList _), rfl⟩
  | list => exact ⟨rfl, rfl⟩
  | count => exact ⟨rfl, rfl⟩
  | reset => exact ⟨rfl, rfl⟩

/-- The same for any number of calls, one after the other. -/
theorem run_onTable_eq (table : SymbolTable ι) (calls : List TableCall) :
    (run onTable table calls).1 = (run onList table.toList calls).1 ∧
      (run onTable table calls).2.toList = (run onList table.toList calls).2 := by
  induction calls generalizing table with
  | nil => exact ⟨rfl, rfl⟩
  | cons call rest ih =>
    obtain ⟨hanswer, hafter⟩ := onTable_eq_onList table call
    obtain ⟨hanswers, hlast⟩ := ih (call.onTable table).2
    rw [hafter] at hanswers hlast
    simp only [run]
    exact ⟨by rw [hanswer, hanswers], hlast⟩

end TableCall

namespace SymbolTable

open TableCall

/-- From the empty table on, every sequence of calls is answered as by a list of symbols which
never has two symbols with one key, and leaves its symbols in their order. All places in the index
are places of the table. This holds for every way to intern strings. -/
theorem run_eq_run_onList {ι : Type} [Interner ι] (calls : List TableCall) :
    let actual := run onTable (∅ : SymbolTable ι) calls
    let expected := run onList [] calls
    actual.1 = expected.1 ∧ actual.2.toList = expected.2 ∧ (expected.2.map Symbol.key).Nodup ∧
      ∀ (key : InternedKey) (i : Nat), actual.2.index[key]? = some i → i < actual.2.size := by
  obtain ⟨hanswers, hlast⟩ := run_onTable_eq (∅ : SymbolTable ι) calls
  rw [toList_empty] at hanswers hlast
  refine ⟨hanswers, hlast, ?_, fun key i hindex => lt_size_of_index hindex⟩
  rw [← hlast]
  exact nodup_keys _

/-- A function keeps its key when its scope changes, and a refused symbol leaves nothing behind. -/
theorem run_insert_update_reset :
    let value : Symbol := ⟨"x", .value, none, true, .unit, ⟨0, 4, ⟨4, 6⟩⟩⟩
    let function : Symbol := ⟨"x", .function [.integer], none, false, .unit, ⟨1, 0, ⟨9, 10⟩⟩⟩
    let moved : Symbol := { function with scope := .function "x" }
    let calls := [
      .insert value, .insert function, .insert value, .update moved,
      .retype .value "x" .unit (some .integer), .retype .value "y" .unit none,
      .lookupFunction "x", .lookupValue "x" .unit, .lookup .value "x" (.function "x"),
      .list, .reset, .count]
    (run onTable (∅ : SymbolTable Names) calls).1 = [
      .changed true [], .changed true [], .changed false [value.duplicate], .changed true [],
      .changed true [], .changed false [],
      .found (some moved), .found (some { value with type := some .integer }), .found none,
      .listed [{ value with type := some .integer }, moved], .forgotten, .counted 0] := by
  intro value function moved calls
  rw [(run_eq_run_onList calls).1]
  decide

end SymbolTable

end FrontEnd
