import FrontEnd.Symbol.Basic
import FrontEnd.Symbol.Interner

/-!
The table of symbols. Symbols stay in the order in which they were registered, and no two of them
have the same key. An index finds them by key, with numbers in place of the strings of a key; that
it agrees with the list is part of the type.
-/

namespace FrontEnd

/-- A key as the index has it: numbers for its strings. -/
structure InternedKey where
  scope : Option Nat
  name : Nat
deriving DecidableEq

/-- Keys are ordered by scope, functions first, and then by name. -/
instance : Ord InternedKey where
  compare := compareLex (compareOn InternedKey.scope) (compareOn InternedKey.name)

instance : Std.TransOrd InternedKey :=
  inferInstanceAs (Std.TransCmp
    (compareLex (compareOn InternedKey.scope) (compareOn InternedKey.name)))

instance : Std.LawfulEqOrd InternedKey where
  eq_of_compare {a b} hcompare := by
    have hparts : compare a.scope b.scope = .eq ∧ compare a.name b.name = .eq :=
      Ordering.then_eq_eq.mp hcompare
    have hscope : a.scope = b.scope := Std.LawfulEqOrd.eq_of_compare hparts.1
    have hname : a.name = b.name := Std.LawfulEqOrd.eq_of_compare hparts.2
    cases a
    cases b
    rw [InternedKey.mk.injEq]
    exact ⟨hscope, hname⟩

namespace Key

variable {ι : Type} [Interner ι]

/-- Gives numbers to the strings of a key, the name first. -/
def intern (names : ι) (key : Key) : InternedKey × ι :=
  let (name, names) := Interner.intern names key.name
  match key.scope with
  | none => (⟨none, name⟩, names)
  | some scope =>
    let (label, names) := Interner.intern names scope.label
    (⟨some label, name⟩, names)

/-- The key under numbers, if all its strings have been interned. -/
def interned? (names : ι) (key : Key) : Option InternedKey :=
  (Interner.get? names key.name).bind fun name =>
    match key.scope with
    | none => some ⟨none, name⟩
    | some scope => (Interner.get? names scope.label).map fun label => ⟨some label, name⟩

theorem interned?_eq_some_iff {names : ι} {key : Key} {interned : InternedKey} :
    key.interned? names = some interned ↔
      Interner.get? names key.name = some interned.name ∧
        key.scope.map (fun scope => Interner.get? names scope.label) =
          interned.scope.map some := by
  obtain ⟨scope, name⟩ := key
  obtain ⟨label, id⟩ := interned
  cases scope <;> cases label <;> cases hname : Interner.get? names name <;>
    simp [interned?, hname]
  grind

/-- Different keys stay different under numbers. -/
theorem interned?_inj {names : ι} {first second : Key} {interned : InternedKey}
    (hfirst : first.interned? names = some interned)
    (hsecond : second.interned? names = some interned) : first = second := by
  obtain ⟨hname, hscope⟩ := interned?_eq_some_iff.mp hfirst
  obtain ⟨hname', hscope'⟩ := interned?_eq_some_iff.mp hsecond
  obtain ⟨scope, name⟩ := first
  obtain ⟨scope', name'⟩ := second
  obtain ⟨label, id⟩ := interned
  obtain rfl : name = name' := Interner.get?_inj hname hname'
  cases label with
  | none => simp_all
  | some label =>
    simp only [Option.map_some, Option.map_eq_some_iff] at hscope hscope'
    obtain ⟨one, rfl, hone⟩ := hscope
    obtain ⟨two, rfl, htwo⟩ := hscope'
    have hlabel : one.label = two.label := Interner.get?_inj hone htwo
    rw [show one = two from by cases one; cases two; simpa using hlabel]

/-- A key that has its numbers keeps them when more strings are interned. -/
theorem interned?_intern_string {names : ι} {key : Key} {interned : InternedKey}
    (hkey : key.interned? names = some interned) (name : String) :
    key.interned? (Interner.intern names name).2 = some interned := by
  have hkeep : ∀ {other : String} {id : Nat}, Interner.get? names other = some id →
      Interner.get? (Interner.intern names name).2 other = some id := by
    intro other id hid
    rw [Interner.get?_intern]
    split
    · next hname =>
      subst hname
      rw [Interner.intern_of_get? hid]
    · exact hid
  obtain ⟨hname, hscope⟩ := interned?_eq_some_iff.mp hkey
  refine interned?_eq_some_iff.mpr ⟨hkeep hname, ?_⟩
  cases hlabel : interned.scope with
  | none => simpa [hlabel] using hscope
  | some label =>
    simp only [hlabel, Option.map_some, Option.map_eq_some_iff] at hscope ⊢
    obtain ⟨scope, hkeyScope, hscope⟩ := hscope
    exact ⟨scope, hkeyScope, hkeep hscope⟩

theorem interned?_intern {names : ι} {key : Key} {interned : InternedKey}
    (hkey : key.interned? names = some interned) (other : Key) :
    key.interned? (other.intern names).2 = some interned := by
  obtain ⟨scope, name⟩ := other
  cases scope with
  | none => exact interned?_intern_string hkey name
  | some scope => exact interned?_intern_string (interned?_intern_string hkey name) scope.label

theorem interned?_intern_self (names : ι) (key : Key) :
    key.interned? (key.intern names).2 = some (key.intern names).1 := by
  obtain ⟨scope, name⟩ := key
  cases scope with
  | none => simp [interned?, intern, Interner.get?_intern]
  | some scope =>
    have hname : (function name).interned? (Interner.intern names name).2 =
        some ⟨none, (Interner.intern names name).1⟩ := by
      simp [interned?, function, Interner.get?_intern]
    have hkept := interned?_eq_some_iff.mp (interned?_intern_string hname scope.label)
    refine interned?_eq_some_iff.mpr ⟨hkept.1, ?_⟩
    simp [intern, Interner.get?_intern]

end Key

/-- Registered symbols, the strings that have been interned for them, and an index from keys to
places. -/
structure SymbolTable (ι : optParam Type Names) [Interner ι] where
  private mk ::
  symbols : Array Symbol
  names : ι
  index : Std.TreeMap InternedKey Nat
  /-- The index leads to a place exactly if a symbol with the key stands there. -/
  index_eq_some_iff (key : InternedKey) (i : Nat) :
    index[key]? = some i ↔
      ∃ symbol, symbols[i]? = some symbol ∧ symbol.key.interned? names = some key
  /-- The strings of all keys have been interned. -/
  interned (i : Nat) (symbol : Symbol) :
    symbols[i]? = some symbol → ∃ key, symbol.key.interned? names = some key

namespace SymbolTable

variable {ι : Type} [Interner ι]

/-- The table with nothing in it. -/
def empty : SymbolTable ι where
  symbols := #[]
  names := Interner.empty
  index := ∅
  index_eq_some_iff := by simp
  interned := by simp

instance : EmptyCollection (SymbolTable ι) := ⟨empty⟩

/-- The symbols in the order in which they were registered. -/
def toList (table : SymbolTable ι) : List Symbol :=
  table.symbols.toList

/-- How many symbols are registered. -/
def size (table : SymbolTable ι) : Nat :=
  table.symbols.size

/-- Where the symbol with the given key stands. -/
def place? (table : SymbolTable ι) (key : Key) : Option Nat :=
  (key.interned? table.names).bind fun interned => table.index[interned]?

/-- The symbol with the given key. -/
def find? (table : SymbolTable ι) (key : Key) : Option Symbol :=
  (table.place? key).bind fun i => table.symbols[i]?

/-- The place of a key holds the symbol with the key. -/
theorem place?_eq_some_iff {table : SymbolTable ι} {key : Key} {i : Nat} :
    table.place? key = some i ↔ ∃ symbol, table.symbols[i]? = some symbol ∧ symbol.key = key := by
  unfold place?
  rw [Option.bind_eq_some_iff]
  constructor
  · rintro ⟨interned, hkey, hindex⟩
    obtain ⟨symbol, hsymbol, hother⟩ := (table.index_eq_some_iff interned i).mp hindex
    exact ⟨symbol, hsymbol, Key.interned?_inj hother hkey⟩
  · rintro ⟨symbol, hsymbol, rfl⟩
    obtain ⟨interned, hkey⟩ := table.interned i symbol hsymbol
    exact ⟨interned, hkey, (table.index_eq_some_iff interned i).mpr ⟨symbol, hsymbol, hkey⟩⟩

/-- The value with the given name in exactly this scope. -/
def value? (table : SymbolTable ι) (name : String) (scope : Scope) : Option Symbol :=
  table.find? (.value name scope)

/-- The function with the given name. -/
def function? (table : SymbolTable ι) (name : String) : Option Symbol :=
  table.find? (.function name)

/-- The table after the strings of a key have been interned, whether or not it is registered. -/
def intern (table : SymbolTable ι) (key : Key) : SymbolTable ι where
  symbols := table.symbols
  names := (key.intern table.names).2
  index := table.index
  index_eq_some_iff := by
    intro interned i
    rw [table.index_eq_some_iff]
    refine exists_congr fun symbol => and_congr_right fun hsymbol => ?_
    obtain ⟨other, hother⟩ := table.interned i symbol hsymbol
    rw [Key.interned?_intern hother, hother]
  interned := by
    intro i symbol hsymbol
    obtain ⟨interned, hinterned⟩ := table.interned i symbol hsymbol
    exact ⟨interned, Key.interned?_intern hinterned key⟩

/-- A new entry of the index leads to the end of the symbols, and all others where they led. -/
theorem index_insert_eq_some_iff (table : SymbolTable ι) {symbol : Symbol} {key : InternedKey}
    (hkey : symbol.key.interned? table.names = some key) (hfree : table.index[key]? = none)
    (other : InternedKey) (i : Nat) :
    (table.index.insert key table.symbols.size)[other]? = some i ↔
      ∃ found, (table.symbols.push symbol)[i]? = some found ∧
        found.key.interned? table.names = some other := by
  rw [Std.TreeMap.getElem?_insert, Array.getElem?_push]
  simp only [Std.compare_eq_iff_eq]
  by_cases hsame : key = other
  · subst hsame
    by_cases hi : i = table.symbols.size
    · simp [hi, hkey]
    · simp only [if_pos, hi, if_false, Option.some.injEq]
      constructor
      · intro heq
        omega
      · intro hstands
        rw [(table.index_eq_some_iff key i).mpr hstands] at hfree
        cases hfree
  · rw [if_neg hsame, table.index_eq_some_iff]
    by_cases hi : i = table.symbols.size
    · simp [hi, hkey, hsame]
    · simp [hi]

theorem interned_push (table : SymbolTable ι) {symbol : Symbol} {key : InternedKey}
    (hkey : symbol.key.interned? table.names = some key) {i : Nat} {other : Symbol}
    (hother : (table.symbols.push symbol)[i]? = some other) :
    ∃ key, other.key.interned? table.names = some key := by
  rw [Array.getElem?_push] at hother
  split at hother
  · obtain rfl := Option.some.inj hother
    exact ⟨key, hkey⟩
  · exact table.interned i other hother

/-- The table with one more symbol at the end, under a key that is not taken. -/
def push (table : SymbolTable ι) (symbol : Symbol) (key : InternedKey)
    (hkey : symbol.key.interned? table.names = some key) (hfree : table.index[key]? = none) :
    SymbolTable ι where
  symbols := table.symbols.push symbol
  names := table.names
  index := table.index.insert key table.symbols.size
  index_eq_some_iff := table.index_insert_eq_some_iff hkey hfree
  interned _ _ hother := table.interned_push hkey hother

/-- Registers a symbol at the end, unless its key is taken. The strings of the key are interned in
either case. -/
def insert (table : SymbolTable ι) (symbol : Symbol) : Bool × SymbolTable ι :=
  let interned := table.intern symbol.key
  let key := (symbol.key.intern table.names).1
  match hfree : interned.index[key]? with
  | some _ => (false, interned)
  | none =>
    have hkey := Key.interned?_intern_self table.names symbol.key
    (true, interned.push symbol key hkey hfree)

/-- The index needs no change where a symbol takes the place of another one with the same key. -/
theorem index_setIfInBounds_eq_some_iff {table : SymbolTable ι} {symbol : Symbol} {place : Nat}
    (hplace : table.place? symbol.key = some place) (key : InternedKey) (i : Nat) :
    table.index[key]? = some i ↔
      ∃ found, (table.symbols.setIfInBounds place symbol)[i]? = some found ∧
        found.key.interned? table.names = some key := by
  obtain ⟨old, hold, holdKey⟩ := place?_eq_some_iff.mp hplace
  have hbound : place < table.symbols.size := (Array.getElem?_eq_some_iff.mp hold).1
  rw [table.index_eq_some_iff, Array.getElem?_setIfInBounds]
  by_cases hi : place = i
  · subst hi
    have hplaced : table.symbols[place] = old := (Array.getElem?_eq_some_iff.mp hold).2
    simp [hbound, hplaced, holdKey]
  · simp [hi]

theorem interned_setIfInBounds {table : SymbolTable ι} {symbol : Symbol} {place : Nat}
    (hplace : table.place? symbol.key = some place) {i : Nat} {other : Symbol}
    (hother : (table.symbols.setIfInBounds place symbol)[i]? = some other) :
    ∃ key, other.key.interned? table.names = some key := by
  obtain ⟨old, hold, holdKey⟩ := place?_eq_some_iff.mp hplace
  rw [Array.getElem?_setIfInBounds] at hother
  split at hother
  · split at hother
    · obtain rfl := Option.some.inj hother
      rw [← holdKey]
      exact table.interned place old hold
    · cases hother
  · exact table.interned i other hother

/-- The table with the symbol in the place of the one with the same key, if there is one. -/
def update? (table : SymbolTable ι) (symbol : Symbol) : Option (SymbolTable ι) :=
  match hplace : table.place? symbol.key with
  | none => none
  | some place => some {
      symbols := table.symbols.setIfInBounds place symbol
      names := table.names
      index := table.index
      index_eq_some_iff := index_setIfInBounds_eq_some_iff hplace
      interned _ _ hother := interned_setIfInBounds hplace hother }

/-- The table with another type for the symbol with the given key, if there is one. -/
def retype? (table : SymbolTable ι) (key : Key) (type : Option ValueType) :
    Option (SymbolTable ι) :=
  (table.find? key).bind fun symbol => table.update? { symbol with type := type }

@[simp] theorem toList_empty : (∅ : SymbolTable ι).toList = [] := rfl

theorem find?_eq_some_iff {table : SymbolTable ι} {key : Key} {symbol : Symbol} :
    table.find? key = some symbol ↔ symbol ∈ table.toList ∧ symbol.key = key := by
  simp only [find?, Option.bind_eq_some_iff, toList, Array.mem_toList_iff, Array.mem_iff_getElem?]
  constructor
  · rintro ⟨i, hplace, hsymbol⟩
    obtain ⟨other, hother, hkey⟩ := place?_eq_some_iff.mp hplace
    obtain rfl : other = symbol := by simpa [hother] using hsymbol
    exact ⟨⟨i, hsymbol⟩, hkey⟩
  · rintro ⟨⟨i, hsymbol⟩, hkey⟩
    exact ⟨i, place?_eq_some_iff.mpr ⟨symbol, hsymbol, hkey⟩, hsymbol⟩

theorem find?_eq_none_iff {table : SymbolTable ι} {key : Key} :
    table.find? key = none ↔ ∀ symbol ∈ table.toList, symbol.key ≠ key := by
  rw [Option.eq_none_iff_forall_ne_some]
  constructor
  · intro hnone symbol hmem hkey
    exact hnone symbol (find?_eq_some_iff.mpr ⟨hmem, hkey⟩)
  · intro hfree symbol hfound
    obtain ⟨hmem, hkey⟩ := find?_eq_some_iff.mp hfound
    exact hfree symbol hmem hkey

theorem place?_isSome_iff_find? {table : SymbolTable ι} {key : Key} :
    (table.place? key).isSome ↔ (table.find? key).isSome := by
  constructor
  · intro hplace
    obtain ⟨i, hi⟩ := Option.isSome_iff_exists.mp hplace
    obtain ⟨symbol, hsymbol, -⟩ := place?_eq_some_iff.mp hi
    simp [find?, hi, hsymbol]
  · intro hfound
    obtain ⟨symbol, hsymbol⟩ := Option.isSome_iff_exists.mp hfound
    obtain ⟨i, hi, -⟩ := Option.bind_eq_some_iff.mp hsymbol
    simp [hi]

/-- A key is looked up under the same number whether or not it is interned for that. -/
theorem index_intern (table : SymbolTable ι) (key : Key) :
    (table.intern key).index[(key.intern table.names).1]? = table.place? key := by
  have hself := Key.interned?_intern_self table.names key
  have hplace : (table.intern key).place? key =
      (table.intern key).index[(key.intern table.names).1]? := by
    unfold place?
    rw [show key.interned? (table.intern key).names = _ from hself, Option.bind_some]
  have hsymbols : (table.intern key).symbols = table.symbols := rfl
  rw [← hplace]
  ext i
  rw [place?_eq_some_iff, place?_eq_some_iff, hsymbols]

/-- A symbol whose key is free goes to the end of the list. -/
theorem insert_of_free {table : SymbolTable ι} {symbol : Symbol}
    (hfree : table.find? symbol.key = none) :
    (table.insert symbol).1 = true ∧ (table.insert symbol).2.toList = table.toList ++ [symbol] := by
  have hplace : table.place? symbol.key = none := by
    rw [← Option.not_isSome_iff_eq_none, place?_isSome_iff_find?, hfree]
    simp
  unfold insert
  dsimp only
  split
  · next i hi =>
    rw [index_intern, hplace] at hi
    cases hi
  · exact ⟨rfl, by simp [push, intern, toList]⟩

/-- A symbol whose key is taken is not registered. -/
theorem insert_of_taken {table : SymbolTable ι} {symbol : Symbol}
    (htaken : table.find? symbol.key ≠ none) :
    (table.insert symbol).1 = false ∧ (table.insert symbol).2.toList = table.toList := by
  have hplace : table.place? symbol.key ≠ none := by
    rw [← Option.isSome_iff_ne_none, place?_isSome_iff_find?, Option.isSome_iff_ne_none]
    exact htaken
  unfold insert
  dsimp only
  split
  · exact ⟨rfl, rfl⟩
  · next hi =>
    rw [index_intern] at hi
    exact absurd hi hplace

end SymbolTable

end FrontEnd
