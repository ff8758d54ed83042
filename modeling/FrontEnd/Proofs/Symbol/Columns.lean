import FrontEnd.Proofs.Outline.Reading
import FrontEnd.Proofs.Registration.Named
import FrontEnd.Proofs.Symbol.Scope

/-!
The lines in which symbols are listed. Whatever text is compiled, the names and scopes of its
symbols are short enough for their columns, so that each field starts where the columns say. No
field has a blank in it, and a line is read back as its symbol.
-/

namespace FrontEnd

open Grammar

/-! ### Columns -/

namespace Column

variable {text : String} {width : Nat}

/-- From `start` on, the line has the text and after it only blanks, up to the place where the next
column starts. The text ends before that place. -/
def Holds (line : List Char) (start next : Nat) (text : String) : Prop :=
  text.length < next - start ∧
    ∃ blanks, (line.drop start).take (next - start) = text.toList ++ List.replicate blanks ' '

/-- What a line has from `start` on, up to a blank or to the next column. -/
def read (line : List Char) (start next : Nat) : String :=
  String.ofList (before ' ' ((line.drop start).take (next - start)))

theorem Holds.read_eq {line : List Char} {start next : Nat} (hholds : Holds line start next text)
    (hfree : ' ' ∉ text.toList) : read line start next = text := by
  obtain ⟨-, blanks, hslice⟩ := hholds
  have hrun : IsRun (· ≠ ' ') text.toList (List.replicate blanks ' ') := by
    refine ⟨fun c hmem => by simpa using ne_of_mem_of_not_mem hmem hfree, fun c hhead => ?_⟩
    simpa using List.eq_of_mem_replicate (List.mem_of_mem_head? hhead)
  rw [read, hslice, before, hrun.takeWhile_eq, String.ofList_toList]

theorem toList_left (width : Nat) (text : String) :
    (left width text).toList = text.toList ++ List.replicate (width - text.length) ' ' := by
  rw [left, padding, String.toList_append, String.toList_ofList]

theorem length_left (hfit : text.length ≤ width) : (left width text).toList.length = width := by
  rw [toList_left, List.length_append, List.length_replicate, String.length_toList]
  omega

/-- A column with the blank that separates it from the next one. -/
theorem length_left_blank (hfit : text.length ≤ width) :
    ((left width text).toList ++ [' ']).length = width + 1 := by
  rw [List.length_append, length_left hfit, List.length_singleton]

/-- What stands behind a column is found behind the blank. -/
theorem drop_past (hfit : text.length ≤ width) (after : List Char) (start : Nat) :
    ((left width text).toList ++ ' ' :: after).drop (start + (width + 1)) = after.drop start := by
  rw [Nat.add_comm, ← List.drop_drop, List.append_cons, List.drop_left' (length_left_blank hfit)]

theorem holds_first (hfit : text.length ≤ width) (after : List Char) :
    Holds ((left width text).toList ++ ' ' :: after) 0 (width + 1) text := by
  refine ⟨by omega, width - text.length + 1, ?_⟩
  rw [List.drop_zero, Nat.sub_zero, List.append_cons, List.take_left' (length_left_blank hfit),
    toList_left, List.append_assoc, List.replicate_succ']

/-- The last column of a line is not followed by a blank. -/
theorem holds_last (hfit : text.length ≤ width) :
    Holds (left width text).toList 0 (width + 1) text := by
  have hcolumn : (left width text).toList.length ≤ width + 1 := by
    rw [length_left hfit]
    omega
  refine ⟨by omega, width - text.length, ?_⟩
  rw [List.drop_zero, Nat.sub_zero, List.take_of_length_le hcolumn, toList_left]

theorem Holds.past {after : List Char} {start next : Nat} {other : String}
    (hholds : Holds after start next other) (hfit : text.length ≤ width) :
    Holds ((left width text).toList ++ ' ' :: after) (start + (width + 1)) (next + (width + 1))
      other := by
  rw [Holds, drop_past hfit, Nat.add_sub_add_right]
  exact hholds

end Column

/-! ### The fields of a symbol -/

namespace Symbol

def mutability (symbol : Symbol) : String :=
  if symbol.isMutable then "mutable" else "immutable"

def typeText (symbol : Symbol) : String :=
  symbol.type.elim "-" ValueType.text

/-- The line has each field of the symbol in its columns. That of a value ends with the type, and
that of a function with the types of its parameters. -/
structure StandsInColumns (symbol : Symbol) (line : List Char) : Prop where
  name : Column.Holds line 0 11 symbol.name
  kind : Column.Holds line 11 20 symbol.role.kind
  mutability : Column.Holds line 20 30 symbol.mutability
  scope : Column.Holds line 30 51 symbol.scope.label
  type : Column.Holds line 51 59 symbol.typeText
  value : symbol.role = .value → line.length = 58
  parameters : ∀ types, symbol.role = .function types →
    line.drop 59 = ("(" ++ ", ".intercalate (types.map ValueType.text) ++ ")").toList

end Symbol

/-- A name is short, and has no blanks. -/
theorem IsName.fits {name : String} (hname : IsName name) :
    name.length ≤ 10 ∧ ' ' ∉ name.toList := by
  unfold IsName at hname
  rw [← String.length_toList]
  generalize name.toList = text at hname
  cases hname with
  | identifier hall hleast hmost =>
    refine ⟨Nat.succ_le_succ hmost, fun hmem => ?_⟩
    have hrun := (List.mem_cons.mp hmem).resolve_left (by decide)
    exact absurd (hall ' ' hrun) (by decide)

theorem Scope.IsNamed.fits {scope : Scope} (hnamed : scope.IsNamed) :
    scope.label.length ≤ 20 ∧ ' ' ∉ scope.label.toList := by
  rcases hnamed with rfl | ⟨name, hname, rfl⟩
  · decide
  · obtain ⟨hshort, hfree⟩ := hname.fits
    have hlength : functionLabel.length = 9 := by decide
    rw [← String.length_toList, toList_label_function, List.length_append, hlength,
      String.length_toList, List.mem_append]
    exact ⟨by omega, not_or.mpr ⟨by decide, hfree⟩⟩

theorem Role.kind_fits (role : Role) : role.kind.length ≤ 8 ∧ ' ' ∉ role.kind.toList := by
  cases role with
  | value => decide
  | function types => exact (by decide : "function".length ≤ 8 ∧ ' ' ∉ "function".toList)

namespace Symbol

theorem mutability_fits (symbol : Symbol) :
    symbol.mutability.length ≤ 9 ∧ ' ' ∉ symbol.mutability.toList := by
  unfold mutability
  split <;> decide

theorem typeText_fits (symbol : Symbol) :
    symbol.typeText.length ≤ 7 ∧ ' ' ∉ symbol.typeText.toList := by
  unfold typeText
  rcases symbol.type with _ | _ | _ <;> decide

theorem toList_text (symbol : Symbol) :
    symbol.text.toList = (Column.left 10 symbol.name).toList ++
      ' ' :: ((Column.left 8 symbol.role.kind).toList ++
        ' ' :: ((Column.left 9 symbol.mutability).toList ++
          ' ' :: ((Column.left 20 symbol.scope.label).toList ++
            ' ' :: ((Column.left 7 symbol.typeText).toList ++
              symbol.role.parameterText.toList)))) := by
  simp [text, mutability, typeText]

theorem IsNamed.standsInColumns {symbol : Symbol} (hnamed : symbol.IsNamed) :
    symbol.StandsInColumns symbol.text.toList := by
  obtain ⟨hname, -⟩ := hnamed.name.fits
  obtain ⟨hkind, -⟩ := symbol.role.kind_fits
  obtain ⟨hmutability, -⟩ := symbol.mutability_fits
  obtain ⟨hscope, -⟩ := hnamed.scope.fits
  obtain ⟨htype, -⟩ := symbol.typeText_fits
  have hlast : Column.Holds ((Column.left 7 symbol.typeText).toList ++
      symbol.role.parameterText.toList) 0 8 symbol.typeText := by
    cases symbol.role with
    | value => simpa [Role.parameterText] using Column.holds_last htype
    | function types => simpa [Role.parameterText] using Column.holds_first htype _
  rw [toList_text]
  refine ⟨Column.holds_first hname _, (Column.holds_first hkind _).past hname,
    ((Column.holds_first hmutability _).past hkind).past hname,
    (((Column.holds_first hscope _).past hmutability).past hkind).past hname,
    (((hlast.past hscope).past hmutability).past hkind).past hname,
    fun hrole => ?_, fun types hrole => ?_⟩
  · have hparameters : symbol.role.parameterText = "" := by
      rw [hrole, Role.parameterText]
    simp [Column.length_left, hname, hkind, hmutability, hscope, htype, hparameters]
  · have hparameters : symbol.role.parameterText.toList =
        ' ' :: ("(" ++ ", ".intercalate (types.map ValueType.text) ++ ")").toList := by
      simp [hrole, Role.parameterText]
    rw [hparameters]
    exact (Column.drop_past hname _ 48).trans <| (Column.drop_past hkind _ 39).trans <|
      (Column.drop_past hmutability _ 29).trans <| (Column.drop_past hscope _ 8).trans <|
      Column.drop_past htype _ 0

end Symbol

/-! ### Lines as symbols -/

/-- A blank behind a comma can be counted as part of the piece that follows. -/
theorem intercalate_comma_blank (first : List Char) (rest : List (List Char)) :
    [',', ' '].intercalate (first :: rest) =
      [','].intercalate (first :: rest.map (' ' :: ·)) := by
  induction rest generalizing first with
  | nil => rfl
  | cons second rest ih =>
    rw [List.intercalate_cons_cons, ih, List.map_cons, List.intercalate_cons_cons]
    cases rest with
    | nil => simp
    | cons third rest => simp [List.intercalate_cons_cons]

namespace ValueType

/-- The types that a text lists. -/
def listed (text : List Char) : List ValueType :=
  if text = [] then [] else (text.splitOn ',').map fun piece => ofText (piece.filter (· ≠ ' '))

theorem comma_notMem_text (type : ValueType) : ',' ∉ type.text.toList := by
  cases type <;> decide

theorem listed_intercalate (types : List ValueType) :
    listed (", ".intercalate (types.map text)).toList = types := by
  cases types with
  | nil => rfl
  | cons first rest =>
    have htext : (", ".intercalate ((first :: rest).map text)).toList =
        [','].intercalate (first.text.toList :: rest.map fun type => ' ' :: type.text.toList) := by
      rw [String.toList_intercalate, List.map_map, List.map_cons]
      exact (intercalate_comma_blank _ _).trans (by rw [List.map_map]; rfl)
    have hne : [','].intercalate
        (first.text.toList :: rest.map fun type => ' ' :: type.text.toList) ≠ [] := by
      have hfirst : first.text.toList ≠ [] := by cases first <;> decide
      cases rest <;> simp [List.intercalate_cons_cons, hfirst]
    have hpieces : ∀ piece ∈ first.text.toList :: rest.map fun type => ' ' :: type.text.toList,
        ',' ∉ piece := by
      simp [comma_notMem_text]
    have hread (type : ValueType) :
        ofText (type.text.toList.filter (· ≠ ' ')) = type ∧
          ofText ((' ' :: type.text.toList).filter (· ≠ ' ')) = type := by
      cases type <;> decide
    rw [listed, htext, if_neg hne, List.splitOn_intercalate ',' hpieces (List.cons_ne_nil _ _),
      List.map_cons, List.map_map, (hread first).1]
    exact congrArg (first :: ·)
      ((List.map_congr_left fun type _ => (hread type).2).trans (List.map_id rest))

end ValueType

namespace Symbol

/-- The symbol that a line lists, without its place. -/
def ofText (line : List Char) (location : Location) : Symbol where
  name := Column.read line 0 11
  role :=
    if Column.read line 11 20 = "function" then
      .function (ValueType.listed ((line.drop 60).dropLast))
    else .value
  type :=
    if Column.read line 51 59 = "-" then none
    else some (ValueType.ofText (Column.read line 51 59).toList)
  isMutable := Column.read line 20 30 = "mutable"
  scope := ⟨Column.read line 30 51⟩
  location := location

theorem StandsInColumns.listed_parameters {symbol : Symbol} {line : List Char}
    {types : List ValueType} (hstands : symbol.StandsInColumns line)
    (hrole : symbol.role = .function types) :
    ValueType.listed ((line.drop 60).dropLast) = types := by
  have hinside : line.drop 60 = (", ".intercalate (types.map ValueType.text)).toList ++ [')'] := by
    rw [← List.drop_drop (i := 1) (j := 59), hstands.parameters types hrole]
    simp
  rw [hinside, List.dropLast_concat, ValueType.listed_intercalate]

theorem StandsInColumns.ofText_eq {symbol : Symbol} {line : List Char}
    (hstands : symbol.StandsInColumns line) (hnamed : symbol.IsNamed) :
    ofText line symbol.location = symbol := by
  have hrole : (if symbol.role.kind = "function" then
      Role.function (ValueType.listed ((line.drop 60).dropLast)) else .value) = symbol.role := by
    cases hcase : symbol.role with
    | value => exact if_neg (by decide)
    | function types => rw [hstands.listed_parameters hcase, Role.kind, if_pos rfl]
  have hmutable : decide (symbol.mutability = "mutable") = symbol.isMutable := by
    cases hcase : symbol.isMutable <;> simp [Symbol.mutability, hcase]
  have htype : (if symbol.typeText = "-" then none else
      some (ValueType.ofText symbol.typeText.toList)) = symbol.type := by
    cases hcase : symbol.type with
    | none => simp [typeText, hcase]
    | some type =>
      have hdash : type.text ≠ "-" := by cases type <;> decide
      rw [typeText, hcase, Option.elim_some, if_neg hdash, ValueType.ofText_text]
  rw [ofText, hstands.name.read_eq hnamed.name.fits.2,
    hstands.kind.read_eq symbol.role.kind_fits.2,
    hstands.mutability.read_eq symbol.mutability_fits.2,
    hstands.scope.read_eq hnamed.scope.fits.2, hstands.type.read_eq symbol.typeText_fits.2,
    hrole, hmutable, htype]

end Symbol

/-- The symbols of any text are listed in columns: each field starts at its place, with only blanks
behind it up to the next one. A line is read back as its symbol, so that symbols with the same line
differ at most in where they are declared. -/
theorem compile_symbols_standInColumns (source : String) {symbol : Symbol}
    (hmem : symbol ∈ (compile source).table.toList) :
    symbol.StandsInColumns symbol.text.toList ∧
      Symbol.ofText symbol.text.toList symbol.location = symbol ∧
      ∀ other, ∀ second ∈ (compile other).table.toList, second.text = symbol.text →
        second.name = symbol.name ∧ second.role = symbol.role ∧
          second.isMutable = symbol.isMutable ∧ second.scope = symbol.scope ∧
          second.type = symbol.type := by
  have hnamed := isNamed_of_mem_compile hmem
  have hread := hnamed.standsInColumns.ofText_eq hnamed
  refine ⟨hnamed.standsInColumns, hread, fun other second hsecond htext => ?_⟩
  have hnamed' := isNamed_of_mem_compile hsecond
  have hread' := hnamed'.standsInColumns.ofText_eq hnamed'
  rw [htext] at hread'
  rw [← hread, ← hread']
  exact ⟨rfl, rfl, rfl, rfl, rfl⟩

/-- A function and a variable in it, with names that are as long as names can be. -/
def longestNames : String :=
  "action @abcdefghi(integer @n, string @text) \x7b variable @total2345 = @n + 2.5 # " ++
    "return @total2345 # \x7d"

theorem compile_symbols_standInColumns_longestNames :
    ∃ symbol ∈ (compile longestNames).table.toList,
      symbol.text =
        "@abcdefghi function immutable unit                 decimal (integer, string)" ∧
      symbol.StandsInColumns symbol.text.toList ∧
      Symbol.ofText symbol.text.toList symbol.location = symbol := by
  have hlisted : "@abcdefghi function immutable unit                 decimal (integer, string)" ∈
      (compile longestNames).table.toList.map Symbol.text := by
    decide +kernel
  obtain ⟨symbol, hmem, htext⟩ := List.mem_map.mp hlisted
  obtain ⟨hcolumns, hread, -⟩ := compile_symbols_standInColumns longestNames hmem
  exact ⟨symbol, hmem, htext, hcolumns, hread⟩

end FrontEnd
