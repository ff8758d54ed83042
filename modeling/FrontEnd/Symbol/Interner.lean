import Std.Data.TreeMap

/-!
Interning. A string that is interned gets a number and is known by it from then on. Which numbers
are given out does not matter; what counts is that different strings never share one.
-/

namespace FrontEnd

/-- Ways to keep strings under numbers. -/
class Interner (ι : Type) where
  /-- No string has a number. -/
  empty : ι
  /-- The number of a string, which gets one if it has none yet. -/
  intern : ι → String → Nat × ι
  /-- The number of a string that has been interned. -/
  get? : ι → String → Option Nat
  get?_empty (name : String) : get? empty name = none
  /-- Interning gives a number to one string and leaves all others as they are. -/
  get?_intern (names : ι) (name other : String) :
    get? (intern names name).2 other =
      if name = other then some (intern names name).1 else get? names other
  /-- A string that has a number keeps it. -/
  intern_of_get? {names : ι} {name : String} {id : Nat} :
    get? names name = some id → (intern names name).1 = id
  /-- Different strings have different numbers. -/
  get?_inj {names : ι} {first second : String} {id : Nat} :
    get? names first = some id → get? names second = some id → first = second

/-- Strings numbered in the order in which they came. -/
structure Names where
  private mk ::
  ids : Std.TreeMap String Nat
  lt_size {name : String} {id : Nat} : ids[name]? = some id → id < ids.size
  injective {first second : String} {id : Nat} :
    ids[first]? = some id → ids[second]? = some id → first = second

namespace Names

def empty : Names where
  ids := ∅
  lt_size := by simp
  injective := by simp

/-- A new string gets the next number. -/
def intern (names : Names) (name : String) : Nat × Names :=
  match hfree : names.ids[name]? with
  | some id => (id, names)
  | none => (names.ids.size, {
      ids := names.ids.insert name names.ids.size
      lt_size := by
        intro other id hid
        have hsize : (names.ids.insert name names.ids.size).size = names.ids.size + 1 := by
          rw [Std.TreeMap.size_insert, if_neg]
          rw [Std.TreeMap.contains_eq_isSome_getElem?, hfree]
          simp
        rw [Std.TreeMap.getElem?_insert] at hid
        rw [hsize]
        split at hid
        · obtain rfl := Option.some.inj hid
          omega
        · have := names.lt_size hid
          omega
      injective := by
        intro first second id hfirst hsecond
        rw [Std.TreeMap.getElem?_insert] at hfirst hsecond
        simp only [Std.compare_eq_iff_eq] at hfirst hsecond
        have hnew {other : String} (hother : names.ids[other]? = some names.ids.size) : False := by
          have := names.lt_size hother
          omega
        by_cases hname : name = first <;> by_cases hname' : name = second
        · exact hname.symm.trans hname'
        · simp only [if_pos hname, if_neg hname', Option.some.injEq] at hfirst hsecond
          subst hfirst
          exact (hnew hsecond).elim
        · simp only [if_neg hname, if_pos hname', Option.some.injEq] at hfirst hsecond
          subst hsecond
          exact (hnew hfirst).elim
        · rw [if_neg hname] at hfirst
          rw [if_neg hname'] at hsecond
          exact names.injective hfirst hsecond })

instance : Interner Names where
  empty := empty
  intern := intern
  get? names name := names.ids[name]?
  get?_empty name := by simp [empty]
  get?_intern names name other := by
    unfold intern
    split
    · next id hid =>
      by_cases hname : name = other
      · rw [if_pos hname, ← hname, hid]
      · rw [if_neg hname]
    · rw [Std.TreeMap.getElem?_insert]
      simp only [Std.compare_eq_iff_eq]
  intern_of_get? {names name id} hid := by
    unfold intern
    split
    · next found hfound => exact Option.some.inj (hfound.symm.trans hid)
    · next hfree => rw [hfree] at hid; cases hid
  get?_inj := Names.injective _

end Names

end FrontEnd
