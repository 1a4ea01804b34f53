import Dashboard.Double.Text
import Dashboard.Entries

/-!
# Values of widget options

An option holds null, a truth value, an integer of 64 bits, a number, a text,
or a list or mapping of values.  Mappings keep the order of their entries.

`Value.same` is the equality of values as data: the order of the entries of a
mapping does not count, both zeros are equal, and NaN equals nothing.
Equality as Lean data is finer.
-/

namespace Dashboard

/-- A value of an option tree. -/
inductive Value where
  | null
  | bool (b : Bool)
  | int (n : Int64)
  | float (x : Double)
  | str (s : String)
  | seq (items : List Value)
  | map (entries : List (String × Value))
deriving Inhabited

/-- Entries of a mapping, in order. -/
abbrev Mapping := Entries Value

/-- Further entries, put one after the other. -/
def Mapping.putAll (m more : Mapping) : Mapping :=
  more.foldl (fun m e => Entries.put m e.1 e.2) m

/-- The items of a list under a key; anything else counts as the empty list. -/
def Mapping.itemsAt (m : Mapping) (key : String) : List Value :=
  match Entries.get? m key with
  | some (.seq items) => items
  | _ => []

namespace Value

mutual

/-- Equality of values is decided by comparing the trees. -/
def beq : Value → Value → Bool
  | .null, .null => true
  | .bool a, .bool b => a == b
  | .int a, .int b => a == b
  | .float a, .float b => decide (a = b)
  | .str a, .str b => a == b
  | .seq a, .seq b => beqItems a b
  | .map a, .map b => beqEntries a b
  | _, _ => false

/-- Item by item. -/
def beqItems : List Value → List Value → Bool
  | [], [] => true
  | v :: vs, w :: ws => beq v w && beqItems vs ws
  | _, _ => false

/-- Entry by entry. -/
def beqEntries : List (String × Value) → List (String × Value) → Bool
  | [], [] => true
  | (k, v) :: m, (l, w) :: n => k == l && beq v w && beqEntries m n
  | _, _ => false

end

mutual

theorem eq_of_beq {v w : Value} (h : beq v w = true) : v = w := by
  match v, w with
  | .null, .null => rfl
  | .bool a, .bool b => simp_all [beq]
  | .int a, .int b => simp_all [beq]
  | .float a, .float b => simp_all [beq]
  | .str a, .str b => simp_all [beq]
  | .seq a, .seq b =>
    rw [beq] at h
    rw [items_eq_of_beq h]
  | .map a, .map b =>
    rw [beq] at h
    rw [entries_eq_of_beq h]
  | .null, .bool _ | .null, .int _ | .null, .float _ | .null, .str _ | .null, .seq _
  | .null, .map _ | .bool _, .null | .bool _, .int _ | .bool _, .float _
  | .bool _, .str _ | .bool _, .seq _ | .bool _, .map _ | .int _, .null
  | .int _, .bool _ | .int _, .float _ | .int _, .str _ | .int _, .seq _
  | .int _, .map _ | .float _, .null | .float _, .bool _ | .float _, .int _
  | .float _, .str _ | .float _, .seq _ | .float _, .map _ | .str _, .null
  | .str _, .bool _ | .str _, .int _ | .str _, .float _ | .str _, .seq _
  | .str _, .map _ | .seq _, .null | .seq _, .bool _ | .seq _, .int _
  | .seq _, .float _ | .seq _, .str _ | .seq _, .map _ | .map _, .null
  | .map _, .bool _ | .map _, .int _ | .map _, .float _ | .map _, .str _
  | .map _, .seq _ => simp [beq] at h

theorem items_eq_of_beq {a b : List Value} (h : beqItems a b = true) : a = b := by
  match a, b with
  | [], [] => rfl
  | v :: vs, w :: ws =>
    simp only [beqItems, Bool.and_eq_true] at h
    rw [eq_of_beq h.1, items_eq_of_beq h.2]
  | [], _ :: _ | _ :: _, [] => simp [beqItems] at h

theorem entries_eq_of_beq {a b : List (String × Value)} (h : beqEntries a b = true) :
    a = b := by
  match a, b with
  | [], [] => rfl
  | (k, v) :: m, (l, w) :: n =>
    simp only [beqEntries, Bool.and_eq_true, beq_iff_eq] at h
    rw [h.1.1, eq_of_beq h.1.2, entries_eq_of_beq h.2]
  | [], _ :: _ | _ :: _, [] => simp [beqEntries] at h

end

mutual

theorem beq_self (v : Value) : beq v v = true := by
  match v with
  | .null | .bool _ | .int _ | .float _ | .str _ => simp [beq]
  | .seq items =>
    rw [beq]
    exact beqItems_self items
  | .map entries =>
    rw [beq]
    exact beqEntries_self entries

theorem beqItems_self (items : List Value) : beqItems items items = true := by
  match items with
  | [] => rfl
  | v :: vs => simp [beqItems, beq_self v, beqItems_self vs]

theorem beqEntries_self (entries : List (String × Value)) :
    beqEntries entries entries = true := by
  match entries with
  | [] => rfl
  | (k, v) :: m => simp [beqEntries, beq_self v, beqEntries_self m]

end

instance : DecidableEq Value := fun v w =>
  if h : beq v w = true then .isTrue (eq_of_beq h)
  else .isFalse fun e => h (e ▸ beq_self v)

mutual

/-- Equality as data: the order of entries and the sign of zero do not count,
and NaN equals nothing. -/
def same : Value → Value → Bool
  | .null, .null => true
  | .bool a, .bool b => a == b
  | .int a, .int b => a == b
  | .float a, .float b => a.same b
  | .str a, .str b => a == b
  | .seq a, .seq b => sameItems a b
  | .map a, .map b => a.length == b.length && sameEntries a b
  | _, _ => false

/-- Item by item. -/
def sameItems : List Value → List Value → Bool
  | [], [] => true
  | v :: vs, w :: ws => same v w && sameItems vs ws
  | _, _ => false

/-- Every entry has an equal one under its name. -/
def sameEntries : List (String × Value) → Entries Value → Bool
  | [], _ => true
  | (k, v) :: m, n =>
    (match n.get? k with
      | some w => same v w
      | none => false) && sameEntries m n

end

/-- Lists and mappings, as opposed to scalars. -/
def isContainer : Value → Bool
  | .seq _ | .map _ => true
  | _ => false

/-- The text of a text value. -/
def asText? : Value → Option String
  | .str s => some s
  | _ => none

/-- The text of a number in a configuration file. -/
def floatText : Double → List Char
  | .nan => ".nan".toList
  | .infinity false => ".inf".toList
  | .infinity true => "-.inf".toList
  | .finite s m k h => Double.finiteText Double.plainLayout s m k h

/-- The decimal text of an integer. -/
def intText (n : Int64) : List Char :=
  (if n.toInt < 0 then ['-'] else []) ++ Nat.toDigits 10 n.toInt.natAbs

/-- The text of a scalar as a user would type it; a container has none. -/
def scalarText? : Value → Option String
  | .null => some "null"
  | .bool true => some "true"
  | .bool false => some "false"
  | .int n => some (String.ofList (intText n))
  | .float x => some (String.ofList (floatText x))
  | .str s => some s
  | .seq _ | .map _ => none

/-- What a value is, in one word. -/
def kind : Value → String
  | .null => "null"
  | .bool _ => "bool"
  | .int _ => "integer"
  | .float _ => "float"
  | .str _ => "string"
  | .seq _ => "sequence"
  | .map _ => "mapping"

/-- Exactly the containers have no scalar text. -/
theorem scalarText?_eq_none_iff (v : Value) :
    v.scalarText? = none ↔ v.isContainer = true := by
  cases v with
  | bool b => cases b <;> simp [scalarText?, isContainer]
  | _ => simp [scalarText?, isContainer]

end Value

end Dashboard
