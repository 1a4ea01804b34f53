import Dashboard.Markdown.Widgets

/-!
# The parts of a value in the order of its text

A list or mapping stands in front of what is in it.  The widget of a type is the first
part that is a mapping with this type.
-/

namespace Dashboard.Value

mutual

/-- A value and all that is in it, in the order of the text. -/
def parts : Value → List Value
  | .map entries => .map entries :: partsOfEntries entries
  | .seq items => .seq items :: partsOfItems items
  | v => [v]

def partsOfItems : List Value → List Value
  | [] => []
  | v :: vs => v.parts ++ partsOfItems vs

def partsOfEntries : List (String × Value) → List Value
  | [] => []
  | (_, v) :: m => v.parts ++ partsOfEntries m

end

/-- A mapping whose text under `type` is this type, but for blanks around it. -/
def isOfType (type : String) : Value → Bool
  | .map entries =>
    match Entries.get? entries "type" with
    | some (.str t) => Text.trim t = type
    | _ => false
  | _ => false

variable {type : String}

mutual

/-- The widget of a type is the first part of this type. -/
theorem findWidget?_eq_find? (v : Value) :
    v.findWidget? type = v.parts.find? (isOfType type) := by
  match v with
  | .null | .bool _ | .int _ | .float _ | .str _ =>
      rfl
  | .seq items =>
      rw [findWidget?, parts, List.find?_cons_of_neg (by simp [isOfType])]
      exact findInItems?_eq_find? items
  | .map entries =>
      have hinside := findInEntries?_eq_find? entries
      rw [findWidget?, parts, List.find?_cons, isOfType]
      cases Entries.get? entries "type" with
      | none =>
          exact hinside
      | some w =>
          cases w with
          | str t =>
              by_cases ht : Text.trim t = type
              · simp [ht]
              · simpa [ht] using hinside
          | null | bool _ | int _ | float _ | seq _ | map _ =>
              exact hinside

theorem findInItems?_eq_find? (vs : List Value) :
    findInItems? type vs = (partsOfItems vs).find? (isOfType type) := by
  match vs with
  | [] =>
      rfl
  | v :: vs =>
      rw [findInItems?, partsOfItems, List.find?_append, findWidget?_eq_find? v,
        findInItems?_eq_find? vs]
      cases v.parts.find? (isOfType type) <;> rfl

theorem findInEntries?_eq_find? (m : List (String × Value)) :
    findInEntries? type m = (partsOfEntries m).find? (isOfType type) := by
  match m with
  | [] =>
      rfl
  | (k, v) :: m =>
      rw [findInEntries?, partsOfEntries, List.find?_append, findWidget?_eq_find? v,
        findInEntries?_eq_find? m]
      cases v.parts.find? (isOfType type) <;> rfl

end

end Dashboard.Value
