import Dashboard.Text.Blank
import Dashboard.Value.Basic

/-!
# Reference data

What the documentation knows about widgets and about ready-made pages.  The
editor reads it to complete types, to fill forms with examples and to insert
pages.  Types are compared without the blanks around them; of several entries
for a type the first one counts.  The list of known types is sorted and has no
type twice, so a type is looked up in it by halving; where the documentation of
a type stands is kept in an index of its own.
-/

namespace Dashboard

/-- The documentation of one widget type. -/
structure WidgetDoc where
  name : String := ""
  type : String
  markdown : String := ""
  /-- A widget of this type as the documentation shows it. -/
  example? : Option Value := none
deriving DecidableEq, Inhabited

/-- A ready-made page. -/
structure Template where
  name : String
  previewImage : Option String := none
  /-- The version of the dashboard that the page needs. -/
  requires : Option String := none
  yaml : String
deriving DecidableEq, Repr, Inhabited

/-- Documented widgets, ready-made pages, and types that have no documentation. -/
structure Reference where
  docs : List WidgetDoc := []
  templates : List Template := []
  bareTypes : List String := []
deriving DecidableEq, Inhabited

/-- The name to show: the type stands in for a blank name. -/
def WidgetDoc.displayName (d : WidgetDoc) : String :=
  if Text.isBlankText d.name then d.type else d.name

/-- Equality as data. -/
def WidgetDoc.same (d e : WidgetDoc) : Bool :=
  d.name == e.name && d.type == e.type && d.markdown == e.markdown &&
  match d.example?, e.example? with
  | some v, some w => v.same w
  | none, none => true
  | _, _ => false

namespace Reference

/-- Put a text into its place of a sorted list, unless it is there. -/
def insertSorted (s : String) : List String → List String
  | [] => [s]
  | t :: ts => if s = t then t :: ts else if s < t then s :: t :: ts else t :: insertSorted s ts

/-- The distinct texts in their order. -/
def sortedDistinct (texts : List String) : List String :=
  texts.foldr insertSorted []

/-- The known types, sorted. -/
def types (r : Reference) : List String :=
  sortedDistinct
    (((r.docs.map WidgetDoc.type ++ r.bareTypes).map Text.trim).filter fun t => !t.isEmpty)

/-- A text stands in a sorted array, at a place from `low` on and before `high`.
The text in the middle tells which half is searched on. -/
def standsBetween (sorted : Array String) (s : String) (low high : Nat) : Bool :=
  if low < high then
    let middle := low + (high - low) / 2
    match sorted[middle]? with
    | some t =>
      if t = s then true
      else if t < s then standsBetween sorted s (middle + 1) high
      else standsBetween sorted s low middle
    | none => false
  else false
termination_by high - low

/-- The type is known, blanks around it apart. -/
def knows (r : Reference) (type : String) : Bool :=
  let sorted := r.types.toArray
  standsBetween sorted (Text.trim type) 0 sorted.size

/-- The index of types after one more documentation, which stands at a place.  A type
that is in the index keeps its place. -/
def addPlace (places : Entries Nat) (e : WidgetDoc × Nat) : Entries Nat :=
  let type := Text.trim e.1.type
  if type.isEmpty || places.has type then places else places.put type e.2

/-- The places of the documentation by type. -/
def places (r : Reference) : Entries Nat :=
  r.docs.zipIdx.foldl addPlace []

/-- The documentation of a type. -/
def doc? (r : Reference) (type : String) : Option WidgetDoc :=
  (r.places.get? (Text.trim type)).bind fun i => r.docs[i]?

/-- The example for a type. -/
def example? (r : Reference) (type : String) : Option Value :=
  (r.doc? type).bind WidgetDoc.example?

/-- The ready-made page of that very name. -/
def template? (r : Reference) (name : String) : Option Template :=
  r.templates.find? fun t => t.name == name

/-- Nothing is known. -/
def isEmpty (r : Reference) : Bool :=
  r.docs.isEmpty && r.templates.isEmpty && r.types.isEmpty

/-- Nothing else than the inserted text comes into a sorted list. -/
theorem mem_insertSorted {s t : String} {ts : List String} :
    t ∈ insertSorted s ts ↔ t = s ∨ t ∈ ts := by
  induction ts with
  | nil => simp [insertSorted]
  | cons u us ih =>
    simp only [insertSorted]
    split
    · next h => simp [h]
    · split
      · simp
      · simp only [List.mem_cons, ih]
        exact ⟨fun h => h.elim (fun h => .inr (.inl h)) fun h => h.imp_right .inr,
          fun h => h.elim (fun h => .inr (.inl h)) fun h => h.imp_right .inr⟩

/-- Sorting loses nothing and adds nothing. -/
theorem mem_sortedDistinct {t : String} {texts : List String} :
    t ∈ sortedDistinct texts ↔ t ∈ texts := by
  induction texts with
  | nil => simp [sortedDistinct]
  | cons u us ih =>
    rw [sortedDistinct, List.foldr_cons, mem_insertSorted, List.mem_cons]
    exact or_congr_right ih

end Reference

end Dashboard
