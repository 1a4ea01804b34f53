import Dashboard.Proofs.Editor.Dialogs

/-!
# Failures at places that exist

An operation of the editor reports an index out of range only for a page, a
column or a widget that does not exist.  Whatever else it is refused for, be it
a form, a path of an option, a template or a file, is another error.
-/

namespace Dashboard

/-- An index was out of range. -/
def Error.isOutOfRange : Error → Bool
  | indexOutOfRange .. => true
  | _ => false

/-- A failure is no index out of range. -/
def InRange {α : Type} (x : Except Error α) : Prop :=
  ∀ e, x = .error e → e.isOutOfRange = false

section Rules

variable {α β : Type}
variable {x : Except Error α}

theorem inRange_ok (a : α) : InRange (.ok a : Except Error α) := by
  intro e h
  cases h

theorem inRange_error
    {e : Error}
    (h : e.isOutOfRange = false) :
    InRange (.error e : Except Error α) := by
  intro e' h'
  cases h'
  exact h

theorem inRange_of_eq_ok
    {a : α}
    (h : x = .ok a) :
    InRange x :=
  h ▸ inRange_ok a

theorem InRange.bind
    {f : α → Except Error β}
    (hx : InRange x)
    (hf : ∀ a, InRange (f a)) :
    InRange (x >>= f) := by
  cases x with
  | ok a =>
      exact hf a
  | error e =>
      exact inRange_error (hx e rfl)

theorem InRange.map
    (hx : InRange x)
    (f : α → β) :
    InRange (x.map f) := by
  cases x with
  | ok a =>
      exact inRange_ok (f a)
  | error e =>
      exact inRange_error (hx e rfl)

theorem InRange.mapError
    {f : Error → Error}
    (hx : InRange x)
    (hf : ∀ e, e.isOutOfRange = false → (f e).isOutOfRange = false) :
    InRange (x.mapError f) := by
  cases x with
  | ok a =>
      exact inRange_ok a
  | error e =>
      exact inRange_error (hf e (hx e rfl))

theorem inRange_mapM
    {f : α → Except Error β}
    (hf : ∀ a, InRange (f a))
    (xs : List α) :
    InRange (xs.mapM f) := by
  induction xs with
  | nil =>
      exact inRange_ok []
  | cons x xs ih =>
      rw [List.mapM_cons]
      exact (hf x).bind fun y => ih.bind fun ys => inRange_ok (y :: ys)

/-- A fault of what was typed is no index out of range. -/
theorem OnlyInputFaults.inRange (h : OnlyInputFaults x) : InRange x := by
  intro e he
  have hinput := h e he
  cases e with
  | indexOutOfRange level index length =>
      cases hinput
  | _ =>
      rfl

end Rules

/-! ## Options -/

section Options

theorem inRange_splitLast (p : Path) : InRange (Value.splitLast p) := by
  cases p with
  | nil =>
      exact inRange_error rfl
  | cons step p =>
      exact inRange_ok _

theorem isOutOfRange_stepError
    (v : Value)
    (before : Path)
    (step : Step) :
    (v.stepError before step).isOutOfRange = false := by
  rw [Value.stepError]
  split
  · rfl
  · rfl

theorem inRange_alterFrom
    {α : Type}
    {op : Value → Except Error (α × Value)}
    (hop : ∀ v, InRange (op v))
    (before : Path)
    (v : Value)
    (p : Path) :
    InRange (Value.alterFrom op before v p) := by
  induction p generalizing before v with
  | nil =>
      exact hop v
  | cons step p ih =>
      rw [Value.alterFrom]
      split
      · next w hchild =>
          split
          · exact inRange_ok _
          · next e he =>
              exact inRange_error (ih (before ++ [step]) w e he)
      · exact inRange_error (isOutOfRange_stepError v before step)

theorem inRange_insertChild
    (parent : Path)
    (step : Step)
    (w v : Value) :
    InRange (Value.insertChild parent step w v) := by
  rw [Value.insertChild.eq_def]
  split
  · split
    · split
      · exact inRange_error rfl
      · exact inRange_ok _
    · exact inRange_error rfl
  · split
    · split
      · exact inRange_error rfl
      · exact inRange_ok _
    · exact inRange_error rfl
  · exact inRange_error rfl

theorem inRange_removeChild
    (parent : Path)
    (step : Step)
    (v : Value) :
    InRange (Value.removeChild parent step v) := by
  rw [Value.removeChild]
  split
  · exact inRange_error (isOutOfRange_stepError v parent step)
  · split
    · exact inRange_ok _
    · exact inRange_ok _
    · exact inRange_error (isOutOfRange_stepError _ parent step)

theorem inRange_resolveFrom
    (before : Path)
    (v : Value)
    (p : Path) :
    InRange (Value.resolveFrom before v p) := by
  induction p generalizing before v with
  | nil =>
      exact inRange_ok v
  | cons step p ih =>
      rw [Value.resolveFrom]
      split
      · exact ih _ _
      · exact inRange_error (isOutOfRange_stepError v before step)

theorem inRange_checkReserved (p : Path) : InRange (Widget.checkReserved p) := by
  rw [Widget.checkReserved.eq_def]
  split
  · split
    · exact inRange_error rfl
    · exact inRange_ok _
  · exact inRange_ok _

theorem inRange_insertOption
    (w : Widget)
    (p : Path)
    (v : Value) :
    InRange (w.insertOption p v) := by
  refine (inRange_checkReserved p).bind fun _ => InRange.bind ?_ fun _ => inRange_ok _
  refine (inRange_splitLast p).bind fun (parent, step) => InRange.bind ?_ fun _ => inRange_ok _
  exact inRange_alterFrom (inRange_insertChild parent step v) [] w.tree parent

theorem inRange_setOption
    (w : Widget)
    (p : Path)
    (v : Value) :
    InRange (w.setOption p v) := by
  refine (inRange_checkReserved p).bind fun _ => InRange.bind ?_ fun _ => inRange_ok _
  refine (inRange_splitLast p).bind fun _ => ?_
  exact inRange_alterFrom (fun _ => inRange_ok _) [] w.tree p

theorem inRange_deleteOption
    (w : Widget)
    (p : Path) :
    InRange (w.deleteOption p) := by
  refine InRange.bind ?_ fun _ => inRange_ok _
  refine (inRange_splitLast p).bind fun (parent, step) => ?_
  exact inRange_alterFrom (inRange_removeChild parent step) [] w.tree parent

theorem isOutOfRange_rebased
    (head : String)
    (e : Error)
    (h : e.isOutOfRange = false) :
    (Widget.rebased head e).isOutOfRange = false := by
  cases e with
  | pathNotFound rest | notAContainer rest =>
      rfl
  | _ =>
      exact h

theorem inRange_getOption
    (w : Widget)
    (p : Path) :
    InRange (w.getOption p) := by
  rw [Widget.getOption.eq_def]
  split
  · split
    · exact inRange_error rfl
    · exact (inRange_resolveFrom _ _ _).mapError (isOutOfRange_rebased _)
  · exact inRange_error rfl

theorem inRange_readPath (text : String) : InRange (Path.read text) := by
  rw [Path.read]
  split
  · exact inRange_ok _
  · exact inRange_error rfl

end Options

/-! ## Files and templates -/

section Texts

theorem inRange_readSize (value : Option Value) : InRange (ColumnSize.ofValue value) := by
  rw [ColumnSize.ofValue.eq_def]
  split
  · exact inRange_ok _
  · exact inRange_ok _
  · exact (onlyInputFaults_readSize _).inRange
  · exact inRange_error rfl

theorem inRange_parse (text : String) : InRange (Document.parse text) := by
  have hcolumn : ∀ m, InRange (Column.ofMapping m) := fun m =>
    (inRange_readSize _).bind fun _ => inRange_ok _
  have hpage : ∀ m, InRange (Page.ofMapping m) := fun m =>
    (inRange_mapM hcolumn _).bind fun _ => inRange_ok _
  rw [Document.parse]
  split
  · next v hread =>
      rw [Document.ofValue.eq_def]
      split
      · split
        · exact (inRange_mapM hpage _).bind fun _ => inRange_ok _
        · exact inRange_error rfl
      · exact inRange_error rfl
  · exact inRange_error rfl

namespace Editor

variable (ed : Editor)

theorem inRange_insertTemplate (name : String) : InRange (ed.insertTemplate name).result := by
  have hdocument : ∀ yaml, InRange (templateDocument name yaml) := by
    intro yaml
    rw [templateDocument]
    split
    · exact inRange_error rfl
    · exact inRange_error rfl
    · exact inRange_parse yaml
  rw [insertTemplate]
  split
  · exact inRange_error rfl
  · next t ht =>
      simp only
      split
      · next e he =>
          exact inRange_error (hdocument t.yaml e he)
      · exact inRange_ok _

theorem inRange_loadText (text : String) : InRange (ed.loadText text).result := by
  simp only [loadText]
  split
  · next e he =>
      exact inRange_error (inRange_parse text e he)
  · exact inRange_ok _

theorem inRange_load
    (fs : Files)
    (path : String) :
    InRange (ed.load fs path).result := by
  rw [load]
  split
  · exact inRange_error rfl
  · next text hread =>
      split
      · exact inRange_ok _
      · exact ed.inRange_loadText text

theorem inRange_save
    (fs : Files)
    (path : String) :
    InRange (ed.save fs path) := by
  rw [save]
  split
  · exact inRange_error rfl
  · cases fs.write path ed.document.renderFile with
    | ok fs' =>
        exact inRange_ok fs'
    | error fault =>
        exact inRange_error rfl

end Editor

end Texts

/-! ## Changes of what exists -/

section Changes

namespace Editor

variable {ed : Editor}
variable {p c i : Nat}

theorem inRange_adopt
    {α : Type}
    {x : Except Error (Change α)}
    (h : InRange x) :
    InRange (ed.adopt x).result := by
  rw [result_adopt]
  exact (h.map changed).map (adopted ed)

theorem inRange_deletePage
    {page : Page}
    (h : ed.document.page p = .ok page) :
    InRange (ed.deletePage p).result := by
  refine inRange_adopt (InRange.map ?_ _)
  exact InRange.bind ((inRange_of_eq_ok h).bind fun _ => inRange_ok _) fun _ => inRange_ok _

theorem inRange_deleteColumn
    {column : Column}
    (h : ed.document.column p c = .ok column) :
    InRange (ed.deleteColumn p c).result := by
  obtain ⟨page, hpage, hcolumn⟩ := bind_eq_ok.1 h
  refine inRange_adopt (InRange.map (fun e he => ?_) _)
  have hremove := Document.error_of_changeColumns hpage he
  exact (inRange_of_eq_ok hcolumn).bind (fun _ => inRange_ok _) e hremove

theorem inRange_deleteWidget
    {w : Widget}
    (h : ed.document.widget p c i = .ok w) :
    InRange (ed.deleteWidget p c i).result := by
  obtain ⟨column, hcolumn, hwidget⟩ := bind_eq_ok.1 h
  refine inRange_adopt (InRange.map (fun e he => ?_) _)
  have hremove := Document.error_of_changeWidgets hcolumn he
  exact (inRange_of_eq_ok hwidget).bind (fun _ => inRange_ok _) e hremove

/-- A change of a widget that exists is refused only by itself. -/
theorem inRange_changeWidget
    {α : Type}
    {w : Widget}
    {change : Widget → Except Error (α × Widget)}
    (h : ed.document.widget p c i = .ok w)
    (hchange : InRange (change w)) :
    InRange (ed.adopt ((ed.document.changeWidget p c i change).map quiet)).result :=
  inRange_adopt (InRange.map (fun e he => hchange e (Document.error_of_changeWidget h he)) _)

/-- Asking goes on after every fault of what was typed, so that there is no other
end than an accepted answer or giving up. -/
theorem askUntilValid_ne_error
    {α β σ : Type}
    {prompt : Prompt σ α}
    {accept : α → Except Error β}
    (hinput : ∀ a, OnlyInputFaults (accept a))
    (shown : α)
    (reason : Option Error)
    (s : σ)
    (e : Error) :
    (prompt.askUntilValid accept shown reason s).1 ≠ .error e := by
  fun_induction Prompt.askUntilValid prompt accept shown reason s with
  | case1 shown reason s s' hask =>
      intro h
      cases h
  | case2 shown reason s a s' hask b hb =>
      intro h
      cases h
  | case3 shown reason s a s' hask e' he' hu ih =>
      exact ih
  | case4 shown reason s a s' hask e' he' hu =>
      exact absurd (hinput a e' he') hu

/-- A dialog about a place that exists does not fail at all. -/
theorem run_ne_error
    {α β σ : Type}
    {k : Dialog α β}
    (hplace : ed.document.outOfRange? k.place = none)
    (prompt : Prompt σ α)
    (s : σ)
    (e : Error) :
    (k.run ed prompt s).1 ≠ .error e := by
  rw [← Dialog.errorOf?_initial] at hplace
  cases hinitial : k.initial ed.document with
  | error e' =>
      rw [hinitial] at hplace
      cases hplace
  | ok shown =>
      rw [Dialog.run_fst hinitial]
      intro h
      cases hasked : (prompt.askUntilValid (k.direct ed.document) shown none s).1 with
      | ok o =>
          rw [hasked] at h
          cases h
      | error e' =>
          exact askUntilValid_ne_error (Dialog.onlyInputFaults_direct hinitial) _ _ _ _ hasked

end Editor

end Changes

end Dashboard
