import Dashboard.Proofs.Editor.Reachable
import Dashboard.Proofs.Session.Turns

/-!
# The template that was picked

The menu of templates gives a place in the list of their names, but what is inserted is
looked up by name: of several templates with one name always the first.  Main statement:
the pages of the picked template are the ones that are inserted, exactly if the first
template of its name, should it be one that can be read, has the same pages.
-/

namespace Dashboard

/-! ## What is written to the output -/

namespace Shell

theorem out_note
    (e : Log.Event)
    (s : Shell) :
    (s.note e).out = s.out := by
  unfold note
  split <;> rfl

theorem out_noteAll
    (events : List Log.Event)
    (s : Shell) :
    (s.noteAll events).out = s.out := by
  induction events generalizing s with
  | nil =>
      rfl
  | cons e events ih =>
      exact (ih _).trans (out_note e s)

/-- After a question nothing has been written yet. -/
theorem out_of_askSelect
    {s s' : Shell}
    {message : String}
    {options : List String}
    {cursor : Nat}
    {help : Option String}
    {r : Reply Nat}
    (h : s.askSelect message options cursor help = (r, s')) :
    s'.out = [] := by
  rw [askSelect, ask.eq_def] at h
  split at h <;> cases h <;> rfl

theorem outText_say
    {s : Shell}
    (h : s.out = [])
    (line : String) :
    (s.say line).outText = line ++ "\n" := by
  simp [say, write, outText, h, String.join]

end Shell

/-! ## Templates by name -/

namespace Reference

variable {r : Reference}
variable {t f : Template}

/-- The first template of this name has the pages of this one, if it can be read. -/
def NamesPagesOf (r : Reference) (t : Template) : Prop :=
  ∀ f more, r.template? t.name = some f → Document.parse f.yaml = .ok more →
    ∃ own, Document.parse t.yaml = .ok own ∧ own.pages = more.pages

theorem exists_template?_of_mem
    (h : t ∈ r.templates) :
    ∃ f, r.template? t.name = some f := by
  refine Option.isSome_iff_exists.1 ?_
  rw [template?, List.find?_isSome]
  exact ⟨t, h, beq_self_eq_true _⟩

end Reference

namespace Editor

variable {ed : Editor}
variable {name : String}
variable {f : Template}

theorem templateDocument_eq_ok_iff
    {yaml : String}
    {d : Document} :
    templateDocument name yaml = .ok d ↔ Document.parse yaml = .ok d := by
  rw [templateDocument]
  split
  · next h =>
      simp [h]
  · next h =>
      simp [h]
  · rfl

theorem result_insertTemplate_of_ok
    {more : Document}
    (hfirst : ed.reference.template? name = some f)
    (hparse : Document.parse f.yaml = .ok more) :
    (ed.insertTemplate name).result =
      .ok (more.pages.length, ed.withDocument (ed.document.appendPages more).2) := by
  simp only [insertTemplate, hfirst, templateDocument_eq_ok_iff.2 hparse]
  rfl

theorem result_insertTemplate_of_error
    (hfirst : ed.reference.template? name = some f)
    (hparse : ∀ more, Document.parse f.yaml ≠ .ok more) :
    ∃ e, (ed.insertTemplate name).result = .error e := by
  simp only [insertTemplate, hfirst]
  split
  · next e _ =>
      exact ⟨e, rfl⟩
  · next more hmore =>
      exact absurd (templateDocument_eq_ok_iff.1 hmore) (hparse more)

end Editor

/-! ## The menu of templates -/

namespace Session

open Activity

/-- The entries of the menu of templates. -/
def templateNames (s : Session) : List String :=
  s.editor.reference.templates.map Template.name

/-- The line that tells how many pages were inserted. -/
def insertedLine (name : String) (n : Nat) : String :=
  "Inserted " ++ toString n ++ " page(s) from '" ++ name ++ "'"

/-- The menu of templates is answered with a place, which leaves a shell. -/
def PicksTemplate (d : Desk) (i : Nat) (shell : Shell) : Prop :=
  d.shell.askSelect "Template:" d.session.templateNames 0 none = (.submitted i, shell)

/-- Pages were put behind those of the document, and the first of them was selected. -/
structure Appended (name : String) (more : List Page) (d d' : Desk) : Prop where
  pages : d'.session.editor.document.pages = d.session.editor.document.pages ++ more
  settings : d'.session.editor.document.settings = d.session.editor.document.settings
  reported : d'.shell.outText = insertedLine name more.length ++ "\n"
  selected : more ≠ [] →
    d'.session.selection = .pageOnly d.session.editor.document.pages.length

/-- The template is the one that was inserted: what an action leaves at a desk is settled
by reading this template. -/
structure Inserts (t : Template) (d : Desk) (done : Except Trouble Unit × Desk) : Prop where
  of_ok : done.1 = .ok () →
    ∃ more, Document.parse t.yaml = .ok more ∧ Appended t.name more.pages d done.2
  of_unreadable : (∀ more, Document.parse t.yaml ≠ .ok more) →
    (∃ trouble, done.1 = .error trouble) ∧ done.2.session = d.session

section Picked

variable {d : Desk}
variable {i : Nat}
variable {shell : Shell}
variable {t f : Template}

theorem run_pick_templateNames
    (hpick : PicksTemplate d i shell) :
    (pick "Template:" d.session.templateNames none).run d = (.ok (some i), { d with shell }) := by
  have hask : (askSelect "Template:" d.session.templateNames 0).run d =
      (.ok (.submitted i), { d with shell }) := by
    have hreply := congrArg Prod.fst hpick
    have hshell := congrArg Prod.snd hpick
    exact Prod.ext (congrArg Except.ok hreply) (congrArg (fun s => { d with shell := s }) hshell)
  exact run_bind_of_ok hask

/-- Behind the menu, the name at the place that was picked is all that counts. -/
theorem run_insertTemplate
    {name : String}
    (hpick : PicksTemplate d i shell)
    (hname : d.session.templateNames[i]? = some name) :
    (perform .insertTemplate).run d =
      Activity.run (do
        let added ← act fun ed => ed.insertTemplate name
        say (insertedLine name added)
        if 0 < added then
          select fun _ => .pageOnly d.session.editor.document.pages.length) { d with shell } := by
  have hsome : d.session.templateNames.isEmpty = false := by
    cases hnames : d.session.templateNames with
    | nil =>
        rw [hnames] at hname
        cases hname
    | cons n ns =>
        rfl
  change insertTemplate.run d = _
  refine (run_bind_of_ok rfl).trans ?_
  extract_lets labels rest
  have hlabels : labels = d.session.templateNames := rfl
  have hentry : labels.getD i "" = name := by
    rw [hlabels, List.getD_eq_getElem?_getD, hname]
    rfl
  rw [hlabels, hsome, if_neg Bool.false_ne_true]
  refine (run_bind_of_ok (run_pick_templateNames hpick)).trans ?_
  simp only [hentry]
  rfl

/-- If the first template of that name can be read, its pages are appended. -/
theorem insertTemplate_of_ok
    {more : Document}
    (hpick : PicksTemplate d i shell)
    (hname : d.session.templateNames[i]? = some t.name)
    (hfirst : d.session.editor.reference.template? t.name = some f)
    (hparse : Document.parse f.yaml = .ok more) :
    ((perform .insertTemplate).run d).1 = .ok () ∧
      Appended t.name more.pages d ((perform .insertTemplate).run d).2 := by
  have hact := run_act_of_ok (d := { d with shell })
    (fun ed => ed.insertTemplate t.name)
    (Editor.result_insertTemplate_of_ok hfirst hparse)
  have hout : (shell.noteAll (d.session.editor.insertTemplate t.name).events).out = [] :=
    (Shell.out_noteAll _ _).trans (Shell.out_of_askSelect hpick)
  rw [run_insertTemplate hpick hname, run_bind_of_ok hact, run_bind_of_ok rfl]
  split
  · exact ⟨rfl, rfl, rfl, Shell.outText_say hout _, fun _ => rfl⟩
  · next hnone =>
      have hpages : more.pages = [] := List.eq_nil_of_length_eq_zero (by omega)
      exact ⟨rfl, rfl, rfl, Shell.outText_say hout _, fun hne => absurd hpages hne⟩

/-- If it cannot be read, the action fails and the session is as it was. -/
theorem insertTemplate_of_error
    (hpick : PicksTemplate d i shell)
    (hname : d.session.templateNames[i]? = some t.name)
    (hfirst : d.session.editor.reference.template? t.name = some f)
    (hparse : ∀ more, Document.parse f.yaml ≠ .ok more) :
    (∃ trouble, ((perform .insertTemplate).run d).1 = .error trouble) ∧
      ((perform .insertTemplate).run d).2.session = d.session := by
  obtain ⟨e, he⟩ := Editor.result_insertTemplate_of_error hfirst hparse
  have hact := run_act_of_error (d := { d with shell })
    (fun ed => ed.insertTemplate t.name) he
  rw [run_insertTemplate hpick hname, run_bind_of_error hact]
  exact ⟨⟨_, rfl⟩, rfl⟩

/-- The template that is picked in the menu is the one that is inserted, exactly if the
first template of its name, should it be one that can be read, has the same pages. -/
theorem insertTemplate_inserts_iff
    (hpick : PicksTemplate d i shell)
    (ht : d.session.editor.reference.templates[i]? = some t) :
    Inserts t d ((perform .insertTemplate).run d) ↔
      d.session.editor.reference.NamesPagesOf t := by
  have hname : d.session.templateNames[i]? = some t.name := by
    rw [templateNames, List.getElem?_map, ht]
    rfl
  obtain ⟨f, hfirst⟩ := Reference.exists_template?_of_mem (List.mem_of_getElem? ht)
  by_cases hreads : ∃ more, Document.parse f.yaml = .ok more
  · obtain ⟨more, hparse⟩ := hreads
    obtain ⟨hok, happended⟩ := insertTemplate_of_ok hpick hname hfirst hparse
    constructor
    · intro hinserts f' more' hfirst' hparse'
      obtain rfl : f = f' := Option.some.inj (hfirst.symm.trans hfirst')
      obtain rfl : more = more' := Except.ok.inj (hparse.symm.trans hparse')
      obtain ⟨own, hown, hpages⟩ := hinserts.of_ok hok
      exact ⟨own, hown, List.append_cancel_left (hpages.pages.symm.trans happended.pages)⟩
    · intro hnames
      obtain ⟨own, hown, hpages⟩ := hnames f more hfirst hparse
      refine ⟨fun _ => ⟨own, hown, ?_⟩, fun hunreadable => absurd hown (hunreadable own)⟩
      rwa [hpages]
  · have hunreadable : ∀ more, Document.parse f.yaml ≠ .ok more := fun more hmore =>
      hreads ⟨more, hmore⟩
    obtain ⟨⟨trouble, hfailed⟩, hkept⟩ := insertTemplate_of_error hpick hname hfirst hunreadable
    refine iff_of_true ⟨fun hok => ?_, fun _ => ⟨⟨trouble, hfailed⟩, hkept⟩⟩ ?_
    · rw [hfailed] at hok
      cases hok
    · intro f' more hfirst' hparse'
      obtain rfl : f = f' := Option.some.inj (hfirst.symm.trans hfirst')
      exact absurd hparse' (hunreadable more)

end Picked

/-- A template with a page for news. -/
def newsTemplate (name : String) : Template where
  name := name
  yaml := "pages: [\x7bname: News\x7d]"

/-- A template with a page to start from. -/
def homeTemplate : Template where
  name := "Start"
  yaml := "pages: [\x7bname: Home\x7d]"

/-- A new session with two templates, of which the second one is going to be picked. -/
def secondPicked (t u : Template) : Desk where
  session := start (.ofReference { templates := [t, u] }) "good.yml"
  shell :=
    { env := { home := "/home" }, filter := { rules := [] }, files := {}, answers := [.choice 1] }

theorem exists_picksTemplate_secondPicked (t u : Template) :
    ∃ shell, PicksTemplate (secondPicked t u) 1 shell :=
  ⟨((secondPicked t u).shell.askSelect "Template:" [t.name, u.name] 0 none).2, rfl⟩

theorem parse_homeTemplate :
    Document.parse homeTemplate.yaml = .ok { pages := [{ name := "Home" }] } := by
  have hread : Value.ofYaml? homeTemplate.yaml =
      some (.map [("pages", .seq [.map [("name", .str "Home")]])]) := by
    decide +kernel
  exact (Document.parse_eq_of_ofYaml? hread).trans rfl

theorem parse_newsTemplate (name : String) :
    Document.parse (newsTemplate name).yaml = .ok { pages := [{ name := "News" }] } := by
  have hread : Value.ofYaml? (newsTemplate "").yaml =
      some (.map [("pages", .seq [.map [("name", .str "News")]])]) := by
    decide +kernel
  exact (Document.parse_eq_of_ofYaml? hread).trans rfl

/-- Under a name of its own the second template is the one that is inserted. -/
theorem insertTemplate_inserts_news :
    ∃ d shell, d = secondPicked homeTemplate (newsTemplate "Feeds") ∧
      PicksTemplate d 1 shell ∧
      Inserts (newsTemplate "Feeds") d ((perform .insertTemplate).run d) := by
  obtain ⟨shell, hpick⟩ := exists_picksTemplate_secondPicked homeTemplate (newsTemplate "Feeds")
  have hfirst : Reference.template? { templates := [homeTemplate, newsTemplate "Feeds"] }
      "Feeds" = some (newsTemplate "Feeds") := by
    decide +kernel
  refine ⟨_, shell, rfl, hpick, ?_⟩
  refine (insertTemplate_inserts_iff hpick rfl).2 fun f more hf hparse => ?_
  obtain rfl := Option.some.inj (hfirst.symm.trans hf)
  exact ⟨more, hparse, rfl⟩

/-- Under the name of the first one, the second template is picked and the page of the
first one comes into the document. -/
theorem not_insertTemplate_inserts_second :
    ∃ d shell, d = secondPicked homeTemplate (newsTemplate "Start") ∧
      PicksTemplate d 1 shell ∧
      ((perform .insertTemplate).run d).1 = .ok () ∧
      ((perform .insertTemplate).run d).2.session.editor.document.pages = [{ name := "Home" }] ∧
      Document.parse (newsTemplate "Start").yaml = .ok { pages := [{ name := "News" }] } ∧
      ¬Inserts (newsTemplate "Start") d ((perform .insertTemplate).run d) := by
  obtain ⟨shell, hpick⟩ := exists_picksTemplate_secondPicked homeTemplate (newsTemplate "Start")
  have hfirst : Reference.template? { templates := [homeTemplate, newsTemplate "Start"] }
      "Start" = some homeTemplate := by
    decide +kernel
  obtain ⟨hok, happended⟩ := insertTemplate_of_ok (t := newsTemplate "Start") hpick rfl
    hfirst parse_homeTemplate
  refine ⟨_, shell, rfl, hpick, hok, happended.pages, parse_newsTemplate _, fun hinserts => ?_⟩
  obtain ⟨own, hown, hpages⟩ := hinserts.of_ok hok
  obtain rfl := Except.ok.inj ((parse_newsTemplate _).symm.trans hown)
  have hnames := List.append_cancel_left (hpages.pages.symm.trans happended.pages)
  exact absurd hnames (by decide +kernel)

end Session

end Dashboard
