import Dashboard.Markdown.Templates
import Dashboard.Proofs.Markdown.Sections

/-!
# Pages of the documentation, section by section

The pages of two texts one after the other are the pages of each, where the second text
starts with a heading and the first is complete: its last line is, and none of its lines
is the marks of a heading without a name.
-/

namespace Dashboard.Markdown

variable {a b : String}

/-- Complete lines, of which none is marks without a name. -/
structure PageLines (a : String) : Prop where
  ends_line : Text.EndsLine a.toList
  named : ∀ p ∈ Text.pieces a.toList, isUnnamed "##".toList p = false

/-- The first line is a heading with a name. -/
def StartsPage (b : String) : Prop :=
  ∃ name rest, '\n' ∉ name.toList ∧ Text.isBlankText name = false ∧
    b = "## " ++ name ++ "\n" ++ rest

/-- A text of complete lines that starts with the heading of a page. -/
structure PageSection (s : String) : Prop extends PageLines s where
  starts : StartsPage s

/-- The heading of a page is found at the start of its text. -/
theorem StartsPage.exists_heading?
    (hb : StartsPage b) :
    ∃ whole name rest, heading? "##".toList b.toList = some (whole, name, rest) := by
  obtain ⟨name, rest, hname, hblank, rfl⟩ := hb
  obtain ⟨blanks, d, title, htitle, hblanks, hd⟩ := exists_blanks hblank
  have hfirst : ∀ c ∈ ' ' :: blanks, Text.isBlank c = true :=
    List.forall_mem_cons.2 ⟨rfl, hblanks⟩
  have hfeed : '\n' ∉ title := by
    rw [htitle] at hname
    exact fun h => hname (List.mem_append_right _ (List.mem_cons_of_mem _ h))
  have htext : ("## " ++ name ++ "\n" ++ rest).toList =
      "##".toList ++ (' ' :: blanks ++ d :: title) ++ '\n' :: rest.toList := by
    rw [String.toList_append, String.toList_append, String.toList_append, htitle]
    simp
  rw [htext, heading?_named (List.cons_ne_nil _ _) hfirst hd hfeed]
  exact ⟨_, _, _, rfl⟩

theorem PageLines.complete (ha : PageLines a) : Text.CompleteLines a.toList :=
  Text.completeLines_iff.2 ha.ends_line

theorem PageLines.append
    (ha : PageLines a)
    (hb : PageLines b) :
    PageLines (a ++ b) := by
  refine ⟨?_, fun p hp => ?_⟩
  · rw [String.toList_append]
    exact (ha.complete.append hb.complete).endsLine
  · rw [String.toList_append, Text.pieces_append ha.complete, List.mem_append] at hp
    exact hp.elim (ha.named p) (hb.named p)

/-- No page reaches over a heading behind complete lines. -/
theorem templates_append_page
    (ha : PageLines a)
    (hb : StartsPage b) :
    templates (a ++ b) = templates a ++ templates b := by
  obtain ⟨whole, name, rest, hheading⟩ := hb.exists_heading?
  have hmarks : '\n' ∉ "##".toList := by decide
  rw [templates, templates, templates, sections, sections, sections, String.toList_append,
    splitFrom_append_heading hmarks ha.complete ha.named hheading,
    List.filterMap_append]

/-- The pages in front of a text that starts with a heading are those of the sections in
front of it, one by one, so that none depends on another's section. -/
theorem templates_append
    (ha : PageLines a)
    (hb : StartsPage b) :
    templates (a ++ b) = templates a ++ templates b ∧
      ∀ between : List String, (∀ s ∈ between, PageSection s) →
        templates (a ++ String.join between ++ b) =
          templates a ++ between.flatMap templates ++ templates b := by
  refine ⟨templates_append_page ha hb, fun between hbetween => ?_⟩
  induction between generalizing a with
  | nil =>
      rw [String.join_nil, String.append_empty, templates_append_page ha hb, List.flatMap_nil,
        List.append_nil]
  | cons s between ih =>
      obtain ⟨hs, hbetween⟩ := List.forall_mem_cons.1 hbetween
      calc
        templates (a ++ String.join (s :: between) ++ b) =
            templates (a ++ s ++ String.join between ++ b) := by
          rw [String.join_cons, ← String.append_assoc]
        _ = templates (a ++ s) ++ between.flatMap templates ++ templates b :=
          ih (ha.append hs.toPageLines) hbetween
        _ = templates a ++ (s :: between).flatMap templates ++ templates b := by
          rw [templates_append_page ha hs.starts, List.flatMap_cons,
            List.append_assoc (templates a)]

/-! ## A start page and a page of news -/

/-- A text in front of the first page, and a page. -/
def startText : String :=
  "Pages:\n\n## Start\n\n![](start.png)\n\n```yaml\npages: []\n```\n"

/-- A page without an image. -/
def newsText : String :=
  "## News\n\n```yaml\n- name: News\n```\n"

/-- Behind the start page and a second page of news, the page of news is as it is alone. -/
theorem templates_start_news :
    PageLines startText ∧ StartsPage newsText ∧ PageSection newsText ∧
      templates (startText ++ String.join [newsText] ++ newsText) =
        [ { name := "Start", previewImage := some "start.png", yaml := "pages: []" },
          { name := "News", yaml := "- name: News" },
          { name := "News", yaml := "- name: News" } ] := by
  have hstart : PageLines startText := ⟨by decide +kernel, by decide +kernel⟩
  have hlines : PageLines newsText := ⟨by decide +kernel, by decide +kernel⟩
  have hnews : StartsPage newsText :=
    ⟨"News", "\n```yaml\n- name: News\n```\n", by decide, by decide, by decide⟩
  have hsections : ∀ s ∈ [newsText], PageSection s := by
    intro s hs
    rw [List.mem_singleton.1 hs]
    exact ⟨hlines, hnews⟩
  refine ⟨hstart, hnews, ⟨hlines, hnews⟩, ?_⟩
  rw [(templates_append hstart hnews).2 [newsText] hsections]
  decide +kernel

end Dashboard.Markdown
