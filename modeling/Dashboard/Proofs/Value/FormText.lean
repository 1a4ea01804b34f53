import Dashboard.Proofs.Render.Limits
import Dashboard.Proofs.Text.Trimming

/-!
# Values in form fields

The inline form of a value comes back from a form field as that value, or as a
text when a reader gives up on it.  It starts and ends with no blank, it starts
with none of the marks that a field takes for text, and the form of a container
starts with its bracket.
-/

namespace Dashboard

namespace Render

/-! ## The ends of inline forms -/

/-- A character that starts the text of a value in a form field. -/
structure StartsField (c : Char) : Prop where
  not_blank : Text.isBlank c = false
  not_anchor : c ≠ '&'
  not_alias : c ≠ '*'

instance (c : Char) : Decidable (StartsField c) :=
  decidable_of_iff (Text.isBlank c = false ∧ c ≠ '&' ∧ c ≠ '*')
    ⟨fun h => ⟨h.1, h.2.1, h.2.2⟩, fun h => ⟨h.not_blank, h.not_anchor, h.not_alias⟩⟩

theorem startsField_of_isNumeral
    {c : Char}
    (h : isNumeral c = true) :
    StartsField c := by
  simp only [isNumeral, Char.isDigit, Bool.or_eq_true, Bool.and_eq_true, decide_eq_true_eq,
    beq_iff_eq] at h
  rcases h with (⟨hlow, hhigh⟩ | rfl) | rfl
  · have hlow' : 48 ≤ c.toNat := hlow
    have hhigh' : c.toNat ≤ 57 := hhigh
    constructor
    · rw [Bool.eq_false_iff]
      simp only [Text.isBlank, ne_eq, Bool.or_eq_true, Bool.and_eq_true, decide_eq_true_eq,
        beq_iff_eq]
      omega
    · rintro rfl
      exact absurd hlow' (by decide)
    · rintro rfl
      exact absurd hlow' (by decide)
  · decide
  · decide

theorem exists_plainScalar_eq_cons
    {v : Value}
    {s : Yaml.Scalar}
    (h : v.asScalar? = some s) :
    ∃ c cs, plainScalar v = c :: cs ∧ StartsField c := by
  rcases plainScalar_cases h with hword | hnumber
  · have hstart : scalarWords.all (·.head?.any (decide <| StartsField ·)) = true := by
      decide
    have hhead := List.all_eq_true.1 hstart _ hword
    obtain ⟨c, hc, hfield⟩ := (Option.any_eq_true _ _).mp hhead
    obtain ⟨cs, hcs⟩ := List.head?_eq_some_iff.1 hc
    exact ⟨c, cs, hcs, of_decide_eq_true hfield⟩
  · have hall := hnumber.isNumeral
    obtain ⟨c, cs, hcs⟩ := List.exists_cons_of_ne_nil hnumber.ne_nil
    rw [hcs, List.forall_mem_cons] at hall
    exact ⟨c, cs, hcs, startsField_of_isNumeral hall.1⟩

theorem exists_quoted_eq_cons
    (t : String) :
    ∃ c cs, quoted t.toList = c :: cs ∧ StartsField c := by
  rcases quoted_cases t with ⟨-, hquoted, -⟩ | ⟨hquoted, -⟩ | ⟨hquoted, hbare⟩
  · exact ⟨'\'', ['\''], hquoted, by decide⟩
  · exact ⟨'"', _, hquoted, by decide⟩
  · have hunquoted := unquoted_of_isBare hbare
    obtain ⟨c, cs, hcs⟩ := List.exists_cons_of_ne_nil hunquoted.ne_nil
    obtain ⟨hblank, hindicator⟩ := hunquoted.head c (by rw [hcs]; rfl)
    refine ⟨c, cs, hquoted.trans hcs, hblank, ?_, ?_⟩
    · rintro rfl
      exact absurd hindicator (by decide)
    · rintro rfl
      exact absurd hindicator (by decide)

/-- How the inline form of a value starts. -/
theorem exists_inline_eq_cons
    (v : Value) :
    ∃ c cs, inline v = c :: cs ∧ StartsField c ∧
      (v.isContainer = true → c = '[' ∨ c = '\x7b') := by
  cases hscalar : v.asScalar? with
  | some s =>
      have hcontainer : v.isContainer = false := by
        cases v with
        | null | bool b | int n | float x =>
            rfl
        | str t | seq vs | map m =>
            cases hscalar
      obtain ⟨c, cs, hcs, hfield⟩ := exists_plainScalar_eq_cons hscalar
      rw [inline_eq_plainScalar hscalar, hcontainer]
      exact ⟨c, cs, hcs, hfield, fun h => absurd h (by decide)⟩
  | none =>
      cases v with
      | null | bool b | int n | float x =>
          cases hscalar
      | str s =>
          rw [inline]
          obtain ⟨c, cs, hcs, hfield⟩ := exists_quoted_eq_cons s
          exact ⟨c, cs, hcs, hfield, fun h => absurd h (by simp [Value.isContainer])⟩
      | seq vs =>
          exact ⟨'[', flowItems vs ++ [']'], by simp [inline, flow], by decide, fun _ => .inl rfl⟩
      | map m =>
          exact ⟨'\x7b', flowEntries m ++ ['\x7d'], by simp [inline, flow], by decide,
            fun _ => .inr rfl⟩

/-- The inline form of a value ends with no blank. -/
theorem isBlank_getLast?_inline
    (v : Value) :
    ∀ c ∈ (inline v).getLast?, Text.isBlank c = false := by
  cases hscalar : v.asScalar? with
  | some s =>
      rw [inline_eq_plainScalar hscalar]
      rcases plainScalar_cases hscalar with hword | hnumber
      · have hwords : scalarWords.all (fun w => w.getLast?.all (!Text.isBlank ·)) = true := by
          decide
        have hlast := List.all_eq_true.1 hwords _ hword
        simpa [Option.all_eq_true] using hlast
      · exact fun c hc => (startsField_of_isNumeral (hnumber.isNumeral c (List.mem_of_getLast? hc))).not_blank
  | none =>
      have hends : ∀ (cs : List Char) (d : Char), Text.isBlank d = false →
          ∀ c ∈ (cs ++ [d]).getLast?, Text.isBlank c = false := by
        intro cs d hd c hc
        rw [List.getLast?_concat, Option.mem_some_iff] at hc
        rw [← hc, hd]
      cases v with
      | null | bool b | int n | float x =>
          cases hscalar
      | seq vs =>
          rw [inline, flow]
          · exact hends _ _ (by decide)
          · simp
      | map m =>
          rw [inline, flow]
          · exact hends _ _ (by decide)
          · simp
      | str s =>
          rw [inline]
          rcases quoted_cases s with ⟨-, hquoted, -⟩ | ⟨hquoted, -⟩ | ⟨hquoted, hbare⟩
          · rw [hquoted]
            exact hends ['\''] _ (by decide)
          · rw [hquoted]
            exact hends _ _ (by decide)
          · rw [hquoted]
            exact (unquoted_of_isBare hbare).last

end Render

/-- No value of a form field has a key twice. -/
theorem Value.keysDistinct_ofFormText
    (text : String) :
    (ofFormText text).KeysDistinct := by
  have hscalar : ∀ s, (ofScalar s).KeysDistinct :=
    fun s => keysDistinct_ofDatum (.scalar s)
  simp only [ofFormText]
  split
  · trivial
  · split
    · trivial
    · split
      · split <;> trivial
      · exact hscalar _
      · split
        · exact keysDistinct_ofDatum _
        · trivial
      · split
        · exact keysDistinct_ofDatum _
        · trivial
      · trivial

/-- What a value becomes when it is shown in a form field and read from there:
beyond the limits of a reader, the text that was shown. -/
def Value.reread (v : Value) : Value :=
  if Render.IsReadable v then v else .str (String.ofList (Render.inline v))

/-- A value comes back from a form field exactly within the limits of a reader. -/
theorem Value.reread_eq_self_iff
    {v : Value} :
    v.reread = v ↔ Render.IsReadable v := by
  rw [reread]
  split
  · next h =>
      simp [h]
  · next h =>
      refine ⟨fun heq => ?_, fun hreadable => absurd hreadable h⟩
      rw [← heq] at h
      exact absurd (Render.isReadable_of_scalar rfl) h

/-- The inline form of a value is read from a form field. -/
theorem Value.ofFormText_inline
    {v : Value}
    (hkeys : v.KeysDistinct) :
    ofFormText (String.ofList (Render.inline v)) = v.reread := by
  obtain ⟨c, cs, hcs, hfield, hcontainer⟩ := Render.exists_inline_eq_cons v
  have hhead : (Render.inline v).head?.any Text.isBlank = false := by
    rw [hcs]
    exact hfield.not_blank
  have hlast : (Render.inline v).getLast?.any Text.isBlank = false := by
    simpa [Option.any_eq_false] using Render.isBlank_getLast?_inline v
  have htrim : Text.trim (String.ofList (Render.inline v)) = String.ofList (Render.inline v) := by
    rw [Text.trim, String.toList_ofList, Text.trimChars_eq_self hhead hlast]
  have hmark : (c == '&' || c == '*') = false := by
    simp [hfield.not_anchor, hfield.not_alias]
  have hbracket : v.isContainer = true → (c == '[' || c == '\x7b') = true := by
    simpa using hcontainer
  simp only [ofFormText, htrim, Yaml.read?, String.toList_ofList]
  rw [hcs]
  simp only [hmark, Bool.false_eq_true, if_false]
  rw [← hcs, reread]
  by_cases hreadable : Render.IsReadable v
  · have hvalue := (Render.exists_datum?_node Render.faithful_isBare hreadable.depth hkeys).2
    rw [if_pos hreadable, Render.readChars?_inline hreadable.short_keys hreadable.depth hkeys]
    cases v with
    | null =>
        rfl
    | bool b | int n | float x =>
        rw [Render.toDatum_of_asScalar? rfl]
        exact ofScalar_of_asScalar? rfl
    | str s =>
        rfl
    | seq vs | map m =>
        rw [Render.toDatum] at hvalue ⊢
        simp only [hbracket rfl, if_true]
        exact hvalue
  · rw [if_neg hreadable, Render.readChars?_inline_eq_none hreadable]

end Dashboard
