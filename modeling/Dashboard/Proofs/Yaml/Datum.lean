import Dashboard.Yaml.Datum

/-!
# Data of nodes without tags and aliases

Where no tag and no alias stands in the way, the data of a node are its content:
the scalar a text spells, the items one by one, the entries one by one.
-/

namespace Dashboard.Yaml.Node

/-- Data without tag and alias are the content of their node. -/
theorem datumWith_eq_content
    (ctx : Context)
    (child : Option (Bool → Node → Reading Datum))
    {n : Node}
    (hn : ∀ a, n ≠ .alias a)
    (htag : n.tag? = none) :
    datumWith ctx child false n = content child false n := by
  have hresolve : resolve ctx false n = pure (false, n) := by
    cases n with
    | «alias» a =>
        exact absurd rfl (hn a)
    | scalar p text plain | seq p items | map p entries =>
        rfl
  simp only [datumWith, hresolve, pure_bind, htag]
  exact id_map _

/-- The data of a scalar without a tag. -/
theorem datum_scalar
    (ctx : Context)
    (depth : Nat)
    (text : String)
    (plain : Bool) :
    datum ctx depth false (.scalar {} text plain) =
      match scalar? false none text plain with
      | some s => pure (.scalar s)
      | none => failure := by
  have hwith : ∀ child, datumWith ctx child false (.scalar {} text plain) =
      content child false (.scalar {} text plain) :=
    fun child => datumWith_eq_content ctx child (by simp) rfl
  cases depth with
  | zero =>
      exact hwith none
  | succ depth =>
      exact hwith _

theorem datum?_scalar
    (text : String)
    (plain : Bool) :
    datum? (.scalar {} text plain) = (scalar? false none text plain).map .scalar := by
  rw [datum?, datum_scalar]
  cases scalar? false none text plain <;> rfl

end Dashboard.Yaml.Node
