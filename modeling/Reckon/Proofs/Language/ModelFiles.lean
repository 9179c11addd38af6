import Std.Data.String.ToInt
import Reckon.Language.ModelFile

/-!
# Model files

The text of a model file is read back as the record of the model, whatever characters its names
have: every field tells its length before its characters.
-/

set_option autoImplicit false

namespace Reckon.ModelFile

/-! Fields. -/

section Fields

theorem read_field_field (cs rest : List Char) :
    readField (field cs ++ rest) = some (cs, rest) := by
  have shape : field cs ++ rest = cs.length.repr.toList ++ ':' :: (cs ++ rest) :=
    List.append_assoc _ _ _
  have digits : ∀ c ∈ cs.length.repr.toList, c.isDigit = true := by
    intro c member
    rw [Nat.toList_repr] at member
    exact Nat.isDigit_of_mem_toDigits (by decide) (by decide) member
  have front : (field cs ++ rest).takeWhile Char.isDigit = cs.length.repr.toList := by
    rw [shape, List.takeWhile_append_of_pos digits,
      List.takeWhile_cons_of_neg (by decide), List.append_nil]
  have back : (field cs ++ rest).drop cs.length.repr.toList.length = ':' :: (cs ++ rest) := by
    rw [shape, List.drop_left]
  have fits : cs.length ≤ (cs ++ rest).length := by
    simp
  simp only [readField, front, back, String.ofList_toList, Nat.toNat?_repr, if_pos fits,
    List.take_left, List.drop_left]

theorem field_ne_nil (cs : List Char) : field cs ≠ [] := by
  simp [field]

theorem read_fields_flat_map (fields : List (List Char)) (fuel : Nat)
    (enough : fields.length ≤ fuel) : readFields fuel (fields.flatMap field) = some fields := by
  induction fields generalizing fuel with
  | nil => cases fuel <;> rfl
  | cons f rest ih =>
      cases fuel with
      | zero => cases enough
      | succ fuel =>
          have again := ih fuel (Nat.le_of_succ_le_succ enough)
          have some : field f ++ rest.flatMap field ≠ [] :=
            List.append_ne_nil_of_left_ne_nil (field_ne_nil f) _
          rw [List.flatMap_cons, readFields.eq_3 _ _ some, read_field_field]
          change (do return f :: (← readFields fuel (rest.flatMap field))) = _
          rw [again]
          rfl

theorem length_le_flat_map (fields : List (List Char)) :
    fields.length ≤ (fields.flatMap field).length := by
  induction fields with
  | nil => exact Nat.le_refl _
  | cons f rest ih =>
      have positive := List.length_pos_iff.mpr (field_ne_nil f)
      simp only [List.length_cons, List.flatMap_cons, List.length_append]
      omega

end Fields

/-! Models. -/

theorem read_int?_repr (n : Int) : readInt? n.repr.toList = some n := by
  rw [readInt?, String.ofList_toList, Int.toInt?_repr]

theorem read_table_flat_map (table : List (String × Int)) :
    readTable (table.flatMap fun (name, weight) => [name.toList, (toString weight).toList]) =
      some table := by
  induction table with
  | nil => rfl
  | cons entry rest ih =>
      rw [List.flatMap_cons]
      change (do
        return (String.ofList entry.1.toList, ← readInt? entry.2.repr.toList) ::
          (← readTable (rest.flatMap _))) = _
      rw [ih, read_int?_repr, String.ofList_toList]
      rfl

theorem read_flag_flag_text (flag : Option String) : readFlag (flagText flag).toList = flag := by
  cases flag <;> simp [flagText, readFlag]

theorem model_of_fields_of (m : Model) : modelOf (fieldsOf m) = some m := by
  have complemented : ([if m.complemented then '1' else '0'] == ['1']) = m.complemented := by
    cases m.complemented <;> rfl
  have scale : (toString m.weights.scale).toNat? = some m.weights.scale :=
    Nat.toNat?_repr _
  have intercept : readInt? (toString m.weights.intercept).toList = some m.weights.intercept :=
    read_int?_repr _
  simp only [fieldsOf, List.cons_append, List.nil_append, modelOf, intercept, scale,
    read_table_flat_map, read_flag_flag_text, complemented, String.ofList_toList]
  rfl

/-- A model file holds the record of its model. -/
theorem read_render (m : Model) : read (render m) = .record m.toRecord := by
  have front : header.isPrefixOf (render m).toList = true := by
    rw [render, String.toList_ofList, List.isPrefixOf_iff_prefix]
    exact List.prefix_append _ _
  have body : (render m).toList.drop header.length = (fieldsOf m).flatMap field := by
    rw [render, String.toList_ofList, List.drop_left]
  simp only [read, front, if_true, body, read_fields_flat_map _ _ (length_le_flat_map _),
    Option.bind_some, model_of_fields_of]

end Reckon.ModelFile
