import Reckon.Failure
import Mathlib.Data.List.Forall2

/-!
# Computations that may fail

Readings of `>>=` and `mapM` in `Except Failure`. A step is peeled off by what it returned, and a
traversal by the pairs of what went in and what came out, so that later proofs do not unfold the
monad. `Yields` carries a property of what is returned through a computation.
-/

set_option autoImplicit false

namespace Reckon.Sequencing

variable {α β γ : Type}

theorem bind_ok_iff (first : Except Failure α) (next : α → Except Failure β) (result : β) :
    first >>= next = .ok result ↔ ∃ value, first = .ok value ∧ next value = .ok result := by
  cases first with
  | error failure => simp [Bind.bind, Except.bind]
  | ok value => simp [Bind.bind, Except.bind]

theorem bind_error_iff (first : Except Failure α) (next : α → Except Failure β)
    (failure : Failure) :
    first >>= next = .error failure ↔
      first = .error failure ∨ ∃ value, first = .ok value ∧ next value = .error failure := by
  cases first with
  | error other => simp [Bind.bind, Except.bind]
  | ok value => simp [Bind.bind, Except.bind]

theorem ok_bind (value : α) (next : α → Except Failure β) :
    (Except.ok value >>= next) = next value := rfl

theorem ok_of_to_option {result : Except Failure α} {value : α}
    (returned : result.toOption = some value) : result = .ok value := by
  cases result with
  | error failure => cases returned
  | ok other =>
      cases returned
      rfl

theorem exists_ok_of_map {result : Except Failure α} {f : α → β} {image : β}
    (returned : result.toOption.map f = some image) :
    ∃ value, result = .ok value ∧ f value = image := by
  obtain ⟨value, same, shown⟩ := Option.map_eq_some_iff.mp returned
  exact ⟨value, ok_of_to_option same, shown⟩

/-! What a computation returns, if it returns. -/

/-- Whatever a computation returns has a property. -/
def Yields (P : α → Prop) (result : Except Failure α) : Prop :=
  ∀ value, result = .ok value → P value

theorem yields_ok {P : α → Prop} {value : α} (holds : P value) : Yields P (.ok value) := by
  intro other same
  cases same
  exact holds

theorem yields_error (P : α → Prop) (failure : Failure) : Yields P (.error failure) := by
  intro other same
  cases same

theorem yields_bind {P : β → Prop} {Q : α → Prop} {first : Except Failure α}
    {next : α → Except Failure β} (head : Yields Q first)
    (tail : ∀ value, Q value → Yields P (next value)) : Yields P (first >>= next) := by
  intro result returned
  obtain ⟨value, ran, rest⟩ := (bind_ok_iff _ _ _).mp returned
  exact tail value (head value ran) result rest

/-! Traversals. -/

theorem map_m_ok_iff (f : α → Except Failure β) (inputs : List α) (outputs : List β) :
    inputs.mapM f = .ok outputs ↔
      List.Forall₂ (fun input output => f input = .ok output) inputs outputs := by
  induction inputs generalizing outputs with
  | nil =>
      cases outputs with
      | nil => simp [pure, Except.pure]
      | cons output outputs => simp [pure, Except.pure]
  | cons input inputs ih =>
      rw [List.mapM_cons, bind_ok_iff]
      constructor
      · rintro ⟨output, head, rest⟩
        obtain ⟨others, tail, same⟩ := (bind_ok_iff _ _ _).mp rest
        cases same
        exact .cons head ((ih others).mp tail)
      · intro paired
        cases paired with
        | @cons _ output _ others head tail =>
            refine ⟨output, head, (bind_ok_iff _ _ _).mpr ⟨others, (ih others).mpr tail, rfl⟩⟩

theorem map_m_each (f : α → Except Failure β) (inputs : List α) (outputs : List β)
    (ran : inputs.mapM f = .ok outputs) (input : α) (member : input ∈ inputs) :
    ∃ output, f input = .ok output := by
  have paired := (map_m_ok_iff f inputs outputs).mp ran
  clear ran
  induction paired with
  | nil => simp at member
  | @cons first output inputs outputs head tail ih =>
      rcases List.mem_cons.mp member with same | later
      · exact ⟨output, same ▸ head⟩
      · exact ih later

/-- Nothing in the flattened results of a traversal comes from elsewhere, and nothing is lost. -/
theorem mem_flatten_map_m (f : α → Except Failure (List β)) (inputs : List α)
    (outputs : List (List β)) (ran : inputs.mapM f = .ok outputs) (item : β) :
    item ∈ outputs.flatten ↔ ∃ input ∈ inputs, ∃ items, f input = .ok items ∧ item ∈ items := by
  have paired := (map_m_ok_iff f inputs outputs).mp ran
  clear ran
  induction paired with
  | nil => simp
  | @cons input output inputs outputs head tail ih =>
      rw [List.flatten_cons, List.mem_append]
      constructor
      · rintro (here | there)
        · exact ⟨input, by simp, output, head, here⟩
        · obtain ⟨source, member, items, made, inside⟩ := ih.mp there
          exact ⟨source, by simp [member], items, made, inside⟩
      · rintro ⟨source, member, items, made, inside⟩
        rcases List.mem_cons.mp member with same | later
        · subst same
          rw [head] at made
          cases made
          exact Or.inl inside
        · exact Or.inr (ih.mpr ⟨source, later, items, made, inside⟩)

/-- What is before a result of a traversal comes of what is before its input. -/
theorem map_m_split (f : α → Except Failure β) (inputs : List α) {before after : List β}
    {output : β} (ran : inputs.mapM f = .ok (before ++ output :: after)) :
    ∃ first input rest, inputs = first ++ input :: rest ∧ f input = .ok output ∧
      first.mapM f = .ok before := by
  have paired := (map_m_ok_iff f inputs _).mp ran
  clear ran
  induction before generalizing inputs with
  | nil =>
      cases paired with
      | @cons input _ rest _ head tail => exact ⟨[], input, rest, rfl, head, rfl⟩
  | cons made before ih =>
      cases paired with
      | @cons first _ inputs _ head tail =>
          obtain ⟨firsts, input, rest, same, here, earlier⟩ := ih inputs tail
          refine ⟨first :: firsts, input, rest, by rw [same, List.cons_append], here, ?_⟩
          rw [map_m_ok_iff] at earlier ⊢
          exact .cons head earlier

theorem yields_map_m {P : β → Prop} {f : α → Except Failure β} {inputs : List α}
    (each : ∀ input ∈ inputs, Yields P (f input)) :
    Yields (fun outputs => ∀ output ∈ outputs, P output) (inputs.mapM f) := by
  induction inputs with
  | nil => exact yields_ok (by simp)
  | cons input inputs ih =>
      have rest := ih fun other member => each other (List.mem_cons_of_mem _ member)
      rw [List.mapM_cons]
      refine yields_bind (each input List.mem_cons_self) fun output holds => ?_
      refine yields_bind rest fun outputs hold => ?_
      exact yields_ok (List.forall_mem_cons.mpr ⟨holds, hold⟩)

theorem map_m_returns (f : α → Except Failure β) (inputs : List α)
    (returns : ∀ input ∈ inputs, ∃ output, f input = .ok output) :
    ∃ outputs, inputs.mapM f = .ok outputs := by
  induction inputs with
  | nil => exact ⟨[], rfl⟩
  | cons input inputs ih =>
      obtain ⟨output, head⟩ := returns input (by simp)
      obtain ⟨outputs, tail⟩ := ih (fun later member => returns later (by simp [member]))
      refine ⟨output :: outputs, ?_⟩
      rw [List.mapM_cons, head, tail]
      rfl

/-- A traversal fails with the failure of one of its inputs, if any fails. -/
theorem map_m_fails (f : α → Except Failure β) (inputs : List α)
    (fails : ∃ input ∈ inputs, ∃ failure, f input = .error failure) :
    ∃ input ∈ inputs, ∃ failure, f input = .error failure ∧ inputs.mapM f = .error failure := by
  induction inputs with
  | nil =>
      obtain ⟨input, member, -⟩ := fails
      cases member
  | cons first rest ih =>
      rw [List.mapM_cons]
      cases head : f first with
      | error failure => exact ⟨first, List.mem_cons_self, failure, head, rfl⟩
      | ok output =>
          obtain ⟨input, member, failure, failed⟩ := fails
          have later : input ∈ rest := by
            rcases List.mem_cons.mp member with rfl | inside
            · rw [head] at failed
              cases failed
            · exact inside
          obtain ⟨bad, inside, cause, failedHere, ran⟩ := ih ⟨input, later, failure, failed⟩
          refine ⟨bad, List.mem_cons_of_mem _ inside, cause, failedHere, ?_⟩
          rw [ok_bind, ran]
          rfl

theorem flatten_map_m_returns (f : α → Except Failure (List β)) (inputs : List α)
    (returns : ∀ input ∈ inputs, ∃ output, f input = .ok output) :
    ∃ items, (inputs.mapM f >>= fun found => pure found.flatten) = .ok items := by
  obtain ⟨outputs, ran⟩ := map_m_returns f inputs returns
  exact ⟨outputs.flatten, (bind_ok_iff _ _ _).mpr ⟨outputs, ran, rfl⟩⟩

end Reckon.Sequencing
