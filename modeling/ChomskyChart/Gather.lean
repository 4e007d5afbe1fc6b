/-!
Outcomes gathered from many independent steps: all values when every step
succeeds, otherwise every failure in the order of the steps.
-/

namespace ChomskyChart

variable {ε α : Type}

def failure? : Except ε α → Option ε
  | .ok _ => none
  | .error failure => some failure

def gather (outcomes : List (Except ε α)) : Except (List ε) (List α) :=
  match outcomes.filterMap failure? with
  | [] => .ok (outcomes.filterMap Except.toOption)
  | failures => .error failures

theorem filterMap_failure?_eq_nil_iff {outcomes : List (Except ε α)} :
    outcomes.filterMap failure? = [] ↔
      outcomes = (outcomes.filterMap Except.toOption).map .ok := by
  induction outcomes with
  | nil => simp
  | cons head tail ih =>
      cases head with
      | ok value =>
          change tail.filterMap failure? = [] ↔
            .ok value :: tail =
              .ok value :: (tail.filterMap Except.toOption).map .ok
          rw [ih, List.cons_inj_right]
      | error failure =>
          constructor
          · simp [failure?]
          · intro hall
            have hmem : Except.error failure ∈
                (List.filterMap Except.toOption (Except.error failure :: tail)).map
                  (Except.ok : α → Except ε α) := by
              rw [← hall]
              exact List.mem_cons_self
            simp at hmem

theorem gather_eq_ok_iff {outcomes : List (Except ε α)} {values : List α} :
    gather outcomes = .ok values ↔ outcomes = values.map .ok := by
  rw [gather]
  split
  · rename_i hnone
    rw [filterMap_failure?_eq_nil_iff] at hnone
    constructor
    · intro hvalues
      cases hvalues
      exact hnone
    · rintro rfl
      simp [List.filterMap_map, Function.comp_def, Except.toOption]
  · rename_i failures hsome
    constructor
    · intro hvalues
      cases hvalues
    · rintro rfl
      exact absurd (by simp [List.filterMap_map, Function.comp_def, failure?]) hsome

theorem gather_eq_error_iff {outcomes : List (Except ε α)} {failures : List ε} :
    gather outcomes = .error failures ↔
      failures ≠ [] ∧ outcomes.filterMap failure? = failures := by
  rw [gather]
  split
  · rename_i hnone
    constructor
    · intro hfailures
      cases hfailures
    · rintro ⟨hne, hfailures⟩
      exact absurd (hfailures.symm.trans hnone) hne
  · rename_i others hsome
    constructor
    · intro hfailures
      cases hfailures
      exact ⟨hsome, rfl⟩
    · rintro ⟨_, hfailures⟩
      rw [hfailures]

end ChomskyChart
