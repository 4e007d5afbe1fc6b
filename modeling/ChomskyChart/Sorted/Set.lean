/-!
Finite sets kept as strictly increasing lists. A set has one such list, so sets
with the same members are equal values (`ext`).
-/

namespace ChomskyChart

structure SortedSet (α : Type) [Ord α] where
  toList : List α
  increasing : toList.Pairwise fun first second => compare first second = .lt
  deriving DecidableEq, Repr

namespace SortedSet

variable {α : Type} [Ord α]

instance : EmptyCollection (SortedSet α) := ⟨⟨[], .nil⟩⟩

instance : Membership α (SortedSet α) := ⟨fun set element => element ∈ set.toList⟩

instance : HasSubset (SortedSet α) :=
  ⟨fun first second => ∀ element ∈ first, element ∈ second⟩

instance [DecidableEq α] (element : α) (set : SortedSet α) :
    Decidable (element ∈ set) := inferInstanceAs (Decidable (element ∈ set.toList))

def isEmpty (set : SortedSet α) : Bool :=
  set.toList.isEmpty

def insertInto (element : α) : List α → List α
  | [] => [element]
  | head :: tail =>
      match compare element head with
      | .lt => element :: head :: tail
      | .eq => head :: tail
      | .gt => head :: insertInto element tail

theorem mem_insertInto [Std.LawfulEqOrd α] (element other : α) (elements : List α) :
    other ∈ insertInto element elements ↔ other = element ∨ other ∈ elements := by
  induction elements with
  | nil => simp [insertInto]
  | cons head tail ih =>
      rw [insertInto]
      split
      · simp
      · rename_i hequal
        cases Std.LawfulEqOrd.eq_of_compare hequal
        simp
      · simp only [List.mem_cons, ih]
        grind

theorem pairwise_insertInto [Std.TransOrd α] [Std.LawfulEqOrd α] (element : α)
    {elements : List α}
    (hincreasing : elements.Pairwise fun first second =>
      compare first second = .lt) :
    (insertInto element elements).Pairwise fun first second =>
      compare first second = .lt := by
  induction elements with
  | nil => simp [insertInto]
  | cons head tail ih =>
      rw [insertInto]
      rw [List.pairwise_cons] at hincreasing
      split
      · rename_i hbefore
        refine List.pairwise_cons.mpr ⟨?_, List.pairwise_cons.mpr hincreasing⟩
        intro other hother
        rcases List.mem_cons.mp hother with rfl | htail
        · exact hbefore
        · exact Std.TransCmp.lt_trans hbefore (hincreasing.1 other htail)
      · exact List.pairwise_cons.mpr hincreasing
      · rename_i hafter
        refine List.pairwise_cons.mpr ⟨?_, ih hincreasing.2⟩
        intro other hother
        rcases (mem_insertInto element other tail).mp hother with rfl | htail
        · exact Std.OrientedCmp.gt_iff_lt.mp hafter
        · exact hincreasing.1 other htail

/-- What a fold of adding steps holds is what it began with and what its steps
add. -/
theorem mem_foldl_adding {β : Type} {step : SortedSet α → β → SortedSet α}
    {element : α} (adds : β → Prop)
    (hstep : ∀ set item, element ∈ step set item ↔ element ∈ set ∨ adds item)
    (items : List β) (set : SortedSet α) :
    element ∈ items.foldl step set ↔
      element ∈ set ∨ ∃ item ∈ items, adds item := by
  induction items generalizing set with
  | nil => simp
  | cons head tail ih =>
      simp only [List.foldl_cons, ih, hstep, List.mem_cons, exists_eq_or_imp,
        or_assoc]

variable [Std.TransOrd α] [Std.LawfulEqOrd α]

def insert (set : SortedSet α) (element : α) : SortedSet α :=
  ⟨insertInto element set.toList, pairwise_insertInto element set.increasing⟩

def ofList (elements : List α) : SortedSet α :=
  elements.foldl insert ∅

omit [Std.TransOrd α] [Std.LawfulEqOrd α] in
theorem mem_def {element : α} {set : SortedSet α} :
    element ∈ set ↔ element ∈ set.toList := Iff.rfl

omit [Std.TransOrd α] [Std.LawfulEqOrd α] in
@[simp] theorem not_mem_empty (element : α) : element ∉ (∅ : SortedSet α) :=
  List.not_mem_nil

@[simp] theorem mem_insert {set : SortedSet α} {element other : α} :
    other ∈ set.insert element ↔ other = element ∨ other ∈ set :=
  mem_insertInto element other set.toList

@[simp] theorem mem_ofList {elements : List α} {element : α} :
    element ∈ ofList elements ↔ element ∈ elements := by
  have hinserted := mem_foldl_adding (element = ·)
    (fun _ _ => mem_insert.trans or_comm) elements ∅
  simpa [ofList] using hinserted

def insertAll (set others : SortedSet α) : SortedSet α :=
  others.toList.foldl insert set

@[simp] theorem mem_insertAll {set others : SortedSet α} {element : α} :
    element ∈ set.insertAll others ↔ element ∈ set ∨ element ∈ others := by
  have hinserted := mem_foldl_adding (element = ·)
    (fun _ _ => mem_insert.trans or_comm) others.toList set
  simpa [insertAll, mem_def] using hinserted

omit [Std.TransOrd α] [Std.LawfulEqOrd α] in
theorem isEmpty_iff {set : SortedSet α} : set.isEmpty = true ↔ set = ∅ := by
  cases set with
  | mk elements hincreasing =>
      cases elements with
      | nil => exact ⟨fun _ => rfl, fun _ => rfl⟩
      | cons head tail =>
          constructor
          · intro hempty
            cases hempty
          · intro hempty
            cases congrArg toList hempty

private theorem eq_of_increasing_of_mem_iff {first second : List α}
    (hfirst : first.Pairwise fun left right => compare left right = .lt)
    (hsecond : second.Pairwise fun left right => compare left right = .lt)
    (hmem : ∀ element, element ∈ first ↔ element ∈ second) : first = second := by
  have hne {left right : α} (hbefore : compare left right = .lt) :
      left ≠ right := by
    rintro rfl
    simp at hbefore
  have hasymm (left right : α) (_ : left ∈ first) (_ : right ∈ second)
      (hbefore : compare left right = .lt) (hafter : compare right left = .lt) :
      left = right :=
    absurd hafter (Std.OrientedCmp.not_lt_of_lt hbefore)
  exact List.Perm.eq_of_pairwise hasymm hfirst hsecond
    ((List.perm_ext_iff_of_nodup (hfirst.imp hne) (hsecond.imp hne)).mpr hmem)

@[ext] theorem ext {first second : SortedSet α}
    (hmem : ∀ element, element ∈ first ↔ element ∈ second) : first = second := by
  cases first with
  | mk elements hincreasing =>
      cases second with
      | mk elements' hincreasing' =>
          cases eq_of_increasing_of_mem_iff hincreasing hincreasing' hmem
          rfl

end SortedSet

end ChomskyChart
