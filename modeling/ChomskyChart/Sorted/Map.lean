import ChomskyChart.Sorted.Set

namespace ChomskyChart

structure SortedMap (κ ν : Type) [Ord κ] where
  entries : List (κ × ν)
  increasing : entries.Pairwise fun first second => compare first.1 second.1 = .lt
  deriving DecidableEq, Repr

namespace SortedMap

variable {κ ν : Type} [Ord κ]

instance : EmptyCollection (SortedMap κ ν) := ⟨⟨[], .nil⟩⟩

def lookupIn [DecidableEq κ] (key : κ) : List (κ × ν) → Option ν
  | [] => none
  | head :: tail => if key = head.1 then some head.2 else lookupIn key tail

def get? [DecidableEq κ] (map : SortedMap κ ν) (key : κ) : Option ν :=
  lookupIn key map.entries

/-- Puts under a key what the given function makes of the value found there. -/
def updateIn (key : κ) (change : Option ν → ν) : List (κ × ν) → List (κ × ν)
  | [] => [(key, change none)]
  | head :: tail =>
      match compare key head.1 with
      | .lt => (key, change none) :: head :: tail
      | .eq => (head.1, change (some head.2)) :: tail
      | .gt => head :: updateIn key change tail

theorem mem_updateIn {key : κ} {change : Option ν → ν} {entry : κ × ν}
    {entries : List (κ × ν)} [Std.LawfulEqOrd κ]
    (hentry : entry ∈ updateIn key change entries) :
    entry.1 = key ∨ entry ∈ entries := by
  induction entries with
  | nil => simp_all [updateIn]
  | cons head tail ih =>
      rw [updateIn] at hentry
      split at hentry
      · grind
      · rename_i hequal
        cases Std.LawfulEqOrd.eq_of_compare hequal
        grind
      · grind

theorem pairwise_updateIn [Std.TransOrd κ] [Std.LawfulEqOrd κ] (key : κ)
    (change : Option ν → ν) {entries : List (κ × ν)}
    (hincreasing : entries.Pairwise fun first second =>
      compare first.1 second.1 = .lt) :
    (updateIn key change entries).Pairwise
      fun first second => compare first.1 second.1 = .lt := by
  induction entries with
  | nil => simp [updateIn]
  | cons head tail ih =>
      rw [updateIn]
      rw [List.pairwise_cons] at hincreasing
      split
      · rename_i hbefore
        refine List.pairwise_cons.mpr ⟨?_, List.pairwise_cons.mpr hincreasing⟩
        intro other hother
        rcases List.mem_cons.mp hother with rfl | htail
        · exact hbefore
        · exact Std.TransCmp.lt_trans hbefore (hincreasing.1 other htail)
      · exact List.pairwise_cons.mpr hincreasing
      · rename_i hafter
        refine List.pairwise_cons.mpr ⟨?_, ih hincreasing.2⟩
        intro other hother
        rcases mem_updateIn hother with hkey | htail
        · exact hkey ▸ Std.OrientedCmp.gt_iff_lt.mp hafter
        · exact hincreasing.1 other htail

variable [Std.TransOrd κ] [Std.LawfulEqOrd κ]

def update (map : SortedMap κ ν) (key : κ) (change : Option ν → ν) :
    SortedMap κ ν :=
  ⟨updateIn key change map.entries, pairwise_updateIn key change map.increasing⟩

omit [Std.TransOrd κ] [Std.LawfulEqOrd κ] in
@[simp] theorem get?_empty [DecidableEq κ] (key : κ) :
    (∅ : SortedMap κ ν).get? key = none := rfl

omit [Ord κ] [Std.TransOrd κ] [Std.LawfulEqOrd κ] in
private theorem lookupIn_eq_none [DecidableEq κ] {key : κ} {entries : List (κ × ν)}
    (habsent : ∀ entry ∈ entries, key ≠ entry.1) : lookupIn key entries = none := by
  induction entries with
  | nil => rfl
  | cons head tail ih =>
      rw [lookupIn, if_neg (habsent head List.mem_cons_self)]
      exact ih fun entry hentry => habsent entry (List.mem_cons_of_mem _ hentry)

omit [Std.TransOrd κ] in
private theorem ne_of_compare_lt {first second : κ}
    (hbefore : compare first second = .lt) : first ≠ second := by
  rintro rfl
  simp at hbefore

private theorem lookupIn_updateIn [DecidableEq κ] (key other : κ)
    (change : Option ν → ν) {entries : List (κ × ν)}
    (hincreasing : entries.Pairwise fun first second =>
      compare first.1 second.1 = .lt) :
    lookupIn other (updateIn key change entries) =
      if other = key then some (change (lookupIn key entries))
        else lookupIn other entries := by
  induction entries with
  | nil => simp [updateIn, lookupIn]
  | cons head tail ih =>
      have hhead := List.pairwise_cons.mp hincreasing
      rw [updateIn]
      split
      · rename_i hbefore
        have habsent (entry : κ × ν) (hentry : entry ∈ head :: tail) :
            key ≠ entry.1 := by
          rcases List.mem_cons.mp hentry with rfl | htail
          · exact ne_of_compare_lt hbefore
          · exact ne_of_compare_lt
              (Std.TransCmp.lt_trans hbefore (hhead.1 entry htail))
        rw [lookupIn_eq_none habsent, lookupIn]
      · rename_i hequal
        cases Std.LawfulEqOrd.eq_of_compare hequal
        simp only [lookupIn]
        grind
      · rename_i hafter
        have hne := ne_of_compare_lt (Std.OrientedCmp.gt_iff_lt.mp hafter)
        simp only [lookupIn, ih hhead.2]
        grind

theorem get?_update [DecidableEq κ] (map : SortedMap κ ν) (key other : κ)
    (change : Option ν → ν) :
    (map.update key change).get? other =
      if other = key then some (change (map.get? key)) else map.get? other :=
  lookupIn_updateIn key other change map.increasing

omit [Std.TransOrd κ] [Std.LawfulEqOrd κ] in
def All [DecidableEq κ] (map : SortedMap κ ν) (holds : ν → Prop) : Prop :=
  ∀ key value, map.get? key = some value → holds value

omit [Std.TransOrd κ] [Std.LawfulEqOrd κ] in
theorem all_empty [DecidableEq κ] (holds : ν → Prop) :
    (∅ : SortedMap κ ν).All holds := by
  intro key value hvalue
  cases hvalue

theorem All.update [DecidableEq κ] {map : SortedMap κ ν} {holds : ν → Prop}
    {key : κ} {change : Option ν → ν} (hall : map.All holds)
    (hchanged : holds (change (map.get? key))) :
    (map.update key change).All holds := by
  intro other value hvalue
  rw [get?_update] at hvalue
  split at hvalue
  · cases hvalue
    exact hchanged
  · exact hall other value hvalue

omit [Ord κ] [Std.TransOrd κ] [Std.LawfulEqOrd κ] in
private theorem mem_of_lookupIn [DecidableEq κ] {key : κ} {value : ν}
    {entries : List (κ × ν)} (hlookup : lookupIn key entries = some value) :
    (key, value) ∈ entries := by
  induction entries with
  | nil => cases hlookup
  | cons head tail ih =>
      rw [lookupIn] at hlookup
      split at hlookup
      · rename_i hkey
        cases hlookup
        cases hkey
        exact List.mem_cons_self
      · exact List.mem_cons_of_mem _ (ih hlookup)

omit [Std.TransOrd κ] in
private theorem lookupIn_of_mem [DecidableEq κ] {key : κ} {value : ν}
    {entries : List (κ × ν)}
    (hincreasing : entries.Pairwise fun first second =>
      compare first.1 second.1 = .lt)
    (hentry : (key, value) ∈ entries) : lookupIn key entries = some value := by
  induction entries with
  | nil => cases hentry
  | cons head tail ih =>
      rw [List.pairwise_cons] at hincreasing
      rw [lookupIn]
      rcases List.mem_cons.mp hentry with rfl | htail
      · simp
      · rw [if_neg (ne_of_compare_lt (hincreasing.1 (key, value) htail)).symm]
        exact ih hincreasing.2 htail

omit [Std.TransOrd κ] in
theorem get?_eq_some_iff [DecidableEq κ] {map : SortedMap κ ν} {key : κ}
    {value : ν} :
    map.get? key = some value ↔ (key, value) ∈ map.entries :=
  ⟨mem_of_lookupIn, lookupIn_of_mem map.increasing⟩

omit [Std.TransOrd κ] [Std.LawfulEqOrd κ] in
def keysWhere (map : SortedMap κ ν) (test : ν → Bool) : SortedSet κ :=
  ⟨(map.entries.filter fun entry => test entry.2).map Prod.fst,
    (map.increasing.filter _).map _ fun _ _ => id⟩

omit [Std.TransOrd κ] in
theorem mem_keysWhere [DecidableEq κ] {map : SortedMap κ ν} {test : ν → Bool}
    {key : κ} :
    key ∈ map.keysWhere test ↔
      ∃ value, map.get? key = some value ∧ test value = true := by
  simp only [SortedSet.mem_def, keysWhere, List.mem_map, List.mem_filter,
    get?_eq_some_iff]
  constructor
  · rintro ⟨entry, hentry, rfl⟩
    exact ⟨entry.2, hentry⟩
  · rintro ⟨value, hentry⟩
    exact ⟨(key, value), hentry, rfl⟩

private theorem entries_eq_of_mem_iff {first second : List (κ × ν)}
    (hfirst : first.Pairwise fun left right => compare left.1 right.1 = .lt)
    (hsecond : second.Pairwise fun left right => compare left.1 right.1 = .lt)
    (hmem : ∀ entry, entry ∈ first ↔ entry ∈ second) : first = second := by
  have hne {left right : κ × ν} (hbefore : compare left.1 right.1 = .lt) :
      left ≠ right := by
    rintro rfl
    simp at hbefore
  have hasymm (left right : κ × ν) (_ : left ∈ first) (_ : right ∈ second)
      (hbefore : compare left.1 right.1 = .lt)
      (hafter : compare right.1 left.1 = .lt) : left = right :=
    absurd hafter (Std.OrientedCmp.not_lt_of_lt hbefore)
  exact List.Perm.eq_of_pairwise hasymm hfirst hsecond
    ((List.perm_ext_iff_of_nodup (hfirst.imp hne) (hsecond.imp hne)).mpr hmem)

@[ext] theorem ext [DecidableEq κ] {first second : SortedMap κ ν}
    (hget : ∀ key, first.get? key = second.get? key) : first = second := by
  have hmem (entry : κ × ν) : entry ∈ first.entries ↔ entry ∈ second.entries := by
    have hfirst : entry ∈ first.entries ↔ first.get? entry.1 = some entry.2 :=
      get?_eq_some_iff.symm
    rw [hfirst, hget, get?_eq_some_iff]
  cases first with
  | mk entries hincreasing =>
      cases second with
      | mk entries' hincreasing' =>
          cases entries_eq_of_mem_iff hincreasing hincreasing' hmem
          rfl

end SortedMap

end ChomskyChart
