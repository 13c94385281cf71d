import NamingLint.Path

/-! The order of paths.

Paths are compared by their components only, so two ways to write a path are at the same place. Between
paths of different components the order is strict and total, and a sorted list of such paths is determined
by its members. -/

namespace NamingLint.Path

instance : Std.TransCmp Component.compare :=
  inferInstanceAs (Std.TransCmp (compareLex (compareOn Component.rank) (compareOn Component.name)))

theorem Component.eq_of_rank_of_name {a b : Component} (ranks : a.rank = b.rank)
    (names : a.name = b.name) : a = b := by
  cases a <;> cases b <;> simp_all [rank, name]

instance : Std.LawfulEqCmp Component.compare where
  eq_of_compare same := by
    rw [Component.compare, Ordering.then_eq_eq] at same
    exact Component.eq_of_rank_of_name (Std.LawfulEqCmp.eq_of_compare same.1)
      (Std.LawfulEqCmp.eq_of_compare same.2)

theorem compare_swap (p q : Path) : p.compare q = (q.compare p).swap := by
  rw [compare, compare]
  exact Std.OrientedCmp.eq_swap

theorem precedes_eq_isLE (p q : Path) : p.precedes q = (p.compare q).isLE := by
  rw [precedes]
  cases p.compare q <;> rfl

theorem precedes_trans (p q r : Path) (first : p.precedes q = true) (second : q.precedes r = true) :
    p.precedes r = true := by
  rw [precedes_eq_isLE, compare] at first second ⊢
  exact Std.TransCmp.isLE_trans first second

theorem precedes_total (p q : Path) : (p.precedes q || q.precedes p) = true := by
  rw [precedes_eq_isLE, precedes_eq_isLE, compare_swap]
  cases q.compare p <;> rfl

/-- Strictly before, by the first component that differs. -/
def ComesBefore (p q : Path) : Prop := p.compare q = .lt

theorem ComesBefore.asymm {p q : Path} (before : p.ComesBefore q) : ¬ q.ComesBefore p := by
  intro after
  rw [ComesBefore, compare_swap, before] at after
  cases after

theorem ComesBefore.ne {p q : Path} (before : p.ComesBefore q) : p ≠ q := by
  intro same
  rw [same] at before
  exact before.asymm before

theorem comesBefore_of_precedes {p q : Path} (precedes : p.precedes q = true)
    (differ : p.components ≠ q.components) : p.ComesBefore q := by
  rw [precedes_eq_isLE] at precedes
  rw [ComesBefore]
  cases order : p.compare q with
  | lt => rfl
  | eq =>
      rw [compare] at order
      exact absurd (Std.LawfulEqCmp.eq_of_compare order) differ
  | gt =>
      rw [order] at precedes
      cases precedes

theorem pairwise_sort {paths : List Path}
    (distinct : paths.Pairwise fun p q => p.components ≠ q.components) :
    (sort paths).Pairwise ComesBefore := by
  have sorted : (sort paths).Pairwise fun p q => p.precedes q = true :=
    List.pairwise_mergeSort precedes_trans precedes_total paths
  have stillDistinct : (sort paths).Pairwise fun p q => p.components ≠ q.components :=
    (List.mergeSort_perm paths precedes).symm.pairwise distinct Ne.symm
  apply (sorted.and stillDistinct).imp
  intro p q both
  exact comesBefore_of_precedes both.1 both.2

theorem eq_of_sorted_of_mem {first second : List Path} (left : first.Pairwise ComesBefore)
    (right : second.Pairwise ComesBefore) (same : ∀ path, path ∈ first ↔ path ∈ second) :
    first = second := by
  have firstNodup : first.Nodup := left.imp ComesBefore.ne
  have secondNodup : second.Nodup := right.imp ComesBefore.ne
  apply List.Perm.eq_of_pairwise _ left right
  · exact (List.perm_ext_iff_of_nodup firstNodup secondNodup).mpr same
  · intro p q _ _ before after
    exact absurd after before.asymm

end NamingLint.Path
