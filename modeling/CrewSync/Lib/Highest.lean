import Mathlib.Data.List.Sort
import Mathlib.Data.List.Nodup

/-! The last `n` of a list of distinct elements: what `ORDER BY … DESC LIMIT n` shows. -/

variable {α : Type} [LinearOrder α]

/-- The `n` highest elements of the list, or all of them, in ascending order. -/
structure Highest (n : Nat) (l top : List α) : Prop where
  sorted : top.Pairwise (· < ·)
  length : top.length = min n l.length
  subset : top ⊆ l
  above : ∀ x ∈ l, x ∉ top → ∀ y ∈ top, x < y

namespace Highest
variable {n : Nat} {l top : List α}

/-- The first `n` in descending order, turned around. -/
theorem of_take (hl : l.Nodup) : Highest n l ((l.insertionSort (· ≥ ·)).take n).reverse := by
  have hperm : (l.insertionSort (· ≥ ·)).Perm l := List.perm_insertionSort _ l
  have hsorted : (l.insertionSort (· ≥ ·)).Pairwise (· > ·) := by
    have hge : (l.insertionSort (· ≥ ·)).Pairwise (· ≥ ·) := List.pairwise_insertionSort _ l
    have hne : (l.insertionSort (· ≥ ·)).Pairwise (· ≠ ·) := hperm.nodup_iff.2 hl
    exact (hge.and hne).imp fun h => lt_of_le_of_ne h.1 (Ne.symm h.2)
  refine ⟨?_, ?_, fun x hx => ?_, fun x hx hout y hy => ?_⟩
  · exact List.pairwise_reverse.2 (hsorted.sublist (List.take_sublist ..))
  · rw [List.length_reverse, List.length_take, hperm.length_eq]
  · exact hperm.mem_iff.1 (List.mem_of_mem_take (List.mem_reverse.1 hx))
  · -- What is left out stands after what is taken.
    rw [List.mem_reverse] at hout hy
    have hx : x ∈ (l.insertionSort (· ≥ ·)).take n ++ (l.insertionSort (· ≥ ·)).drop n := by
      rw [List.take_append_drop]
      exact hperm.mem_iff.2 hx
    rw [← List.take_append_drop n (l.insertionSort (· ≥ ·))] at hsorted
    have hdrop := (List.mem_append.1 hx).resolve_left hout
    exact (List.pairwise_append.1 hsorted).2.2 y hy x hdrop

/-- Where there is room for all, all are shown. -/
theorem mem_of_le (h : Highest n l top) (hl : l.length ≤ n) {x : α} (hx : x ∈ l) : x ∈ top := by
  have hnodup : top.Nodup := h.sorted.imp ne_of_lt
  have hperm : top.Perm l := (List.subperm_of_subset hnodup h.subset).perm_of_length_le (by rw [h.length]; omega)
  exact hperm.mem_iff.2 hx

/-- The highest element is shown, unless nothing is. -/
theorem max_mem (h : Highest n l top) (hn : 0 < n) {x : α} (hx : x ∈ l) (hmax : ∀ y ∈ l, y ≤ x) : x ∈ top := by
  by_contra hout
  have hlen : 0 < top.length := by
    have := List.length_pos_of_mem hx
    rw [h.length]
    omega
  obtain ⟨y, hy⟩ := List.exists_mem_of_length_pos hlen
  exact absurd (h.above x hx hout y hy) (not_lt_of_ge (hmax y (h.subset hy)))

end Highest
