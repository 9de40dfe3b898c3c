import CrewSync.Lib.Highest

/-! A memory of bounded size. Of the elements that were seen it keeps the highest `k`, and what it has forgotten lies below
    all that it keeps; so it is never wrong about an element that is still among the highest `w ≤ k` of a growing list. -/

namespace Highest
variable {α : Type} [LinearOrder α] {n : Nat} {l top : List α}

/-- The end of a list in ascending order. -/
theorem of_drop (h : l.Pairwise (· < ·)) : Highest n l (l.drop (l.length - n)) := by
  refine ⟨h.sublist (List.drop_sublist ..), ?_, fun x hx => List.mem_of_mem_drop hx, fun x hx hout y hy => ?_⟩
  · rw [List.length_drop]
    omega
  · rw [← List.take_append_drop (l.length - n) l] at hx h
    exact (List.pairwise_append.1 h).2.2 x ((List.mem_append.1 hx).resolve_right hout) y hy

theorem nodup (h : Highest n l top) : top.Nodup := h.sorted.imp ne_of_lt

/-- Where an element is left out, there are `n` others. -/
theorem length_of_not_mem (h : Highest n l top) {x : α} (hx : x ∈ l) (hout : x ∉ top) : top.length = n := by
  rw [h.length]
  refine Nat.min_eq_left (le_of_not_ge fun hle => hout (h.mem_of_le hle hx))

/-- An element above one that is shown is shown. -/
theorem mem_of_lt (h : Highest n l top) {x y : α} (hx : x ∈ top) (hy : y ∈ l) (hxy : x < y) : y ∈ top := by
  by_contra hout
  exact absurd (h.above y hy hout x hx) (not_lt_of_gt hxy)

/-- What is shown of a longer list was shown before, or is new. -/
theorem mem_of_subset (h : Highest n l top) {l' top' : List α} (h' : Highest n l' top') (hl : l ⊆ l') {x : α}
    (hx : x ∈ top') (hold : x ∈ l) : x ∈ top := by
  by_contra hout
  have hfull := h.length_of_not_mem hold hout
  -- All of the old ones that were shown are above, and so they still are.
  have hsub : x :: top ⊆ top' := by
    intro y hy
    rcases List.mem_cons.1 hy with rfl | hy
    · exact hx
    · exact h'.mem_of_lt hx (hl (h.subset hy)) (h.above x hold hout y hy)
  have hnodup : (x :: top).Nodup := List.nodup_cons.2 ⟨hout, h.nodup⟩
  have hle := (List.subperm_of_subset hnodup hsub).length_le
  have htop : top'.length ≤ n := h'.length ▸ Nat.min_le_left _ _
  rw [List.length_cons, hfull] at hle
  omega

end Highest

variable {α : Type} [LinearOrder α]

/-- What is stored of the elements that were seen. -/
structure Recalls (k : Nat) (seen stored : List α) : Prop where
  sorted : stored.Pairwise (· < ·)
  subset : stored ⊆ seen
  dropped : ∀ x ∈ seen, x ∉ stored → k ≤ stored.length ∧ ∀ y ∈ stored, x < y

namespace Recalls
variable {k w : Nat} {seen stored stored' l window : List α} {x : α}

theorem nil (k : Nat) : Recalls k ([] : List α) [] := ⟨.nil, List.Subset.refl _, fun _ h => by cases h⟩

theorem nodup (h : Recalls k seen stored) : stored.Nodup := h.sorted.imp ne_of_lt

/-- One more is seen. -/
theorem add (h : Recalls k seen stored) (hx : x ∉ stored) (hhigh : Highest k (x :: stored) stored') :
    Recalls k (x :: seen) stored' := by
  refine ⟨hhigh.sorted, fun y hy => ?_, fun y hy hout => ?_⟩
  · exact List.cons_subset_cons x h.subset (hhigh.subset hy)
  · by_cases hold : y ∈ x :: stored
    · exact ⟨(hhigh.length_of_not_mem hold hout).ge, hhigh.above y hold hout⟩
    · -- It was forgotten before, when all that was stored lay above it.
      have hseen : y ∈ seen := (List.mem_cons.1 hy).resolve_left fun he => hold (he ▸ List.mem_cons_self)
      obtain ⟨hfull, habove⟩ := h.dropped y hseen fun hmem => hold (List.mem_cons_of_mem _ hmem)
      have hlength : stored'.length = k := by
        rw [hhigh.length, List.length_cons]
        omega
      refine ⟨hlength.ge, fun z hz => ?_⟩
      rcases List.mem_cons.1 (hhigh.subset hz) with rfl | hz'
      · -- The new one took the place of one that lay above.
        obtain ⟨u, hu, hout'⟩ : ∃ u ∈ stored, u ∉ stored' := by
          by_contra hno
          push Not at hno
          have hsub : z :: stored ⊆ stored' := List.cons_subset.2 ⟨hz, hno⟩
          have hle := (List.subperm_of_subset (List.nodup_cons.2 ⟨hx, h.nodup⟩) hsub).length_le
          rw [List.length_cons] at hle
          omega
        exact (habove u hu).trans (hhigh.above u (List.mem_cons_of_mem _ hu) hout' z hz)
      · exact habove z hz'

/-- An element in the window was seen if and only if it is stored. -/
theorem mem_iff (h : Recalls k seen stored) (hw : w ≤ k) (hseen : seen ⊆ l) (hwindow : Highest w l window)
    (hx : x ∈ window) : x ∈ stored ↔ x ∈ seen := by
  refine ⟨fun hmem => h.subset hmem, fun hmem => ?_⟩
  by_contra hout
  obtain ⟨hfull, habove⟩ := h.dropped x hmem hout
  -- Everything that is stored lies above it, and so would have to be in the window as well.
  have hsub : x :: stored ⊆ window := by
    intro y hy
    rcases List.mem_cons.1 hy with rfl | hy
    · exact hx
    · exact hwindow.mem_of_lt hx (hseen (h.subset hy)) (habove y hy)
  have hle := (List.subperm_of_subset (List.nodup_cons.2 ⟨hout, h.nodup⟩) hsub).length_le
  have hlength : window.length ≤ w := hwindow.length ▸ Nat.min_le_left _ _
  rw [List.length_cons] at hle
  omega

end Recalls
