import Mathlib.Data.List.Basic
import Mathlib.Data.List.Flatten

/-! Lists put together from pieces: which piece an element of the whole comes from, and what is missing from it. -/

namespace Pieces
variable {α β : Type} {f g : α → List β} {xs : List α}

/-- Parts of each piece: nothing is missing from the whole only if it is from no piece. -/
theorem flatMap_eq_iff (h : ∀ x ∈ xs, (f x).Sublist (g x)) :
    xs.flatMap f = xs.flatMap g ↔ ∀ x ∈ xs, f x = g x := by
  refine ⟨fun heq => ?_, List.flatMap_congr⟩
  induction xs with
  | nil => simp
  | cons x xs ih =>
    have hx := h x List.mem_cons_self
    have hrest' : ∀ y ∈ xs, (f y).Sublist (g y) := fun y hy => h y (List.mem_cons_of_mem x hy)
    simp only [List.flatMap_cons] at heq
    have hlength := congrArg List.length heq
    have hfirst := hx.length_le
    have hrest := (List.Sublist.flatMap_right xs hrest').length_le
    simp only [List.length_append] at hlength
    have hsame : f x = g x := hx.eq_of_length (by omega)
    rw [hsame, List.append_cancel_left_eq] at heq
    exact List.forall_mem_cons.2 ⟨hsame, ih hrest' heq⟩

/-- An element of the whole, in the place that it has, is an element of a piece. -/
theorem split_flatMap {pre post : List β} {c : β} (h : xs.flatMap f = pre ++ c :: post) :
    ∃ ys x zs a b, xs = ys ++ x :: zs ∧ f x = a ++ c :: b ∧ pre = ys.flatMap f ++ a ∧ post = b ++ zs.flatMap f := by
  induction xs generalizing pre with
  | nil => simp at h
  | cons x xs ih =>
    rw [List.flatMap_cons] at h
    rcases List.append_eq_append_iff.1 h with ⟨mid, rfl, hrest⟩ | ⟨mid, hx, hrest⟩
    · obtain ⟨ys, y, zs, a, b, rfl, hy, rfl, hpost⟩ := ih hrest
      exact ⟨x :: ys, y, zs, a, b, rfl, hy, by simp, hpost⟩
    · rcases List.cons_eq_append_iff.1 hrest with ⟨rfl, hrest⟩ | ⟨b, rfl, hrest⟩
      · rw [← List.nil_append (c :: post)] at hrest
        obtain ⟨ys, y, zs, a, b, rfl, hy, hpre, hpost⟩ := ih hrest.symm
        have hnil := List.append_eq_nil_iff.1 hpre.symm
        exact ⟨x :: ys, y, zs, a, b, rfl, hy, by simp [hx, hnil.1, hnil.2], hpost⟩
      · exact ⟨[], x, xs, pre, b, rfl, hx, by simp, (List.cons.inj hrest).2⟩

end Pieces
