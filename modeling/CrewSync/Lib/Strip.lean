import Mathlib.Data.List.DropRight

/-! Lists without the elements of a kind at their two ends: what a `trim` leaves. -/

namespace Strip
variable {α : Type} {p : α → Bool} {l l' : List α}

/-- The list without the elements with `p` at its ends. -/
def strip (p : α → Bool) (l : List α) : List α := (l.dropWhile p).rdropWhile p

/-- Neither the first nor the last element has `p`. -/
structure Clean (p : α → Bool) (l : List α) : Prop where
  head : ∀ x ∈ l.head?, p x = false
  last : ∀ x ∈ l.getLast?, p x = false

theorem dropWhile_head (x : α) (h : x ∈ (l.dropWhile p).head?) : p x = false := by
  have := List.head?_dropWhile_not p l
  rw [Option.mem_def] at h
  rwa [h] at this

theorem dropWhile_eq_self (h : ∀ x ∈ l.head?, p x = false) : l.dropWhile p = l := by
  cases l with
  | nil => rfl
  | cons y l => exact List.dropWhile_cons_of_neg (by simp [h y rfl])

theorem head?_rdropWhile (x : α) (h : x ∈ (l.rdropWhile p).head?) : x ∈ l.head? := by
  obtain ⟨t, ht⟩ := List.rdropWhile_prefix p l
  cases hl : l.rdropWhile p with
  | nil => simp [hl] at h
  | cons y l' =>
    rw [hl] at h ht
    rw [← ht]
    exact h

theorem strip_clean (p : α → Bool) (l : List α) : Clean p (strip p l) where
  head x hx := dropWhile_head x (head?_rdropWhile x hx)
  last x hx := by
    rw [strip, List.rdropWhile, List.getLast?_reverse] at hx
    exact dropWhile_head x hx

theorem Clean.strip (h : Clean p l) : strip p l = l := by
  rw [Strip.strip, dropWhile_eq_self h.head, List.rdropWhile, dropWhile_eq_self fun x hx => h.last x ?_,
    List.reverse_reverse]
  rwa [List.head?_reverse] at hx

theorem strip_eq_self_iff : strip p l = l ↔ Clean p l :=
  ⟨fun h => h ▸ strip_clean p l, Clean.strip⟩

@[simp] theorem strip_strip (p : α → Bool) (l : List α) : strip p (strip p l) = strip p l := (strip_clean p l).strip

theorem strip_infix (p : α → Bool) (l : List α) : strip p l <:+: l :=
  (List.rdropWhile_prefix p _).isInfix.trans (List.dropWhile_suffix p).isInfix

theorem Clean.of_forall (h : ∀ x ∈ l, p x = false) : Clean p l :=
  ⟨fun x hx => h x (List.mem_of_mem_head? hx), fun x hx => h x (List.mem_of_mem_getLast? hx)⟩

/-- The first end of one list and the last one of another. -/
theorem Clean.append (h : Clean p l) (h' : Clean p l') (hl : l ≠ []) (hl' : l' ≠ []) (m : List α) :
    Clean p (l ++ m ++ l') where
  head x hx := h.head x (by
    rwa [List.append_assoc, List.head?_append_of_ne_nil _ hl] at hx)
  last x hx := h'.last x (by
    rwa [List.getLast?_append_of_ne_nil _ hl'] at hx)

end Strip
