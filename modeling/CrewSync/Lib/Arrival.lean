import Mathlib.Data.List.Nodup
import Mathlib.Data.Nat.Basic
import Mathlib.Logic.Relation
import Mathlib.Order.WellFounded

/-! The order in which the elements of a list arrived, and relations that only point back in it. -/

namespace Arrival
variable {α : Type}

/-- `a` arrived before `b`. -/
def Before (l : List α) (a b : α) : Prop := ∃ l₁ l₂, l = l₁ ++ b :: l₂ ∧ a ∈ l₁

theorem Before.mono {l l' : List α} {a b : α} (h : Before l a b) (hl : l <+: l') : Before l' a b := by
  obtain ⟨l₁, l₂, rfl, ha⟩ := h
  obtain ⟨l₃, rfl⟩ := hl
  exact ⟨l₁, l₂ ++ l₃, by simp, ha⟩

theorem before_new {l : List α} {a : α} (ha : a ∈ l) (b : α) : Before (l ++ [b]) a b := ⟨l, [], rfl, ha⟩

theorem Before.idxOf_lt [DecidableEq α] {l : List α} {a b : α} (h : Before l a b) (hl : l.Nodup) :
    l.idxOf a < l.idxOf b := by
  obtain ⟨l₁, l₂, rfl, ha⟩ := h
  have hb : b ∉ l₁ := fun hb => List.disjoint_of_nodup_append hl hb List.mem_cons_self
  rw [List.idxOf_append_of_mem ha, List.idxOf_append_of_notMem hb]
  exact (List.idxOf_lt_length_of_mem ha).trans_le (Nat.le_add_right _ _)

/-- A relation that only points back has no cycle, of any length. -/
theorem acyclic {l : List α} (hl : l.Nodup) {R : α → α → Prop} (hR : ∀ a b, R a b → Before l b a) (a : α) :
    ¬ Relation.TransGen R a a := by
  classical
  have lower : ∀ {a b}, Relation.TransGen R a b → l.idxOf b < l.idxOf a := by
    intro a b h
    induction h with
    | single h => exact (hR _ _ h).idxOf_lt hl
    | tail _ h ih => exact ((hR _ _ h).idxOf_lt hl).trans ih
  exact fun h => lt_irrefl _ (lower h)

/-- Among the elements with `P` there is one before which none with `P` arrived. -/
theorem exists_first {l : List α} (hl : l.Nodup) {P : α → Prop} {a : α} (ha : a ∈ l) (hP : P a) :
    ∃ b ∈ l, P b ∧ ∀ c, Before l c b → ¬ P c := by
  classical
  have hw : WellFounded (InvImage (· < ·) (l.idxOf ·)) := InvImage.wf _ wellFounded_lt
  obtain ⟨b, ⟨hb, hPb⟩, hmin⟩ := hw.has_min {b | b ∈ l ∧ P b} ⟨a, ha, hP⟩
  refine ⟨b, hb, hPb, fun c hc hPc => hmin c ⟨?_, hPc⟩ (hc.idxOf_lt hl)⟩
  obtain ⟨l₁, l₂, rfl, hc⟩ := hc
  exact List.mem_append_left _ hc

end Arrival
