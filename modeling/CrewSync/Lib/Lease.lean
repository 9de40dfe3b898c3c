import CrewSync.Lib.Runs
import Mathlib.Data.List.Basic

/-! Leases. A cell is free, or one owner holds it up to a time, or it is closed for good. The owner may
    move the time or give the cell up; anyone may take it once the time has passed. -/

namespace Lease
variable {ι : Type}

inductive Cell (ι : Type) where
  | free
  /-- Without a time, anyone may take the cell. -/
  | held (owner : ι) (expires : Option Int)
  | closed

inductive Op where
  | take | renew | release | close | stay

/-- `i` may take the cell at time `now`. -/
def Cell.Takeable (now : Int) (i : ι) : Cell ι → Prop
  | .free => True
  | .held owner expires => owner = i ∨ ∀ e ∈ expires, e < now
  | .closed => False

/-- What `i` can do to a cell at time `now`. -/
inductive Move (now : Int) (i : ι) : Op → Cell ι → Cell ι → Prop
  | take {c : Cell ι} {e : Int} (h : c.Takeable now i) : Move now i .take c (.held i (some e))
  | renew {expires : Option Int} {e : Int} : Move now i .renew (.held i expires) (.held i (some e))
  | release {expires : Option Int} : Move now i .release (.held i expires) .free
  | close {c : Cell ι} : Move now i .close c .closed
  | stay {c : Cell ι} : Move now i .stay c c

/-- The time of the cell has passed. -/
def Cell.Past (now : Int) : Cell ι → Prop
  | .held _ (some e) => e < now
  | _ => False

/-- `i` holds the cell up to some time, or the cell is closed. -/
def Cell.Kept (i : ι) (c : Cell ι) : Prop := c = .closed ∨ ∃ e, c = .held i (some e)

section
variable {now : Int} {i j : ι} {c c' : Cell ι} {op : Op}

theorem Cell.Kept.not_takeable (hc : c.Kept i) (hp : ¬ c.Past now) (hj : j ≠ i) : ¬ c.Takeable now j := by
  rintro ht
  rcases hc with rfl | ⟨e, rfl⟩
  · exact ht
  · rcases ht with h | h
    · exact hj h.symm
    · exact hp (h e rfl)

theorem Move.kept (h : Move now j op c c') (hc : c.Kept i) (hp : ¬ c.Past now)
    (hr : ¬ (op = .release ∧ j = i)) : c'.Kept i := by
  cases h with
  | take ht =>
    rcases eq_or_ne j i with rfl | hj
    · exact .inr ⟨_, rfl⟩
    · exact absurd ht (hc.not_takeable hp hj)
  | renew =>
    rcases hc with hc | ⟨e, hc⟩
    · cases hc
    · cases hc; exact .inr ⟨_, rfl⟩
  | release =>
    rcases hc with hc | ⟨e, hc⟩
    · cases hc
    · cases hc; exact absurd ⟨rfl, rfl⟩ hr
  | close => exact .inl rfl
  | stay => exact hc

/-- Another than the owner leaves a running lease as it is, or closes the cell. -/
theorem Move.other (h : Move now j op c c') (hc : c.Kept i) (hp : ¬ c.Past now) (hj : j ≠ i) :
    c' = c ∨ c' = .closed := by
  cases h with
  | take ht => exact absurd ht (hc.not_takeable hp hj)
  | renew | release =>
    rcases hc with hc | ⟨e, hc⟩
    · cases hc
    · cases hc; exact absurd rfl hj
  | close => exact .inr rfl
  | stay => exact .inl rfl

theorem Move.unowned (h : Move now j op c c') (hop : op ≠ .stay → ¬ op ≠ .close) : c' = c ∨ c' = .closed := by
  cases h with
  | take | renew | release => exact absurd (by simp) (hop (by simp))
  | close => exact .inr rfl
  | stay => exact .inl rfl

end

/-! ### Machines with a cell -/

variable {σ ε : Type}

/-- Each event of the machine makes one move on the cell. `who` is the mover of an event, and a cell is given
    up only by an event that has `released`. -/
structure Implements (next : σ → ε → σ) (inv : σ → Prop) (now : σ → Int) (cell : σ → Cell ι)
    (who : ε → Option ι) (released : σ → ε → Prop) : Prop where
  keeps : ∀ s e, inv s → inv (next s e)
  move : ∀ s e, inv s → ∃ i op, Move (now s) i op (cell s) (cell (next s e)) ∧
    (op ≠ .stay → op ≠ .close → who e = some i) ∧ (op = .release → released s e)

namespace Implements
variable {next : σ → ε → σ} {inv : σ → Prop} {now : σ → Int} {cell : σ → Cell ι} {who : ε → Option ι}
  {released : σ → ε → Prop} {i : ι} {s : σ} {es : List ε}

/-- The owner keeps the cell as long as the time has not passed and it does not give the cell up. -/
theorem kept (h : Implements next inv now cell who released) (hs : inv s) (hk : (cell s).Kept i)
    (hrun : Runs.Along next (fun s e => ¬ (cell s).Past (now s) ∧ ¬ (who e = some i ∧ released s e)) s es) :
    inv (Runs.after next s es) ∧ (cell (Runs.after next s es)).Kept i := by
  refine hrun.invariant (I := fun s => inv s ∧ (cell s).Kept i) ⟨hs, hk⟩ fun s e ⟨hp, hr⟩ ⟨hs, hk⟩ => ⟨h.keeps s e hs, ?_⟩
  obtain ⟨j, op, hm, hwho, hrel⟩ := h.move s e hs
  refine hm.kept hk hp ?_
  rintro ⟨rfl, rfl⟩
  exact hr ⟨hwho (by simp) (by simp), hrel rfl⟩

/-- Events of others leave a running lease as it is, or close the cell. -/
theorem other (h : Implements next inv now cell who released) (hs : inv s) (hk : (cell s).Kept i)
    (hp : ¬ (cell s).Past (now s)) {e : ε} (he : who e ≠ some i) :
    cell (next s e) = cell s ∨ cell (next s e) = .closed := by
  obtain ⟨j, op, hm, hwho, -⟩ := h.move s e hs
  rcases eq_or_ne j i with rfl | hj
  · exact hm.unowned fun h₁ h₂ => he (hwho h₁ h₂)
  · exact hm.other hk hp hj

end Implements
end Lease
