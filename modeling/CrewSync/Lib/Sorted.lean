import CrewSync.Lib.Rows

/-! What `ORDER BY` makes of a table, and what `LIMIT` leaves of it. -/

namespace Rows
variable {α : Type} {rows : List α}

theorem orderBy_sorted (le : α → α → Prop) [DecidableRel le] [Std.Total le] [IsTrans α le] :
    (orderBy le rows).Pairwise le :=
  List.pairwise_insertionSort le rows

/-- Sorting by an order of keys sorts the keys. -/
theorem orderBy_sorted_key {κ : Type} [LinearOrder κ] {le : α → α → Prop} [DecidableRel le] (key : α → κ)
    (hle : ∀ a b, le a b ↔ key a ≤ key b) : (orderBy le rows).Pairwise fun a b => key a ≤ key b := by
  have : Std.Total le := ⟨fun a b => (le_total (key a) (key b)).imp (hle a b).2 (hle b a).2⟩
  have : IsTrans α le := ⟨fun a b c hab hbc => (hle a c).2 (((hle a b).1 hab).trans ((hle b c).1 hbc))⟩
  exact (orderBy_sorted le).imp (hle _ _).1

/-! ### Rows that come before the others -/

/-- The rows that pass `p` come before those that do not. -/
def Leads (p : α → Bool) (rows : List α) : Prop := rows.Pairwise fun a b => p b = true → p a = true

/-- The first rows are the ones that pass. -/
theorem Leads.take_filter {p : α → Bool} (h : Leads p rows) : rows.take (rows.filter p).length = rows.filter p := by
  induction rows with
  | nil => rfl
  | cons r rows ih =>
    obtain ⟨hr, hrest⟩ := List.pairwise_cons.1 h
    by_cases hp : p r = true
    · rw [List.filter_cons_of_pos hp, List.length_cons, List.take_succ_cons, ih hrest]
    · have hnone : rows.filter p = [] := List.filter_eq_nil_iff.2 fun s hs hps => hp (hr s hs hps)
      rw [List.filter_cons_of_neg hp, hnone, List.length_nil, List.take_zero]

/-- A limit with room for the rows that pass shows them alone, if it is full or there are no others. -/
theorem Leads.take_eq_filter {p : α → Bool} {n : Nat} (h : Leads p rows) (hroom : (rows.filter p).length ≤ n)
    (hfits : (∀ r ∈ rows, p r = true) ∨ (rows.filter p).length = n) : rows.take n = rows.filter p := by
  rcases hfits with hall | hfull
  · rw [List.filter_eq_self.2 hall] at hroom ⊢
    exact List.take_of_length_le hroom
  · rw [← hfull, h.take_filter]

/-- Otherwise it shows more. -/
theorem take_length_eq {p : α → Bool} {n : Nat} (h : (rows.take n).length = (rows.filter p).length) :
    (∀ r ∈ rows, p r = true) ∨ (rows.filter p).length = n := by
  rw [List.length_take] at h
  rcases Nat.le_total n rows.length with hn | hn
  · exact .inr (h.symm.trans (Nat.min_eq_left hn))
  · exact .inl (List.length_filter_eq_length_iff.1 (h.symm.trans (Nat.min_eq_right hn)))

/-! ### The rank of a row -/

section
variable {ι : Type} [LinearOrder ι] {id : α → ι}

theorem orderBy_lt {κ : Type} [LinearOrder κ] {le : α → α → Prop} [DecidableRel le] {key : α → κ} (h : Keyed key rows)
    (hle : ∀ a b, le a b ↔ key a ≤ key b) : (orderBy le rows).Pairwise fun a b => key a < key b := by
  have hne : (orderBy le rows).Pairwise fun a b => key a ≠ key b :=
    List.pairwise_map.1 ((orderBy_perm.map key).nodup_iff.2 h)
  exact ((orderBy_sorted_key key hle).and hne).imp fun h => lt_of_le_of_ne h.1 h.2

theorem orderBy_desc (h : Keyed id rows) : (orderBy (fun a b => id b ≤ id a) rows).Pairwise fun a b => id b < id a :=
  orderBy_lt (show Keyed (fun r => OrderDual.toDual (id r)) rows from h) fun _ _ => Iff.rfl

/-- A row is among the first in descending order if not too many rows are above it. -/
theorem mem_take_desc_iff (h : Keyed id rows) {r : α} (hr : r ∈ rows) (n : Nat) :
    r ∈ (orderBy (fun a b => id b ≤ id a) rows).take n ↔ (rows.filter fun s => decide (id r ≤ id s)).length ≤ n := by
  have hperm : (orderBy (fun a b => id b ≤ id a) rows).Perm rows := orderBy_perm
  have hdesc := orderBy_desc h
  rw [← (hperm.filter _).length_eq]
  have hr := hperm.mem_iff.2 hr
  generalize orderBy (fun a b => id b ≤ id a) rows = sorted at hr hdesc
  have hleads : Leads (fun s => decide (id r ≤ id s)) sorted := hdesc.imp fun hlt hle =>
    decide_eq_true ((of_decide_eq_true hle).trans hlt.le)
  have htake := hleads.take_filter
  generalize hk : (sorted.filter fun s => decide (id r ≤ id s)).length = k at htake ⊢
  constructor
  · intro hin
    by_contra hlt
    -- The row at position `n` is not below `r`, but it comes after it.
    have hlength : k ≤ sorted.length := hk ▸ List.length_filter_le _ _
    have hn : n < sorted.length := by omega
    have hmem : sorted[n] ∈ sorted.take k := List.mem_take_iff_getElem.2 ⟨n, by omega, rfl⟩
    rw [htake] at hmem
    have hle : id r ≤ id sorted[n] := of_decide_eq_true (List.mem_filter.1 hmem).2
    obtain ⟨i, hi, hri⟩ := List.mem_take_iff_getElem.1 hin
    have hgt : id sorted[n] < id sorted[i] := List.pairwise_iff_getElem.1 hdesc i n (by omega) hn (by omega)
    rw [hri] at hgt
    exact absurd hgt (not_lt_of_ge hle)
  · intro hle
    have hmem : r ∈ sorted.take k := htake ▸ List.mem_filter.2 ⟨hr, decide_eq_true le_rfl⟩
    exact (List.take_sublist_take_left hle).mem hmem

end
end Rows
