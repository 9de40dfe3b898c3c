import CrewSync.Lib.Sorted

/-! A part of a table, and the queries that find everything they ask for in it. -/

namespace Rows
variable {α β : Type} {p q : α → Bool} {rows : List α}

theorem filter_part (h : ∀ r ∈ rows, p r = true → q r = true) : (rows.filter q).filter p = rows.filter p := by
  rw [List.filter_filter]
  refine List.filter_congr fun r hr => ?_
  cases hp : p r
  · rw [Bool.false_and]
  · rw [h r hr hp, Bool.true_and]

theorem find?_part (h : ∀ r ∈ rows, p r = true → q r = true) : (rows.filter q).find? p = rows.find? p := by
  induction rows with
  | nil => rfl
  | cons r rows ih =>
    have ih := ih fun s hs => h s (List.mem_cons_of_mem r hs)
    cases hq : q r with
    | true => rw [List.filter_cons_of_pos hq, List.find?_cons, List.find?_cons, ih]
    | false =>
      have hp : p r = false := by
        rw [← Bool.not_eq_true]
        intro hp
        rw [h r List.mem_cons_self hp] at hq
        cases hq
      rw [List.filter_cons_of_neg (by simp [hq]), List.find?_cons_of_neg (by simp [hp]), ih]

theorem any_part (h : ∀ r ∈ rows, p r = true → q r = true) : (rows.filter q).any p = rows.any p := by
  rw [Bool.eq_iff_iff, List.any_eq_true, List.any_eq_true]
  constructor
  · rintro ⟨r, hr, hp⟩
    exact ⟨r, (List.mem_filter.1 hr).1, hp⟩
  · rintro ⟨r, hr, hp⟩
    exact ⟨r, List.mem_filter.2 ⟨hr, h r hr hp⟩, hp⟩

theorem any_filter_and : (rows.filter q).any p = rows.any fun r => p r && q r := by
  rw [List.any_filter]
  exact congrArg rows.any (funext fun r => Bool.and_comm _ _)

theorem filterMap_part {f : α → Option β} (h : ∀ r ∈ rows, (f r).isSome = true → q r = true) :
    (rows.filter q).filterMap f = rows.filterMap f := by
  rw [List.filterMap_filter]
  refine List.filterMap_congr fun r hr => ?_
  cases hq : q r
  · cases hf : f r with
    | none => rfl
    | some b =>
      rw [h r hr (by rw [hf]; rfl)] at hq
      cases hq
  · rfl

section
variable {ι : Type} [LinearOrder ι] {id : α → ι}

/-- With unique keys the order of a part is the order it has in the whole. -/
theorem filter_orderBy_desc (h : Keyed id rows) :
    (orderBy (fun a b => id b ≤ id a) rows).filter q = orderBy (fun a b => id b ≤ id a) (rows.filter q) := by
  have hperm : ((orderBy (fun a b => id b ≤ id a) rows).filter q).Perm (orderBy (fun a b => id b ≤ id a) (rows.filter q)) :=
    (orderBy_perm.filter q).trans orderBy_perm.symm
  exact hperm.eq_of_pairwise (fun _ _ _ _ hab hba => absurd hab hba.asymm) ((orderBy_desc h).filter q)
    (orderBy_desc (h.filter q))

theorem filterMap_orderBy_part {f : α → Option β} (h : Keyed id rows) (hf : ∀ r ∈ rows, (f r).isSome = true → q r = true) :
    (orderBy (fun a b => id b ≤ id a) (rows.filter q)).filterMap f = (orderBy (fun a b => id b ≤ id a) rows).filterMap f := by
  rw [← filter_orderBy_desc h]
  exact filterMap_part fun r hr => hf r (mem_orderBy.1 hr)

end

theorem mem_update_cases {f : α → α} {r : α} (h : r ∈ update p f rows) : r ∈ rows ∨ ∃ s ∈ rows, p s = true ∧ r = f s := by
  rcases mem_update.1 h with ⟨s, hs, rfl⟩
  split
  · next hp => exact .inr ⟨s, hs, hp, rfl⟩
  · exact .inl hs

end Rows
