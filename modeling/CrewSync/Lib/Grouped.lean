import Mathlib.Data.List.Induction
import Mathlib.Data.List.Sort

/-! Grouping in one pass: a row joins the last group if it has the key of that group, and starts a new one otherwise.
    Where the rows are sorted by the key, the groups are those of the key. -/

namespace Grouped
variable {ρ κ : Type} [LinearOrder κ] (key : ρ → κ)

/-- One row; the last group comes first. -/
def join (groups : List (List ρ)) (r : ρ) : List (List ρ) :=
  match groups with
  | [] => [[r]]
  | g :: rest => if g.head?.map key = some (key r) then (g ++ [r]) :: rest else [r] :: g :: rest

/-- The groups hold the rows in their order, each with one key and no two with the same. -/
structure Groups (rows : List ρ) (groups : List (List ρ)) : Prop where
  rows : groups.reverse.flatten = rows
  one : ∀ g ∈ groups, ∃ r, g.head? = some r ∧ ∀ s ∈ g, key s = key r
  apart : groups.Pairwise fun g g' => ∀ r ∈ g, ∀ s ∈ g', key r ≠ key s

variable {key} {rows : List ρ} {groups : List (List ρ)}

namespace Groups

omit [LinearOrder κ] in
theorem nil : Groups key [] ([] : List (List ρ)) := ⟨rfl, by simp, List.Pairwise.nil⟩

omit [LinearOrder κ] in
theorem mem_iff (h : Groups key rows groups) {r : ρ} : r ∈ rows ↔ ∃ g ∈ groups, r ∈ g := by
  rw [← h.rows, List.mem_flatten]
  simp only [List.mem_reverse]

/-- A group that is not the last has other keys than the row that comes next. -/
theorem older {g : List ρ} {rest : List (List ρ)} (h : Groups key rows (g :: rest)) {r : ρ}
    (hsorted : (rows ++ [r]).Pairwise fun a b => key a ≤ key b) : ∀ g' ∈ rest, ∀ s ∈ g', key s ≠ key r := by
  intro g' hg' s hs heq
  obtain ⟨lead, hlead, -⟩ := h.one g List.mem_cons_self
  have hmem : lead ∈ g := List.mem_of_head? hlead
  -- The key of the last group lies between that of the older row and that of the next one.
  have hrows : rows = rest.reverse.flatten ++ g := by
    rw [← h.rows, List.reverse_cons, List.flatten_append, List.flatten_singleton]
  have hin : s ∈ rest.reverse.flatten := List.mem_flatten.2 ⟨g', List.mem_reverse.2 hg', hs⟩
  obtain ⟨hold, -, hnext⟩ := List.pairwise_append.1 hsorted
  rw [hrows] at hold
  have hle := (List.pairwise_append.1 hold).2.2 s hin lead hmem
  have hle' := hnext lead (h.mem_iff.2 ⟨g, List.mem_cons_self, hmem⟩) r (List.mem_singleton_self r)
  exact (List.pairwise_cons.1 h.apart).1 g' hg' lead hmem s hs (le_antisymm (hle'.trans heq.ge) hle)

theorem join (h : Groups key rows groups) {r : ρ} (hsorted : (rows ++ [r]).Pairwise fun a b => key a ≤ key b) :
    Groups key (rows ++ [r]) (Grouped.join key groups r) := by
  cases groups with
  | nil =>
    obtain rfl : [] = rows := h.rows
    exact ⟨rfl, by simp [Grouped.join], List.pairwise_singleton ..⟩
  | cons g rest =>
    have holder := h.older hsorted
    obtain ⟨lead, hlead, hkeys⟩ := h.one g List.mem_cons_self
    obtain ⟨hapart, hrest⟩ := List.pairwise_cons.1 h.apart
    have hrows := h.rows
    rw [List.reverse_cons, List.flatten_append, List.flatten_singleton] at hrows
    simp only [Grouped.join, hlead, Option.map_some, Option.some.injEq]
    split
    · next hsame =>
      refine ⟨?_, ?_, List.pairwise_cons.2 ⟨?_, hrest⟩⟩
      · rw [List.reverse_cons, List.flatten_append, List.flatten_singleton, ← List.append_assoc, hrows]
      · intro g' hg'
        rcases List.mem_cons.1 hg' with rfl | hg'
        · refine ⟨lead, by rw [List.head?_append, hlead]; rfl, fun s hs => ?_⟩
          rcases List.mem_append.1 hs with hs | hs
          · exact hkeys s hs
          · rw [List.mem_singleton.1 hs, hsame]
        · exact h.one g' (List.mem_cons_of_mem g hg')
      · intro g' hg' x hx s hs
        rcases List.mem_append.1 hx with hx | hx
        · exact hapart g' hg' x hx s hs
        · rw [List.mem_singleton.1 hx]
          exact (holder g' hg' s hs).symm
    · next hother =>
      refine ⟨?_, ?_, List.pairwise_cons.2 ⟨?_, h.apart⟩⟩
      · rw [List.reverse_cons, List.flatten_append, List.flatten_singleton, h.rows]
      · intro g' hg'
        rcases List.mem_cons.1 hg' with rfl | hg'
        · exact ⟨r, rfl, fun s hs => by rw [List.mem_singleton.1 hs]⟩
        · exact h.one g' hg'
      · intro g' hg' x hx s hs
        rw [List.mem_singleton.1 hx]
        rcases List.mem_cons.1 hg' with rfl | hg'
        · rw [hkeys s hs]
          exact Ne.symm hother
        · exact (holder g' hg' s hs).symm

omit [LinearOrder κ] in
/-- Each group is the part of the rows that has its key. -/
theorem filter_eq [DecidableEq κ] (h : Groups key rows groups) {g : List ρ} (hg : g ∈ groups) {r : ρ} (hr : r ∈ g) :
    rows.filter (fun s => key s == key r) = g := by
  obtain ⟨lead, -, hkeys⟩ := h.one g hg
  obtain ⟨before, after, rfl⟩ := List.append_of_mem hg
  obtain ⟨-, hafter, hbefore⟩ := List.pairwise_append.1 h.apart
  have hnone : ∀ gs : List (List ρ), (∀ g' ∈ gs, ∀ s ∈ g', key s ≠ key r) →
      gs.reverse.flatten.filter (fun s => key s == key r) = [] := by
    intro gs hgs
    rw [List.filter_eq_nil_iff]
    intro s hs
    obtain ⟨g', hg', hs⟩ := List.mem_flatten.1 hs
    simpa using hgs g' (List.mem_reverse.1 hg') s hs
  have hlater : after.reverse.flatten.filter (fun s => key s == key r) = [] := hnone after fun g' hg' s hs =>
    ((List.pairwise_cons.1 hafter).1 g' hg' r hr s hs).symm
  have hearlier : before.reverse.flatten.filter (fun s => key s == key r) = [] := hnone before fun g' hg' s hs =>
    hbefore g' hg' g List.mem_cons_self s hs r hr
  have hown : g.filter (fun s => key s == key r) = g := List.filter_eq_self.2 fun s hs => by
    rw [beq_iff_eq, hkeys s hs, hkeys r hr]
  rw [← h.rows, List.reverse_append, List.reverse_cons, List.flatten_append, List.flatten_append, List.flatten_singleton,
    List.filter_append, List.filter_append, hlater, hearlier, hown, List.nil_append, List.append_nil]

end Groups

variable (key) in
/-- One pass over sorted rows makes the groups. -/
theorem foldl_groups (h : rows.Pairwise fun a b => key a ≤ key b) : Groups key rows (rows.foldl (join key) []) := by
  induction rows using List.reverseRecOn with
  | nil => exact .nil
  | append_singleton rows r ih =>
    rw [List.foldl_append]
    exact (ih (List.pairwise_append.1 h).1).join h

/-- A pass that keeps a value for each group, made of the group, keeps the values of the groups. -/
theorem foldl_map {ε : Type} (entry : List ρ → ε) (step : List ε → ρ → List ε) (hnil : ∀ r, step [] r = [entry [r]])
    (hcons : ∀ s g es r, step (entry (s :: g) :: es) r =
      if key s = key r then entry (s :: g ++ [r]) :: es else entry [r] :: entry (s :: g) :: es)
    (h : rows.Pairwise fun a b => key a ≤ key b) :
    rows.foldl step [] = (rows.foldl (join key) []).map entry := by
  induction rows using List.reverseRecOn with
  | nil => rfl
  | append_singleton rows r ih =>
    have hold := (List.pairwise_append.1 h).1
    have hgroups := foldl_groups key hold
    rw [List.foldl_append, List.foldl_append, ih hold]
    simp only [List.foldl_cons, List.foldl_nil]
    generalize rows.foldl (join key) [] = groups at hgroups
    cases groups with
    | nil => exact hnil r
    | cons g rest =>
      obtain ⟨lead, hlead, -⟩ := hgroups.one g List.mem_cons_self
      obtain ⟨tail, rfl⟩ := List.head?_eq_some_iff.1 hlead
      rw [List.map_cons, hcons, join, List.head?_cons, Option.map_some]
      simp only [Option.some.injEq]
      split <;> rfl

end Grouped
