import Mathlib.Data.List.Sort
import Mathlib.Data.List.Nodup

/-! Tables as lists of rows: the statements that change a table, and what they keep. A key is any
    function of a row; `Keyed key rows` is a unique index on it. -/

namespace Rows
variable {α β κ : Type}

/-- `UPDATE … SET f WHERE p`. -/
def update (p : α → Bool) (f : α → α) (rows : List α) : List α :=
  rows.map fun r => if p r then f r else r

/-- `DELETE … WHERE p`. -/
def delete (p : α → Bool) (rows : List α) : List α :=
  rows.filter fun r => !p r

/-- `INSERT … ON CONFLICT (key) DO UPDATE`: the row with the key of `x` becomes `x`, or `x` is added. -/
def put [DecidableEq κ] (key : α → κ) (x : α) (rows : List α) : List α :=
  if rows.any fun r => key r = key x then update (fun r => key r = key x) (fun _ => x) rows else rows ++ [x]

/-- `ORDER BY`; rows that compare equal stay in table order. -/
def orderBy (le : α → α → Prop) [DecidableRel le] (rows : List α) : List α :=
  rows.insertionSort le

/-- No two rows have the same key. -/
def Keyed (key : α → κ) (rows : List α) : Prop := (rows.map key).Nodup

/-! ### Membership -/

theorem mem_update {p : α → Bool} {f : α → α} {rows : List α} {r : α} :
    r ∈ update p f rows ↔ ∃ s ∈ rows, (if p s then f s else s) = r := by
  simp [update]

@[simp] theorem mem_delete {p : α → Bool} {rows : List α} {r : α} :
    r ∈ delete p rows ↔ r ∈ rows ∧ p r = false := by
  simp [delete]

@[simp] theorem mem_put [DecidableEq κ] {key : α → κ} {x r : α} {rows : List α} :
    r ∈ put key x rows ↔ r = x ∨ (r ∈ rows ∧ key r ≠ key x) := by
  unfold put
  split
  · next h =>
    obtain ⟨y, hy, hyx⟩ : ∃ y ∈ rows, key y = key x := by simpa using h
    rw [mem_update]
    constructor
    · rintro ⟨s, hs, rfl⟩
      by_cases hk : key s = key x
      · simp [hk]
      · simp [hk, hs]
    · rintro (rfl | ⟨hr, hk⟩)
      · exact ⟨y, hy, by simp [hyx]⟩
      · exact ⟨r, hr, by simp [hk]⟩
  · next h =>
    have hno : ∀ y ∈ rows, key y ≠ key x := by simpa using h
    simp only [List.mem_append, List.mem_singleton]
    constructor
    · rintro (hr | rfl)
      · exact .inr ⟨hr, hno r hr⟩
      · exact .inl rfl
    · rintro (rfl | ⟨hr, -⟩)
      · exact .inr rfl
      · exact .inl hr

@[simp] theorem mem_orderBy {le : α → α → Prop} [DecidableRel le] {rows : List α} {r : α} :
    r ∈ orderBy le rows ↔ r ∈ rows :=
  List.mem_insertionSort le

@[simp] theorem length_orderBy {le : α → α → Prop} [DecidableRel le] {rows : List α} :
    (orderBy le rows).length = rows.length :=
  List.length_insertionSort le rows

/-- The first row of the order. -/
theorem le_of_head?_orderBy {le : α → α → Prop} [DecidableRel le] [Std.Total le] [IsTrans α le] {rows : List α}
    {r : α} (h : (orderBy le rows).head? = some r) : r ∈ rows ∧ ∀ s ∈ rows, le r s := by
  have hsorted : (orderBy le rows).Pairwise le := List.pairwise_insertionSort le rows
  obtain ⟨rest, hrest⟩ := List.head?_eq_some_iff.1 h
  have hmem : ∀ s ∈ rows, s ∈ r :: rest := fun s hs => hrest ▸ mem_orderBy.2 hs
  refine ⟨mem_orderBy.1 (List.mem_of_head? h), fun s hs => ?_⟩
  rw [hrest] at hsorted
  rcases List.mem_cons.1 (hmem s hs) with rfl | hs
  · exact (Std.Total.total (r := le) s s).elim id id
  · exact List.rel_of_pairwise_cons hsorted hs

theorem orderBy_perm {le : α → α → Prop} [DecidableRel le] {rows : List α} : (orderBy le rows).Perm rows :=
  List.perm_insertionSort le rows

/-! ### A part of the table that a statement leaves alone -/

theorem filter_update {p q : α → Bool} {f : α → α} {rows : List α}
    (h : ∀ r ∈ rows, p r = true → q r = false ∧ q (f r) = false) :
    (update p f rows).filter q = rows.filter q := by
  induction rows with
  | nil => rfl
  | cons r rows ih =>
    have ih := ih fun s hs => h s (List.mem_cons_of_mem r hs)
    have hr := h r List.mem_cons_self
    simp only [update, List.map_cons, List.filter_cons] at ih ⊢
    by_cases hp : p r = true
    · obtain ⟨h₁, h₂⟩ := hr hp
      simp [hp, h₁, h₂, ih]
    · simp [hp, ih]

theorem filter_delete {p q : α → Bool} {rows : List α} (h : ∀ r ∈ rows, p r = true → q r = false) :
    (delete p rows).filter q = rows.filter q := by
  rw [delete, List.filter_filter]
  refine List.filter_congr fun r hr => ?_
  cases hp : p r
  · simp
  · simp [h r hr hp]

theorem filter_put [DecidableEq κ] {key : α → κ} {x : α} {q : α → Bool} {rows : List α} (hx : q x = false)
    (h : ∀ r ∈ rows, key r = key x → q r = false) : (put key x rows).filter q = rows.filter q := by
  unfold put
  split
  · exact filter_update fun r hr hk => ⟨h r hr (by simpa using hk), hx⟩
  · simp [hx]

/-- An update in place keeps the keys. -/
theorem map_put [DecidableEq κ] {key : α → κ} {x : α} {rows : List α} (h : ∃ r ∈ rows, key r = key x) :
    (put key x rows).map key = rows.map key := by
  rw [put, if_pos (by simpa using h), update, List.map_map]
  refine List.map_congr_left fun r _ => ?_
  simp only [Function.comp_apply]
  split
  · next hk => exact (of_decide_eq_true hk).symm
  · rfl

theorem length_put_of_mem [DecidableEq κ] {key : α → κ} {x : α} {rows : List α} (h : ∃ r ∈ rows, key r = key x) :
    (put key x rows).length = rows.length := by
  simpa using congrArg List.length (map_put h)

theorem length_put_le [DecidableEq κ] (key : α → κ) (x : α) (rows : List α) :
    (put key x rows).length ≤ rows.length + 1 := by
  unfold put
  split
  · simp [update]
  · simp

theorem filter_append_one {q : α → Bool} {x : α} {rows : List α} (hx : q x = false) :
    (rows ++ [x]).filter q = rows.filter q := by
  simp [hx]

theorem orderedInsert_append {r : α → α → Prop} [DecidableRel r] {x y : α} (h : r y x) (rows : List α) :
    (rows ++ [x]).orderedInsert r y = rows.orderedInsert r y ++ [x] := by
  induction rows with
  | nil => simp [h]
  | cons z rows ih =>
    simp only [List.cons_append, List.orderedInsert_cons]
    split
    · rfl
    · rw [ih, List.cons_append]

/-- A new row that no old one comes after is the last. -/
theorem orderBy_append {r : α → α → Prop} [DecidableRel r] {x : α} {rows : List α} (h : ∀ y ∈ rows, r y x) :
    orderBy r (rows ++ [x]) = orderBy r rows ++ [x] := by
  induction rows with
  | nil => rfl
  | cons y rows ih =>
    have hrest := ih fun z hz => h z (List.mem_cons_of_mem y hz)
    simp only [orderBy, List.cons_append, List.insertionSort_cons] at hrest ⊢
    rw [hrest, orderedInsert_append (h y List.mem_cons_self)]

/-- The row that a search finds, after an `UPDATE` that keeps what the search looks at. -/
theorem find?_update {p q : α → Bool} {f : α → α} {rows : List α} (h : ∀ r, q (f r) = q r) :
    (update p f rows).find? q = (rows.find? q).map fun r => if p r then f r else r := by
  induction rows with
  | nil => rfl
  | cons r rows ih =>
    have hq : q (if p r then f r else r) = q r := by split <;> simp [h]
    simp only [update, List.map_cons, List.find?_cons, hq] at ih ⊢
    cases q r <;> simp [ih]

/-- A row with a property stays when the statement keeps the property. -/
theorem any_put [DecidableEq κ] {key : α → κ} {x : α} {q : α → Bool} {rows : List α} (h : rows.any q = true)
    (hx : ∀ r ∈ rows, key r = key x → q r = true → q x = true) : (put key x rows).any q = true := by
  obtain ⟨r, hr, hq⟩ := List.any_eq_true.1 h
  by_cases hk : key r = key x
  · exact List.any_eq_true.2 ⟨x, mem_put.2 (.inl rfl), hx r hr hk hq⟩
  · exact List.any_eq_true.2 ⟨r, mem_put.2 (.inr ⟨hr, hk⟩), hq⟩

theorem any_update {p q : α → Bool} {f : α → α} {rows : List α} (h : rows.any q = true)
    (hf : ∀ r ∈ rows, p r = true → q r = true → q (f r) = true) : (update p f rows).any q = true := by
  obtain ⟨r, hr, hq⟩ := List.any_eq_true.1 h
  refine List.any_eq_true.2 ⟨_, mem_update.2 ⟨r, hr, rfl⟩, ?_⟩
  split
  · next hp => exact hf r hr hp hq
  · exact hq

theorem any_append {q : α → Bool} {rows : List α} (h : rows.any q = true) (x : α) :
    (rows ++ [x]).any q = true := by
  simp [h]

theorem update_eq_self {p : α → Bool} {f : α → α} {rows : List α} (h : ∀ r ∈ rows, p r = false) :
    update p f rows = rows := by
  unfold update
  conv_rhs => rw [← List.map_id rows]
  exact List.map_congr_left fun r hr => by simp [h r hr]

theorem update_eq_self_iff {p : α → Bool} {f : α → α} {rows : List α} :
    update p f rows = rows ↔ ∀ r ∈ rows, p r = true → f r = r := by
  conv_lhs => rhs; rw [← List.map_id rows]
  rw [update, List.map_inj_left]
  refine forall₂_congr fun r _ => ?_
  cases p r <;> simp

/-- The row of a statement that finds one. -/
theorem head?_filter {p : α → Bool} {rows : List α} {t : α} (ht : t ∈ rows) (hp : ∀ r ∈ rows, p r = true ↔ r = t) :
    (rows.filter p).head? = some t := by
  obtain ⟨r, hr⟩ : ∃ r, (rows.filter p).head? = some r := Option.isSome_iff_exists.1 (by
    rw [List.isSome_head?]
    exact List.ne_nil_of_mem (List.mem_filter.2 ⟨ht, (hp t ht).2 rfl⟩))
  obtain ⟨hmem, hpr⟩ := List.mem_filter.1 (List.mem_of_mem_head? hr)
  rw [hr, (hp r hmem).1 hpr]

theorem delete_eq_self {p : α → Bool} {rows : List α} (h : ∀ r ∈ rows, p r = false) :
    delete p rows = rows := by
  simp only [delete, List.filter_eq_self]
  intro r hr
  simp [h r hr]

/-! ### Unique keys -/

namespace Keyed
variable {key : α → κ} {rows : List α}

@[simp] theorem nil : Keyed key [] := List.nodup_nil

theorem eq (h : Keyed key rows) {a b : α} (ha : a ∈ rows) (hb : b ∈ rows) (hk : key a = key b) : a = b :=
  List.inj_on_of_nodup_map h ha hb hk

/-- Two unique keys identify the same rows. -/
theorem iff {κ' : Type} {key' : α → κ'} (h : Keyed key rows) (h' : Keyed key' rows) {a b : α} (ha : a ∈ rows)
    (hb : b ∈ rows) : key a = key b ↔ key' a = key' b :=
  ⟨fun hk => congrArg key' (h.eq ha hb hk), fun hk => congrArg key (h'.eq ha hb hk)⟩

theorem append (h : Keyed key rows) {x : α} (hx : ∀ r ∈ rows, key r ≠ key x) : Keyed key (rows ++ [x]) := by
  simp only [Keyed, List.map_append, List.map_cons, List.map_nil, List.nodup_append, List.nodup_cons,
    List.not_mem_nil, not_false_eq_true, List.nodup_nil, and_true, true_and, List.mem_map, List.mem_singleton]
  refine ⟨h, ?_⟩
  rintro k ⟨r, hr, rfl⟩ _ rfl
  exact hx r hr

theorem filter (h : Keyed key rows) (p : α → Bool) : Keyed key (rows.filter p) :=
  h.sublist (List.filter_sublist.map key)

theorem delete (h : Keyed key rows) (p : α → Bool) : Keyed key (Rows.delete p rows) := h.filter _

theorem map (h : Keyed key rows) {f : α → α} (hf : ∀ r ∈ rows, key (f r) = key r) :
    Keyed key (rows.map f) := by
  have hm : (rows.map f).map key = rows.map key := by
    rw [List.map_map]
    exact List.map_congr_left fun r hr => hf r hr
  rw [Keyed, hm]
  exact h

theorem update (h : Keyed key rows) {p : α → Bool} {f : α → α}
    (hf : ∀ r ∈ rows, p r = true → key (f r) = key r) : Keyed key (Rows.update p f rows) := by
  refine h.map fun r hr => ?_
  split
  · next hp => exact hf r hr hp
  · rfl

theorem put [DecidableEq κ] (h : Keyed key rows) (x : α) : Keyed key (Rows.put key x rows) := by
  unfold Rows.put
  split
  · exact h.update fun r _ hk => (by simpa using hk : key r = key x).symm
  · next hno => exact h.append (by simpa using hno)

theorem put_eq_self_iff [DecidableEq κ] (h : Keyed key rows) {x : α} : Rows.put key x rows = rows ↔ x ∈ rows := by
  constructor
  · intro heq
    rw [← heq]
    exact mem_put.2 (.inl rfl)
  · intro hx
    rw [Rows.put, if_pos (List.any_eq_true.2 ⟨x, hx, by simp⟩), update_eq_self_iff]
    exact fun r hr hk => h.eq hx hr (of_decide_eq_true hk).symm

/-- A second key survives a `put` that keeps it together with the first one. -/
theorem put_of_iff {κ' : Type} [DecidableEq κ'] {key' : α → κ'} (h : Keyed key rows) {x : α}
    (hx : ∀ r ∈ rows, key r = key x ↔ key' r = key' x) : Keyed key (Rows.put key' x rows) := by
  unfold Rows.put
  split
  · exact h.update fun r hr hk => ((hx r hr).2 (by simpa using hk)).symm
  · next hno =>
    have hno : ∀ r ∈ rows, key' r ≠ key' x := by simpa using hno
    exact h.append fun r hr hk => hno r hr ((hx r hr).1 hk)

/-- The row with a key is the one that a search for the key finds. -/
theorem find?_eq_some (h : Keyed key rows) {p : α → Bool} {a : α} (ha : a ∈ rows) (hp : p a = true)
    (hk : ∀ r ∈ rows, p r = true → key r = key a) : rows.find? p = some a := by
  cases hf : rows.find? p with
  | none => simp [List.find?_eq_none.1 hf a ha] at hp
  | some b =>
    have hb := List.mem_of_find?_eq_some hf
    rw [h.eq hb ha (hk b hb (List.find?_some hf))]

/-- A filter that only one key passes keeps one row. -/
theorem filter_eq_singleton (h : Keyed key rows) {p : α → Bool} {a : α} (ha : a ∈ rows) (hp : p a = true)
    (hk : ∀ r ∈ rows, p r = true → key r = key a) : rows.filter p = [a] := by
  induction rows with
  | nil => cases ha
  | cons r rows ih =>
    obtain ⟨hnot, hrest⟩ := List.nodup_cons.1 (show (key r :: rows.map key).Nodup from h)
    rcases List.mem_cons.1 ha with rfl | ha
    · have hnone : rows.filter p = [] := List.filter_eq_nil_iff.2 fun s hs hps =>
        hnot (hk s (List.mem_cons_of_mem _ hs) hps ▸ List.mem_map_of_mem hs)
      rw [List.filter_cons_of_pos hp, hnone]
    · have hpr : ¬ p r = true := fun hpr => hnot (hk r List.mem_cons_self hpr ▸ List.mem_map_of_mem ha)
      rw [List.filter_cons_of_neg hpr]
      exact ih hrest ha fun s hs => hk s (List.mem_cons_of_mem _ hs)

/-- A search for a key finds a row, or no row has the key. -/
theorem find?_key [DecidableEq κ] (h : Keyed key rows) {q : α → Bool} {k : κ} (hq : ∀ r, q r = true ↔ key r = k)
    {a : α} : rows.find? q = some a ↔ a ∈ rows ∧ key a = k := by
  refine ⟨fun hf => ⟨List.mem_of_find?_eq_some hf, (hq a).1 (List.find?_some hf)⟩, fun ⟨ha, hk⟩ => ?_⟩
  exact h.find?_eq_some ha ((hq a).2 hk) fun r _ hr => ((hq r).1 hr).trans hk.symm

/-- The row that a search for a key finds after an upsert. -/
theorem find?_put [DecidableEq κ] (h : Keyed key rows) {x : α} {q : α → Bool} {k : κ}
    (hq : ∀ r, q r = true ↔ key r = k) :
    (Rows.put key x rows).find? q = if key x = k then some x else rows.find? q := by
  refine Option.ext fun a => ?_
  rw [(h.put x).find?_key hq, mem_put]
  split
  · next hx =>
    constructor
    · rintro ⟨rfl | ⟨-, hne⟩, ha⟩
      · rfl
      · exact absurd (ha.trans hx.symm) hne
    · intro ha
      obtain rfl := Option.some.inj ha
      exact ⟨.inl rfl, hx⟩
  · next hx =>
    rw [h.find?_key hq]
    constructor
    · rintro ⟨rfl | ⟨ha, -⟩, hk⟩
      · exact absurd hk hx
      · exact ⟨ha, hk⟩
    · rintro ⟨ha, hk⟩
      exact ⟨.inr ⟨ha, fun hax => hx (hax.symm.trans hk)⟩, hk⟩

/-- The row that a search for a key finds after a `DELETE`. -/
theorem find?_delete [DecidableEq κ] (h : Keyed key rows) {p q : α → Bool} {k : κ}
    (hq : ∀ r, q r = true ↔ key r = k) :
    (Rows.delete p rows).find? q = (rows.find? q).filter fun r => !p r := by
  refine Option.ext fun a => ?_
  rw [(h.delete p).find?_key hq, mem_delete, Option.filter_eq_some_iff, h.find?_key hq]
  simp [and_comm, and_left_comm]

end Keyed

/-! ### Ids drawn from a sequence -/

/-- Every id is at most the last value of the sequence. -/
def Below (id : α → Int) (last : Int) (rows : List α) : Prop := ∀ r ∈ rows, id r ≤ last

namespace Below
variable {id : α → Int} {last last' : Int} {rows : List α}

theorem mono (h : Below id last rows) (hl : last ≤ last') : Below id last' rows :=
  fun r hr => (h r hr).trans hl

theorem put [DecidableEq κ] {key : α → κ} (h : Below id last rows) {x : α} (hx : id x ≤ last) :
    Below id last (Rows.put key x rows) := by
  intro r hr
  rcases mem_put.1 hr with rfl | ⟨hr, -⟩
  · exact hx
  · exact h r hr

theorem append (h : Below id last rows) {x : α} (hx : id x ≤ last) : Below id last (rows ++ [x]) := by
  intro r hr
  rcases List.mem_append.1 hr with hr | hr
  · exact h r hr
  · rwa [List.mem_singleton.1 hr]

theorem delete (h : Below id last rows) (p : α → Bool) : Below id last (Rows.delete p rows) :=
  fun r hr => h r (mem_delete.1 hr).1

theorem map (h : Below id last rows) {f : α → α} (hf : ∀ r ∈ rows, id (f r) = id r) :
    Below id last (rows.map f) := by
  intro r hr
  obtain ⟨s, hs, rfl⟩ := List.mem_map.1 hr
  exact (hf s hs).trans_le (h s hs)

theorem update (h : Below id last rows) {p : α → Bool} {f : α → α}
    (hf : ∀ r ∈ rows, p r = true → id (f r) = id r) : Below id last (Rows.update p f rows) := by
  refine h.map fun r hr => ?_
  split
  · next hp => exact hf r hr hp
  · rfl

end Below

/-- A row with an id above all others is fresh. -/
theorem Keyed.append_above {id : α → Int} {rows : List α} (h : Keyed id rows) {x : α}
    (hx : ∀ r ∈ rows, id r < id x) : Keyed id (rows ++ [x]) :=
  h.append fun r hr => (hx r hr).ne

end Rows
