import CrewSync.Lib.Highest

/-! A reader of a growing log. It keeps a mark, and each batch that it is given is the last few entries above the mark,
    which then moves to the last of them: an entry that a batch has no room for is passed over for good. -/

variable {α : Type} [LinearOrder α]

/-- What a reader has been given, and how far it has read. -/
structure Reader (α : Type) where
  mark : α
  given : List α

/-- The entries above the mark. -/
def Reader.backlog (r : Reader α) (log : List α) : List α := log.filter (r.mark < ·)

/-- The reader is given the last `n` entries above its mark. -/
structure Reader.Reads (n : Nat) (log : List α) (r r' : Reader α) (batch : List α) : Prop where
  last : Highest n (r.backlog log) batch
  given : r'.given = r.given ++ batch
  upTo : ∀ x ∈ batch, x ≤ r'.mark
  mark : r'.mark = r.mark ∨ r'.mark ∈ batch

/-- The reader was given each entry once, in the order of the log, and none above its mark. -/
structure Reader.Sound (r : Reader α) : Prop where
  ordered : r.given.Pairwise (· < ·)
  upTo : ∀ x ∈ r.given, x ≤ r.mark

/-- Every entry up to the mark was given. -/
def Reader.Lossless (log : List α) (r : Reader α) : Prop := ∀ x ∈ log, x ≤ r.mark → x ∈ r.given

namespace Reader
variable {n : Nat} {log log' batch : List α} {r r' : Reader α} {start since : α}

theorem mem_backlog {x : α} : x ∈ r.backlog log ↔ x ∈ log ∧ r.mark < x := by
  rw [backlog, List.mem_filter, decide_eq_true_eq]

/-- Entries that a reader has passed are none of its backlog. -/
theorem backlog_above (h : start ≤ r.mark) : r.backlog (log.filter (start < ·)) = r.backlog log := by
  rw [backlog, backlog, List.filter_filter]
  refine List.filter_congr fun x _ => ?_
  by_cases hx : r.mark < x
  · simp [hx, h.trans_lt hx]
  · simp [hx]

/-! ### Batches that overlap -/

/-- The reader is given the last `n` entries above a mark that it had earlier: batches that were begun before it moved are
    given to it as well. -/
structure Looks (n : Nat) (log : List α) (since : α) (r r' : Reader α) (batch : List α) : Prop where
  last : Highest n (log.filter (since < ·)) batch
  since_le : since ≤ r.mark
  given : ∀ x, x ∈ r'.given ↔ x ∈ r.given ∨ x ∈ batch
  upTo : ∀ x ∈ batch, x ≤ r'.mark
  mark_le : r.mark ≤ r'.mark

/-- A batch loses nothing if and only if it had room for all that no batch had passed. -/
theorem Looks.lossless_iff (h : Looks n log since r r' batch) (hlog : log.Nodup) (hn : 0 < n) (hr : ∀ x ∈ r.given, x ≤ r.mark)
    (hl : r.Lossless log) : r'.Lossless log ↔ (r.backlog log).length ≤ n := by
  have hlength := h.last.length
  have hseen : ∀ x ∈ r.backlog log, x ∈ log.filter (since < ·) := fun x hx =>
    List.mem_filter.2 ⟨(mem_backlog.1 hx).1, decide_eq_true (h.since_le.trans_lt (mem_backlog.1 hx).2)⟩
  have hsub : (r.backlog log).length ≤ (log.filter (since < ·)).length :=
    (List.subperm_of_subset (hlog.filter _) hseen).length_le
  constructor
  · intro hl'
    by_contra hlong
    -- The batch is full, and some entry of the backlog is left out, below all that are in it.
    obtain ⟨x, hx, hout⟩ : ∃ x ∈ r.backlog log, x ∉ batch := by
      by_contra hall
      push Not at hall
      have hle := (List.subperm_of_subset (hlog.filter _) hall).length_le
      rw [backlog] at hlong
      omega
    obtain ⟨y, hy⟩ := List.exists_mem_of_length_pos (l := batch) (by omega)
    obtain ⟨hmem, habove⟩ := mem_backlog.1 hx
    rcases (h.given x).1 (hl' x hmem ((h.last.above x (hseen x hx) hout y hy).le.trans (h.upTo y hy))) with hold | hnew
    · exact absurd (hr x hold) (not_le_of_gt habove)
    · exact hout hnew
  · intro hroom x hx hle
    rw [h.given]
    rcases le_or_gt x r.mark with hold | hnew
    · exact .inl (hl x hx hold)
    · right
      by_contra hout
      have hmem : x ∈ log.filter (since < ·) := List.mem_filter.2 ⟨hx, decide_eq_true (h.since_le.trans_lt hnew)⟩
      -- The batch is full, of entries above this one, so the backlog has one more than it.
      have hbelow : ∀ y ∈ x :: batch, y ∈ r.backlog log := by
        intro y hy
        rcases List.mem_cons.1 hy with rfl | hy
        · exact mem_backlog.2 ⟨hx, hnew⟩
        · exact mem_backlog.2 ⟨(List.mem_filter.1 (h.last.subset hy)).1, hnew.trans (h.last.above x hmem hout y hy)⟩
      have hnodup : (x :: batch).Nodup := List.nodup_cons.2 ⟨hout, h.last.sorted.imp ne_of_lt⟩
      have hmore := (List.subperm_of_subset hnodup hbelow).length_le
      have hall : (x :: batch).length ≤ (log.filter (since < ·)).length :=
        (List.subperm_of_subset hnodup fun y hy => hseen y (hbelow y hy)).length_le
      rw [List.length_cons] at hmore hall
      omega

/-! ### One batch after the other -/

namespace Reads

theorem above (h : Reads n log r r' batch) {x : α} (hx : x ∈ batch) : x ∈ log ∧ r.mark < x :=
  mem_backlog.1 (h.last.subset hx)

theorem mark_le (h : Reads n log r r' batch) : r.mark ≤ r'.mark := by
  rcases h.mark with heq | hmem
  · exact heq.ge
  · exact (h.above hmem).2.le

theorem looks (h : Reads n log r r' batch) : Looks n log r.mark r r' batch where
  last := h.last
  since_le := le_rfl
  given x := by rw [h.given, List.mem_append]
  upTo := h.upTo
  mark_le := h.mark_le

theorem sound (h : Reads n log r r' batch) (hr : r.Sound) : r'.Sound := by
  constructor
  · rw [h.given]
    exact List.pairwise_append.2 ⟨hr.ordered, h.last.sorted, fun x hx y hy => (hr.upTo x hx).trans_lt (h.above hy).2⟩
  · intro x hx
    rw [h.given] at hx
    rcases List.mem_append.1 hx with hx | hx
    · exact (hr.upTo x hx).trans h.mark_le
    · exact h.upTo x hx

/-- A batch leaves nothing above the mark. -/
theorem caught_up (h : Reads n log r r' batch) (hn : 0 < n) {x : α} (hx : x ∈ log) : x ≤ r'.mark := by
  rcases le_or_gt x r.mark with hold | hnew
  · exact hold.trans h.mark_le
  · have hmem := mem_backlog.2 ⟨hx, hnew⟩
    by_cases hin : x ∈ batch
    · exact h.upTo x hin
    · have hlength := h.last.length
      have hpos := List.length_pos_of_mem hmem
      obtain ⟨y, hy⟩ := List.exists_mem_of_length_pos (l := batch) (by omega)
      exact (h.last.above x hmem hin y hy).le.trans (h.upTo y hy)

/-- Of the entries above where the reader started, too, it is the last ones that it is given. -/
theorem from_start (h : Reads n log r r' batch) (hstart : start ≤ r.mark) :
    Reads n (log.filter (start < ·)) r r' batch := ⟨by rw [backlog_above hstart]; exact h.last, h.given, h.upTo, h.mark⟩

end Reads

/-- What comes in loses nothing if and only if it comes in above the mark. -/
theorem Lossless.grow_iff (h : r.Lossless log) (hfresh : ∀ x ∈ log', x ∉ log → x ∉ r.given) :
    r.Lossless log' ↔ ∀ x ∈ log', x ∉ log → r.mark < x := by
  constructor
  · intro h' x hx hnew
    by_contra hle
    exact hfresh x hx hnew (h' x hx (not_lt.1 hle))
  · intro habove x hx hle
    by_cases hold : x ∈ log
    · exact h x hold hle
    · exact absurd hle (not_le_of_gt (habove x hx hold))

/-- What comes in above the mark, and what goes, loses nothing. -/
theorem Lossless.grow (h : r.Lossless log) (hlog : ∀ x ∈ log', x ∈ log ∨ r.mark < x) : r.Lossless log' := by
  intro x hx hle
  rcases hlog x hx with hold | hnew
  · exact h x hold hle
  · exact absurd hle (not_le_of_gt hnew)

/-! ### The mark of what was given -/

/-- The reader that started at a mark and has read as far as it was given entries. -/
def upTo (start : α) (given : List α) : Reader α := ⟨given.foldr max start, given⟩

variable {given given' : List α}

theorem start_le (start : α) (given : List α) : start ≤ (upTo start given).mark := by
  induction given with
  | nil => exact le_rfl
  | cons x given ih => exact ih.trans (le_max_right x _)

theorem le_upTo {x : α} (hx : x ∈ given) : x ≤ (upTo start given).mark := by
  induction given with
  | nil => cases hx
  | cons y given ih =>
    rcases List.mem_cons.1 hx with rfl | hx
    · exact le_max_left x _
    · exact (ih hx).trans (le_max_right y _)

theorem upTo_mem (start : α) (given : List α) : (upTo start given).mark = start ∨ (upTo start given).mark ∈ given := by
  induction given with
  | nil => exact .inl rfl
  | cons x given ih =>
    change max x (upTo start given).mark = start ∨ max x (upTo start given).mark ∈ x :: given
    rcases le_total x (upTo start given).mark with hle | hle
    · rw [max_eq_right hle]
      exact ih.imp_right (List.mem_cons_of_mem x)
    · rw [max_eq_left hle]
      exact .inr List.mem_cons_self

theorem upTo_mono (h : given ⊆ given') : (upTo start given).mark ≤ (upTo start given').mark := by
  rcases upTo_mem start given with heq | hmem
  · rw [heq]
    exact start_le start given'
  · exact le_upTo (h hmem)

/-- A batch of such a reader. -/
theorem looks_upTo (hlast : Highest n (log.filter (since < ·)) batch) (hsince : since ≤ (upTo start given).mark)
    (hgiven : ∀ x, x ∈ given' ↔ x ∈ given ∨ x ∈ batch) :
    Looks n log since (upTo start given) (upTo start given') batch where
  last := hlast
  since_le := hsince
  given := hgiven
  upTo x hx := le_upTo ((hgiven x).2 (.inr hx))
  mark_le := upTo_mono fun x hx => (hgiven x).2 (.inl hx)

end Reader
