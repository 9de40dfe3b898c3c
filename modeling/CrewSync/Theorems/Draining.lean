import CrewSync.Lib.Recall
import CrewSync.Lib.Sorted
import CrewSync.StopDrain

/-! The Stop hook raises every question once, in the order of their ids. The file forgets ids, but none that can still be
    in the feed. -/

namespace CrewSync.StopDrain
open Rows

variable {me : String} {log : List Item} {s : State} {q : Int}

/-! ### What is due -/

/-- The agent has replied to the message. -/
def replied (me : String) (log : List Item) (id : Int) : Bool := log.any fun m => m.sender == me && m.replyTo == some id

/-- A question of the feed to which the agent has not replied. -/
def open? (me : String) (log : List Item) (m : Item) : Bool := isQuestion me m && !replied me log m.id

/-- The open questions of the feed that were not raised, oldest first. -/
def due (me : String) (s : State) : List Int :=
  orderBy (· ≤ ·) (((window s.log).filter fun m => open? me s.log m && !s.raised.contains m.id).map (·.id))

/-- The question is in the feed, and open. -/
def Waiting (me : String) (log : List Item) (q : Int) : Prop := ∃ m ∈ window log, m.id = q ∧ open? me log m = true

/-- What holds in every run. -/
structure Inv (s : State) : Prop where
  increasing : s.log.Pairwise fun a b => a.id < b.id
  replies : ∀ m ∈ s.log, ∀ r ∈ m.replyTo, r < m.id
  recalls : Recalls storedLimit s.raised s.stored
  logged : s.raised ⊆ s.log.map (·.id)
  once : s.raised.Nodup

theorem Inv.shown (h : Inv s) : Highest feedLimit (s.log.map (·.id)) ((window s.log).map (·.id)) := by
  have hids : (s.log.map (·.id)).Pairwise (· < ·) := List.pairwise_map.2 h.increasing
  have hdrop := Highest.of_drop (n := feedLimit) hids
  rwa [List.length_map, ← List.map_drop] at hdrop

/-- A reply to a message of the feed is in the feed. -/
theorem Inv.replied_iff (h : Inv s) {m : Item} (hm : m ∈ window s.log) :
    m.id ∈ answered me (window s.log) ↔ replied me s.log m.id = true := by
  simp only [answered, replied, List.mem_filterMap, List.any_eq_true, Bool.and_eq_true, beq_iff_eq]
  constructor
  · rintro ⟨r, hr, hreply⟩
    refine ⟨r, List.mem_of_mem_drop hr, ?_⟩
    split at hreply
    · next hme => exact ⟨hme, hreply⟩
    · cases hreply
  · rintro ⟨r, hr, hme, hreply⟩
    refine ⟨r, ?_, by rw [if_pos hme]; exact hreply⟩
    have hlt : m.id < r.id := h.replies r hr m.id hreply
    have hids := h.shown.mem_of_lt (List.mem_map_of_mem hm) (List.mem_map_of_mem hr) hlt
    obtain ⟨r', hr', hid⟩ := List.mem_map.1 hids
    have hkeys : Keyed (·.id) s.log := (List.pairwise_map.2 h.increasing).imp ne_of_lt
    rwa [← hkeys.eq (List.mem_of_mem_drop hr') hr hid]

/-- What the script takes for pending is due. -/
theorem Inv.pending_eq (h : Inv s) : pending me (window s.log) s.stored = due me s := by
  unfold pending due
  rw [List.filter_filter]
  congr 2
  refine List.filter_congr fun m hm => ?_
  have hanswered : (answered me (window s.log)).contains m.id = replied me s.log m.id := by
    rw [Bool.eq_iff_iff, List.contains_iff_mem, h.replied_iff hm]
  have hstored : s.stored.contains m.id = s.raised.contains m.id := by
    rw [Bool.eq_iff_iff, List.contains_iff_mem, List.contains_iff_mem]
    exact h.recalls.mem_iff (by decide) h.logged h.shown (List.mem_map_of_mem hm)
  rw [hanswered, hstored, open?]
  cases isQuestion me m <;> simp

theorem mem_due : q ∈ due me s ↔ Waiting me s.log q ∧ q ∉ s.raised := by
  simp only [due, mem_orderBy, List.mem_map, List.mem_filter, Bool.and_eq_true, Bool.not_eq_true',
    List.contains_eq_mem, decide_eq_false_iff_not]
  constructor
  · rintro ⟨m, ⟨hm, hopen, hnew⟩, rfl⟩
    exact ⟨⟨m, hm, rfl, hopen⟩, hnew⟩
  · rintro ⟨⟨m, hm, rfl, hopen⟩, hnew⟩
    exact ⟨m, ⟨hm, hopen, hnew⟩, rfl⟩

theorem Inv.due_sorted (h : Inv s) : (due me s).Pairwise (· < ·) := by
  have hids : Keyed (·.id) s.log := (List.pairwise_map.2 h.increasing).imp ne_of_lt
  have hkeys : (((window s.log).filter fun m => open? me s.log m && !s.raised.contains m.id).map (·.id)).Nodup :=
    hids.sublist ((List.filter_sublist.trans (List.drop_sublist ..)).map _)
  have hsorted : (due me s).Pairwise (· ≤ ·) := orderBy_sorted (· ≤ ·)
  exact (hsorted.and (orderBy_perm.nodup_iff.2 hkeys)).imp fun h => lt_of_le_of_ne h.1 h.2

/-! ### One run of the hook -/

theorem remember_highest {stored : List Int} {id : Int} (hsorted : stored.Pairwise (· < ·)) (hid : id ∉ stored) :
    Highest storedLimit (id :: stored) (remember stored id) := by
  have hperm : (orderBy (· ≤ ·) (stored.insert id)).Perm (id :: stored) := by
    rw [List.insert_of_not_mem hid]
    exact orderBy_perm
  have hnodup : (id :: stored).Nodup := List.nodup_cons.2 ⟨hid, hsorted.imp ne_of_lt⟩
  have hle : (orderBy (· ≤ ·) (stored.insert id)).Pairwise (· ≤ ·) := orderBy_sorted (· ≤ ·)
  have hlt := (hle.and (hperm.nodup_iff.2 hnodup)).imp fun h => lt_of_le_of_ne h.1 h.2
  have hdrop := Highest.of_drop (n := storedLimit) hlt
  exact ⟨hdrop.sorted, hdrop.length.trans (by rw [hperm.length_eq]), fun x hx => hperm.subset (hdrop.subset hx),
    fun x hx => hdrop.above x (hperm.mem_iff.2 hx)⟩

/-- A run raises the first of the questions that are due, if there is one, and stores it. -/
theorem Inv.hook (h : Inv s) (hme : me.isEmpty = false) :
    (drain me (window s.log) s.stored).1.map (·.messageId) = (due me s).head? ∧
      (drain me (window s.log) s.stored).2 = (due me s).head?.elim s.stored (remember s.stored) := by
  unfold drain
  rw [if_neg (by simp [hme]), h.pending_eq]
  cases hdue : due me s with
  | nil => exact ⟨rfl, rfl⟩
  | cons id waiting =>
    obtain ⟨⟨m, hm, rfl, hopen⟩, -⟩ := mem_due.1 (hdue ▸ List.mem_cons_self)
    have hquestion : isQuestion me m = true := (Bool.and_eq_true_iff.1 hopen).1
    cases hfind : ((window s.log).filter (isQuestion me)).find? (·.id == m.id) with
    | none =>
      have hno := List.find?_eq_none.1 hfind m (List.mem_filter.2 ⟨hm, hquestion⟩)
      exact absurd (beq_self_eq_true m.id) hno
    | some latest =>
      have hid : latest.id = m.id := by simpa using List.find?_some hfind
      simp only [hfind, List.head?_cons, Option.map_some, Option.elim_some, and_true]
      exact congrArg some hid

theorem Inv.next_hook (h : Inv s) (hme : me.isEmpty = false) : next me s .hook =
    { s with
      stored := (due me s).head?.elim s.stored (remember s.stored)
      raised := (due me s).head?.toList ++ s.raised } := by
  obtain ⟨hblock, hstored⟩ := h.hook hme
  simp only [next]
  rw [hblock, hstored]

/-! ### Steps -/

theorem inv_start : Inv start where
  increasing := .nil
  replies _ h := by cases h
  recalls := .nil _
  logged := List.Subset.refl _
  once := .nil

theorem Inv.step (h : Inv s) (hme : me.isEmpty = false) (step : Step) : Inv (next me s step) := by
  cases step with
  | arrive m =>
    simp only [next]
    split
    · next hfollows =>
      obtain ⟨hnew, hreply⟩ := Bool.and_eq_true_iff.1 hfollows
      refine ⟨?_, fun x hx => ?_, h.recalls, fun i hi => ?_, h.once⟩
      · refine List.pairwise_append.2 ⟨h.increasing, List.pairwise_singleton _ _, fun a ha b hb => ?_⟩
        rw [List.mem_singleton.1 hb]
        exact of_decide_eq_true (List.all_eq_true.1 hnew a ha)
      · rcases List.mem_append.1 hx with hx | hx
        · exact h.replies x hx
        · intro r hr
          rw [List.mem_singleton.1 hx] at hr ⊢
          rw [Option.mem_def.1 hr] at hreply
          exact of_decide_eq_true hreply
      · rw [List.map_append]
        exact List.mem_append_left _ (h.logged hi)
    · exact h
  | hook =>
    rw [h.next_hook hme]
    cases hdue : (due me s).head? with
    | none => exact h
    | some id =>
      obtain ⟨⟨m, hm, rfl, -⟩, hnew⟩ := mem_due.1 (List.mem_of_mem_head? hdue)
      have hid : m.id ∉ s.stored := fun hmem => hnew (h.recalls.subset hmem)
      have hrecalls : Recalls storedLimit (m.id :: s.raised) (remember s.stored m.id) :=
        h.recalls.add hid (remember_highest h.recalls.sorted hid)
      simp only [Option.elim_some, Option.toList_some, List.singleton_append]
      refine ⟨h.increasing, h.replies, ?_, ?_, ?_⟩
      · dsimp only
        exact hrecalls
      · exact List.cons_subset.2 ⟨List.mem_map_of_mem (List.mem_of_mem_drop hm), h.logged⟩
      · exact List.nodup_cons.2 ⟨hnew, h.once⟩

theorem inv_run (hme : me.isEmpty = false) (steps : List Step) : Inv (run me steps) :=
  Runs.invariant (fun _ step h => h.step hme step) inv_start steps

/-! ### No question is passed over -/

/-- The questions that are due and not newer than `q`. -/
def ahead (me : String) (s : State) (q : Int) : List Int := (due me s).filter (· ≤ q)

def isHook : Step → Bool
  | .hook => true
  | .arrive _ => false

/-- Whenever the hook runs, the question is in the feed, and open. -/
def StaysOpen (me : String) (q : Int) : State → List Step → Prop :=
  Runs.Along (next me) fun s step => isHook step = true → Waiting me s.log q

/-- A question of the feed that is not newer than an old one was in the feed, and open, before the message came. -/
theorem Inv.waiting_of_arrive (h : Inv s) (hme : me.isEmpty = false) {m : Item} {i : Int}
    (hlogged : ∃ x ∈ s.log, i ≤ x.id) (hwaiting : Waiting me (next me s (.arrive m)).log i) : Waiting me s.log i := by
  have h' := h.step hme (.arrive m)
  simp only [next] at hwaiting h'
  by_cases hfollows : follows s.log m = true
  · rw [if_pos hfollows] at hwaiting h'
    obtain ⟨x, hx, rfl, hopen⟩ := hwaiting
    obtain ⟨y, hy, hle⟩ := hlogged
    have hnew := (Bool.and_eq_true_iff.1 hfollows).1
    have hxlog : x ∈ s.log := by
      rcases List.mem_append.1 (List.mem_of_mem_drop hx) with hxlog | hxm
      · exact hxlog
      · have hlt : y.id < m.id := of_decide_eq_true (List.all_eq_true.1 hnew y hy)
        rw [List.mem_singleton.1 hxm] at hle
        omega
    have hids : s.log.map (·.id) ⊆ (s.log ++ [m]).map (·.id) := by simp
    have hold := h.shown.mem_of_subset h'.shown hids (List.mem_map_of_mem hx) (List.mem_map_of_mem hxlog)
    obtain ⟨z, hz, hid⟩ := List.mem_map.1 hold
    have hkeys : Keyed (·.id) s.log := (List.pairwise_map.2 h.increasing).imp ne_of_lt
    obtain rfl := hkeys.eq (List.mem_of_mem_drop hz) hxlog hid
    refine ⟨z, hz, rfl, ?_⟩
    simp only [open?, Bool.and_eq_true, Bool.not_eq_true', replied, List.any_append, Bool.or_eq_false_iff] at hopen ⊢
    exact ⟨hopen.1, hopen.2.1⟩
  · rwa [if_neg hfollows] at hwaiting

/-- A message that comes puts nothing ahead of an old question. -/
theorem Inv.ahead_arrive (h : Inv s) (hme : me.isEmpty = false) (m : Item) (hlogged : ∃ x ∈ s.log, q ≤ x.id) :
    (ahead me (next me s (.arrive m)) q).length ≤ (ahead me s q).length := by
  have hnodup : (ahead me (next me s (.arrive m)) q).Nodup := ((h.step hme _).due_sorted.imp ne_of_lt).filter _
  refine (List.subperm_of_subset hnodup fun i hi => ?_).length_le
  obtain ⟨hdue, hle⟩ := List.mem_filter.1 hi
  obtain ⟨hwaiting, hraised⟩ := mem_due.1 hdue
  obtain ⟨x, hx, hqx⟩ := hlogged
  refine List.mem_filter.2 ⟨mem_due.2 ⟨?_, ?_⟩, hle⟩
  · exact h.waiting_of_arrive hme ⟨x, hx, le_trans (of_decide_eq_true hle) hqx⟩ hwaiting
  · have hsame : (next me s (.arrive m)).raised = s.raised := by
      simp only [next]
      split <;> rfl
    rwa [hsame] at hraised

/-- A run of the hook takes away one that is ahead of a question that is due. -/
theorem Inv.ahead_hook (h : Inv s) (hme : me.isEmpty = false) (hq : q ∈ due me s) :
    q ∈ (next me s .hook).raised ∨
      q ∈ due me (next me s .hook) ∧ (ahead me (next me s .hook) q).length < (ahead me s q).length := by
  cases hdue : due me s with
  | nil =>
    rw [hdue] at hq
    cases hq
  | cons id rest =>
    have hnext : next me s .hook = { s with stored := remember s.stored id, raised := id :: s.raised } := by
      rw [h.next_hook hme, hdue]
      simp only [List.head?_cons, Option.elim_some, Option.toList_some, List.singleton_append]
    have hsorted : (due me s).Pairwise (· < ·) := h.due_sorted
    rw [hdue] at hsorted hq
    rcases List.mem_cons.1 hq with rfl | hq'
    · exact .inl (by rw [hnext]; exact List.mem_cons_self)
    · have hlt : id < q := (List.pairwise_cons.1 hsorted).1 q hq'
      obtain ⟨hwaiting, hraised⟩ := mem_due.1 (hdue.symm ▸ List.mem_cons_of_mem id hq')
      refine .inr ⟨?_, ?_⟩
      · rw [hnext]
        exact mem_due.2 ⟨hwaiting, fun hmem => (List.mem_cons.1 hmem).elim hlt.ne' hraised⟩
      · have hahead : ahead me s q = id :: rest.filter (· ≤ q) := by
          rw [ahead, hdue, List.filter_cons_of_pos (by simpa using hlt.le)]
        have hnodup : (ahead me (next me s .hook) q).Nodup := ((h.step hme _).due_sorted.imp ne_of_lt).filter _
        rw [hahead, List.length_cons]
        refine Nat.lt_succ_of_le (List.subperm_of_subset hnodup fun i hi => ?_).length_le
        obtain ⟨hi, hle⟩ := List.mem_filter.1 hi
        rw [hnext] at hi
        obtain ⟨hwaiting', hnew⟩ := mem_due.1 hi
        have hold : i ∈ due me s := mem_due.2 ⟨hwaiting', fun hmem => hnew (List.mem_cons_of_mem _ hmem)⟩
        rw [hdue] at hold
        rcases List.mem_cons.1 hold with rfl | hold
        · exact absurd List.mem_cons_self hnew
        · exact List.mem_filter.2 ⟨hold, hle⟩

theorem raised_mono (me : String) (s : State) (steps : List Step) : s.raised ⊆ (Runs.after (next me) s steps).raised := by
  induction steps generalizing s with
  | nil => exact List.Subset.refl _
  | cons step steps ih =>
    refine List.Subset.trans ?_ (ih (next me s step))
    cases step with
    | arrive m =>
      simp only [next]
      split <;> exact List.Subset.refl _
    | hook => exact List.subset_append_right _ _

/-- A question that stays open is raised within as many runs of the hook as there are questions ahead of it. -/
theorem Inv.raised_in_turn (h : Inv s) (hme : me.isEmpty = false) {steps : List Step} (hopen : StaysOpen me q s steps)
    (hlogged : ∃ x ∈ s.log, q ≤ x.id) (hpos : 0 < (steps.filter isHook).length)
    (hahead : (ahead me s q).length ≤ (steps.filter isHook).length) : q ∈ (Runs.after (next me) s steps).raised := by
  induction steps generalizing s with
  | nil => cases hpos
  | cons step steps ih =>
    by_cases hraised : q ∈ (next me s step).raised
    · exact raised_mono me _ steps hraised
    have hlogged' : ∃ x ∈ (next me s step).log, q ≤ x.id := by
      obtain ⟨x, hx, hle⟩ := hlogged
      refine ⟨x, ?_, hle⟩
      cases step with
      | arrive m =>
        simp only [next]
        split
        · exact List.mem_append_left _ hx
        · exact hx
      | hook => exact hx
    cases step with
    | arrive m => exact ih (h.step hme _) hopen.2 hlogged' hpos ((h.ahead_arrive hme m hlogged).trans hahead)
    | hook =>
      have hdue : q ∈ due me s := by
        refine mem_due.2 ⟨hopen.1 rfl, fun hmem => hraised ?_⟩
        exact raised_mono me s [.hook] hmem
      obtain ⟨hdue', hlt⟩ := (h.ahead_hook hme hdue).resolve_left hraised
      have hone : 0 < (ahead me (next me s .hook) q).length :=
        List.length_pos_of_mem (List.mem_filter.2 ⟨hdue', by simp⟩)
      rw [List.filter_cons_of_pos rfl, List.length_cons] at hahead
      exact ih (h.step hme _) hopen.2 hlogged' (by omega) (by omega)

/-- A question from ann to bob. -/
def asked (id : Int) : Item :=
  { id, sender := "ann", senderSession := none, recipient := some "bob", replyTo := none, question := true, body := "?" }

/-- Bob's answer. -/
def said (id question : Int) : Item :=
  { id, sender := "bob", senderSession := none, recipient := some "ann", replyTo := some question, question := false, body := "!" }

/-- Bob answers the third question before the hook has come to it. -/
def busy : List Step :=
  [.arrive (asked 1), .arrive (asked 2), .hook, .arrive (asked 3), .arrive (said 4 3), .hook, .hook]

end CrewSync.StopDrain
