import CrewSync.Theorems.Outbox

/-! The attempts at one delivery. A row records neither who works on it nor for how long: only the hold that a
    claim puts on it keeps two attempts apart, and only a mark compares the attempts with their limit. This
    file says when a success is final, when the retries are bounded, and that attempts which keep to the hold
    never overlap. -/

namespace CrewSync.Dispatch
open Webhooks

section
variable [Platform] {s : State}

/-! ### What every run keeps -/

/-- Nothing that happened names an id that the outbox has not given out yet. -/
structure Known (s : State) : Prop where
  valid : s.pg.Valid
  attempts : ∀ a ∈ s.attempts, a.delivery.id ≤ s.pg.seqs.deliveries
  posts : ∀ p ∈ s.posts, p.1.id ≤ s.pg.seqs.deliveries
  marks : ∀ m ∈ s.marks, m.1.id ≤ s.pg.seqs.deliveries

/-- What a claim returns are the rows that it takes, each with its attempt counted. -/
theorem claimed_eq (locked : List Int) (pg : Pg) :
    claimed locked pg = ((pg.db.deliveries.filter (takes locked pg)).map (take pg.now)).filterMap (returning pg) :=
  rfl

theorem mem_claimed {locked : List Int} {pg : Pg} {c : Claimed} (h : c ∈ claimed locked pg) :
    ∃ d ∈ pg.db.deliveries, takes locked pg d = true ∧ c.id = d.id ∧ c.attempts = d.attempts + 1 := by
  rw [claimed_eq] at h
  obtain ⟨d', hd', hc⟩ := List.mem_filterMap.1 h
  obtain ⟨d, hd, rfl⟩ := List.mem_map.1 hd'
  obtain ⟨hd, ht⟩ := List.mem_filter.1 hd
  obtain ⟨w, -, rfl⟩ := Option.map_eq_some_iff.1 hc
  exact ⟨d, hd, ht, rfl, rfl⟩

/-- A claim returns no row twice. -/
theorem claimed_nodup {pg : Pg} (hv : pg.Valid) (locked : List Int) : ((claimed locked pg).map (·.id)).Nodup := by
  have hids : ∀ ds : List Delivery, ((ds.filterMap (returning pg)).map (·.id)).Sublist (ds.map (·.id)) := by
    intro ds
    induction ds with
    | nil => exact List.Sublist.refl _
    | cons d ds ih =>
      cases h : returning pg d with
      | none => simpa [h] using ih.cons d.id
      | some c =>
        obtain ⟨w, -, rfl⟩ := Option.map_eq_some_iff.1 h
        simpa [h] using ih
  have htake : ∀ ds : List Delivery, (ds.map (take pg.now)).map (·.id) = ds.map (·.id) := by
    intro ds
    rw [List.map_map]
    rfl
  rw [claimed_eq]
  refine ((hids _).nodup ?_)
  rw [htake]
  exact hv.keys.deliveries.filter _

theorem Known.next (h : Known s) (e : Step) : Known (next s e) := by
  obtain ⟨hv, hb⟩ := next_valid h.valid e
  have hle := hb.deliveries
  have old : ∀ a ∈ s.attempts, a.delivery.id ≤ (Dispatch.next s e).pg.seqs.deliveries :=
    fun a ha => (h.attempts a ha).trans hle
  refine ⟨hv, fun a ha => ?_, fun p hp => ?_, fun m hm => ?_⟩
  · obtain ha | ⟨locked, rfl, hc, -, -⟩ | ⟨i, r, a₀, rfl, hi, -, rfl, -⟩ := attempts_next ha
    · exact old a ha
    · obtain ⟨d, hd, -, hid, -⟩ := mem_claimed hc
      rw [hid]
      exact (h.valid.keys.deliveriesBelow d hd).trans hle
    · exact old a₀ (List.mem_of_getElem? hi)
  · obtain hp | ⟨i, r, a, -, hi, -, rfl⟩ := posts_after hp
    · exact (h.posts p hp).trans hle
    · exact old a (List.mem_of_getElem? hi)
  · obtain hm | ⟨i, a, r, -, hi, -, rfl⟩ := marks_after hm
    · exact (h.marks m hm).trans hle
    · exact old a (List.mem_of_getElem? hi)

omit [Platform] in
theorem Known.start (now : Time) : Known (start now) := by
  refine ⟨.init now, ?_, ?_, ?_⟩ <;> simp [Dispatch.start]

/-! ### A success is final -/

/-- Some replica has recorded the row as sent. -/
def State.delivered (s : State) (id : Int) : Bool := s.marks.any fun m => m.1.id == id && m.2.success

/-- The step of an attempt whose row another attempt has recorded as sent meanwhile: it posts the row once
    more, or it records its failure over the success. -/
def Step.stale (s : State) : Step → Bool
  | .post i _ => s.attempts[i]?.any fun a => a.response.isNone && s.delivered a.delivery.id
  | .mark i => s.attempts[i]?.any fun a =>
    a.response.any (!·.success) && s.delivered a.delivery.id && s.pg.db.deliveries.any (·.id == a.delivery.id)
  | _ => false

/-- The step leaves the rows that were recorded as sent alone. -/
structure Final (s : State) (e : Step) : Prop where
  sent : ∀ d ∈ (next s e).pg.db.deliveries, s.delivered d.id → d.status = .sent
  unclaimed : ∀ locked, e = .claim locked → ∀ c ∈ claimed locked s.pg, s.delivered c.id = false
  unposted : ∀ p, (next s e).posts = p :: s.posts → s.delivered p.1.id = false

/-- A row that was recorded as sent is sent. -/
structure Settled (s : State) : Prop where
  known : Known s
  sent : ∀ d ∈ s.pg.db.deliveries, s.delivered d.id → d.status = .sent

omit [Platform] in
theorem State.delivered_iff {id : Int} : s.delivered id ↔ ∃ m ∈ s.marks, m.1.id = id ∧ m.2.success = true := by
  simp [delivered]

omit [Platform] in
theorem Known.delivered_le (h : Known s) {id : Int} (hd : s.delivered id) : id ≤ s.pg.seqs.deliveries := by
  obtain ⟨m, hm, rfl, -⟩ := State.delivered_iff.1 hd
  exact h.marks m hm

/-- A row is recorded as sent by a mark with a success. -/
theorem delivered_next {e : Step} {id : Int} (h : (next s e).delivered id) :
    s.delivered id ∨ ∃ i a r, e = .mark i ∧ s.attempts[i]? = some a ∧ a.response = some r ∧ a.delivery.id = id ∧
      r.success = true := by
  obtain ⟨m, hm, hid, hr⟩ := State.delivered_iff.1 h
  obtain hm | ⟨i, a, r, rfl, hi, ha, rfl⟩ := marks_after hm
  · exact .inl (State.delivered_iff.2 ⟨m, hm, hid, hr⟩)
  · exact .inr ⟨i, a, r, rfl, hi, ha, hid, hr⟩

/-- A claim returns no row that is recorded as sent. -/
theorem Settled.unclaimed (h : Settled s) {locked : List Int} {c : Claimed} (hc : c ∈ claimed locked s.pg) :
    s.delivered c.id = false := by
  obtain ⟨d, hd, ht, hid, -⟩ := mem_claimed hc
  have hpending := (takes_pending h.known.valid hd ht).1
  cases hs : s.delivered c.id with
  | false => rfl
  | true =>
    rw [hid] at hs
    rw [h.sent d hd hs] at hpending
    cases hpending

/-- The rows recorded as sent before the step are sent after it, unless the step is stale. -/
theorem Settled.sent_next (h : Settled s) {e : Step} (he : e.stale s = false) :
    ∀ d ∈ (next s e).pg.db.deliveries, s.delivered d.id → d.status = .sent := by
  intro d hd' hs
  cases row_after h.known.valid e d hd' with
  | kept hd hno => exact h.sent d hd hs
  | enqueued hf => exact absurd (h.known.delivered_le hs) (not_le.2 hf.2)
  | taken hd ht =>
    have hpending := (takes_pending h.known.valid hd ht).1
    rw [h.sent _ hd hs] at hpending
    cases hpending
  | @recorded i a r d _ hd hi hr hid hrec =>
    rw [hrec.sent]
    rw [hrec.id, hid] at hs
    have hrow : s.pg.db.deliveries.any (·.id == a.delivery.id) := List.any_eq_true.2 ⟨d, hd, by simp [hid]⟩
    simpa [Step.stale, hi, hr, hs, hrow] using he

theorem Settled.final (h : Settled s) {e : Step} (he : e.stale s = false) : Final s e where
  sent := h.sent_next he
  unclaimed _ _ _ hc := h.unclaimed hc
  unposted := by
    intro p hp
    have hnew : p ∈ (Dispatch.next s e).posts := hp ▸ List.mem_cons_self
    cases e with
    | post i r =>
      obtain hs | ⟨a, hi, hr, hs⟩ := next_post s i r
      · rw [hs] at hp
        exact absurd hp (List.cons_ne_self p s.posts).symm
      · rw [hs] at hp
        obtain rfl : (a.delivery, r) = p := (List.cons.inj hp).1
        simpa [Step.stale, hi, hr] using he
    | server e =>
      simp only [Dispatch.next] at hp
      split at hp <;> exact absurd hp (List.cons_ne_self p s.posts).symm
    | claim locked | lose i => exact absurd hp (List.cons_ne_self p s.posts).symm
    | mark i =>
      obtain ⟨hs, -⟩ | ⟨a, r, -, -, hs⟩ := next_mark s i <;> rw [hs] at hp <;>
        exact absurd hp (List.cons_ne_self p s.posts).symm

theorem Settled.next (h : Settled s) {e : Step} (he : e.stale s = false) : Settled (next s e) where
  known := h.known.next e
  sent := by
    intro d hd hs
    obtain hs | ⟨i, a, r, rfl, hi, hr, hid, hok⟩ := delivered_next hs
    · exact h.sent_next he d hd hs
    · -- The mark that records the success is the one that changes the row.
      cases row_after h.known.valid _ d hd with
      | kept _ hno => exact absurd ⟨a, r, hi, hr, hid.symm⟩ hno
      | recorded hd' hi' hr' hid' hrec =>
        obtain rfl := Option.some.inj (hi.symm.trans hi')
        obtain rfl := Option.some.inj (hr.symm.trans hr')
        exact hrec.sent.2 hok

omit [Platform] in
theorem Settled.start (now : Time) : Settled (start now) :=
  ⟨.start now, by simp [Dispatch.start, Pg.init, Db.empty]⟩

/-- A stale step breaks the rule. -/
theorem Final.not_stale {e : Step} (h : Final s e) : e.stale s = false := by
  cases he : e.stale s with
  | false => rfl
  | true =>
    exfalso
    cases e with
    | post i r =>
      cases hi : s.attempts[i]? with
      | none => simp [Step.stale, hi] at he
      | some a =>
        obtain ⟨c, since, q⟩ := a
        simp only [Step.stale, hi, Option.any_some, Bool.and_eq_true, Option.isNone_iff_eq_none] at he
        obtain ⟨rfl, hs⟩ := he
        have hposts : (Dispatch.next s (.post i r)).posts = (c, r) :: s.posts := by simp only [Dispatch.next, hi]
        simpa [hs] using h.unposted _ hposts
    | mark i =>
      cases hi : s.attempts[i]? with
      | none => simp [Step.stale, hi] at he
      | some a =>
        simp only [Step.stale, hi, Option.any_some, Bool.and_eq_true] at he
        obtain ⟨⟨hr, hs⟩, hrow⟩ := he
        obtain ⟨r, hr, hfail⟩ := (Option.any_eq_true _ _).1 hr
        obtain ⟨d, hd, hid⟩ := List.any_eq_true.1 hrow
        have hid : d.id = a.delivery.id := by simpa using hid
        obtain ⟨f, hf, heffect⟩ := record_effect a.delivery r s.pg
        have hnext : f d ∈ (Dispatch.next s (.mark i)).pg.db.deliveries := by
          obtain ⟨-, hno⟩ | ⟨a', r', hi', hr', hstep⟩ := next_mark s i
          · exact absurd ⟨a, r, hi, hr, hid⟩ (hno d)
          · obtain rfl := Option.some.inj (hi.symm.trans hi')
            obtain rfl := Option.some.inj (hr.symm.trans hr')
            rw [hstep, heffect]
            exact Rows.mem_update.2 ⟨d, hd, by simp [hid]⟩
        have hsent := h.sent _ hnext (by rw [(hf d).id, hid]; exact hs)
        simp [(hf d).sent.1 hsent] at hfail
    | server e => cases he
    | claim locked => cases he
    | lose i => cases he

/-- A success is final in a run exactly when no attempt that another one has overtaken posts its row again or
    records a failure. -/
theorem delivered_final_iff (now : Time) (es : List Step) :
    Runs.Along next (fun s e => e.stale s = false) (start now) es ↔ Runs.Along next Final (start now) es := by
  constructor
  · intro h
    exact h.strengthen (I := Settled) (.start now) fun s e he hs => ⟨hs.final he, hs.next he⟩
  · intro h
    exact h.imp fun s e hs => hs.not_stale

end

namespace Sample
open CrewSync.Sample
attribute [local instance] Platform.ascii

/-- A webhook of the crew for tasks, and one task: a row of the outbox. -/
def oneRow : List Step :=
  (crew ++ [Event.command 0 (.webhookAdd "core" "http://hook" "generic" "task" none),
    Event.call ann 0 (.createTask ⟨"t1", "first", none, none, []⟩)]).map .server

/-- The first attempt outlasts its hold; its failure lands after the success of the second one. -/
def overtaken : List Step :=
  oneRow ++ [.claim [], .server (.tick (61 * 1000000)), .claim [], .post 0 (.status 500), .post 1 (.status 200),
    .mark 1, .mark 0]

/-- The row that was sent is pending again. -/
theorem overtaken_pending : ¬ ∀ es, Runs.Along next Final (start 0) es := by
  intro h
  have hstale := (h overtaken).imp fun s e hs => hs.not_stale
  revert hstale
  decide

end Sample

/-! ### The retries are bounded -/

section
variable {s : State}

/-- How often a row was posted. -/
def State.posted (s : State) (id : Int) : Nat := s.posts.countP (·.1.id == id)

/-- How many attempts at a row are still to post it. -/
def State.unposted (s : State) (id : Int) : Nat :=
  s.attempts.countP fun a => a.response.isNone && a.delivery.id == id

/-- A row that is neither sent nor parked as failed was posted at most `maxAttempts` times. -/
def State.Bounded (s : State) : Prop :=
  ∀ d ∈ s.pg.db.deliveries, d.status = .pending → (s.posted d.id : Int) ≤ maxAttempts

instance (s : State) : Decidable s.Bounded := inferInstanceAs (Decidable (∀ _ ∈ _, _))

variable [Platform]

/-- A claim takes a row that has used its attempts. -/
def Step.overdrawn (s : State) : Step → Bool
  | .claim locked => s.pg.db.deliveries.any fun d => takes locked s.pg d && decide (maxAttempts ≤ d.attempts)
  | _ => false

/-- The attempts of a row count the POSTs made and to be made, and stay within the limit. -/
structure Counted (s : State) : Prop where
  known : Known s
  limit : ∀ id, ((s.posted id + s.unposted id : Nat) : Int) ≤ maxAttempts
  rows : ∀ d ∈ s.pg.db.deliveries, ((s.posted d.id + s.unposted d.id : Nat) : Int) ≤ d.attempts

/-- How many attempts at the row the step starts. -/
def Step.starts (s : State) (id : Int) : Step → Nat
  | .claim locked => (claimed locked s.pg).countP (·.id == id)
  | _ => 0

omit [Platform] in
/-- An attempt that gets its outcome is one less to post its row. -/
theorem countP_unposted {as : List Attempt} {i : Nat} {a : Attempt} {r : Response} (hi : as[i]? = some a)
    (hr : a.response = none) (id : Int) :
    (as.set i { a with response := some r }).countP (fun a => a.response.isNone && a.delivery.id == id) +
      (if a.delivery.id = id then 1 else 0) = as.countP fun a => a.response.isNone && a.delivery.id == id := by
  induction as generalizing i with
  | nil => simp at hi
  | cons b as ih =>
    cases i with
    | zero =>
      obtain rfl : b = a := by simpa using hi
      simp [List.countP_cons, hr]
    | succ i =>
      have := ih (by simpa using hi)
      simp only [List.set_cons_succ, List.countP_cons]
      omega

/-- The POSTs made and to be made grow by the attempts that the step starts. -/
theorem posted_next (e : Step) (id : Int) :
    (next s e).posted id + (next s e).unposted id ≤ s.posted id + s.unposted id + e.starts s id := by
  cases e with
  | server e =>
    simp only [next]
    split <;> exact le_rfl
  | claim locked =>
    have : (next s (.claim locked)).unposted id = s.unposted id + (Step.claim locked).starts s id := by
      simp only [State.unposted, Step.starts, next, List.countP_append, List.countP_map]
      rfl
    rw [this]
    exact (Nat.add_assoc _ _ _).ge
  | post i r =>
    obtain h | ⟨a, hi, hr, h⟩ := next_post s i r
    · rw [h]
      exact le_rfl
    · have hcount := countP_unposted (r := r) hi hr id
      rw [h]
      simp only [State.posted, State.unposted, Step.starts, List.countP_cons, beq_iff_eq] at hcount ⊢
      omega
  | mark i =>
    obtain ⟨h, -⟩ | ⟨a, r, -, -, h⟩ := next_mark s i
    · rw [h]
      exact le_rfl
    · rw [h]
      exact Nat.add_le_add_left ((List.eraseIdx_sublist _ _).countP_le) _
  | lose i => exact Nat.add_le_add_left ((List.eraseIdx_sublist _ _).countP_le) _

/-- Of a row, a claim starts one attempt. -/
theorem starts_le_one (hv : s.pg.Valid) (e : Step) (id : Int) : e.starts s id ≤ 1 := by
  cases e with
  | claim locked =>
    have h := List.nodup_iff_count_le_one.1 (claimed_nodup hv locked) id
    rwa [List.count_eq_countP, List.countP_map] at h
  | _ => exact Nat.zero_le 1

/-- An attempt starts at a row that the claim takes. -/
theorem of_starts {e : Step} {id : Int} (h : e.starts s id ≠ 0) :
    ∃ locked, e = .claim locked ∧ ∃ d ∈ s.pg.db.deliveries, takes locked s.pg d = true ∧ d.id = id := by
  cases e with
  | claim locked =>
    obtain ⟨c, hc, hid⟩ := List.countP_pos_iff.1 (Nat.pos_of_ne_zero h)
    obtain ⟨d, hd, ht, hcd, -⟩ := mem_claimed hc
    exact ⟨locked, rfl, d, hd, ht, by rw [← hcd]; simpa using hid⟩
  | _ => exact absurd rfl h

theorem starts_kept (hv : s.pg.Valid) {e : Step} {d : Delivery} (hd : d ∈ s.pg.db.deliveries)
    (hno : ¬ e.Touches s d) : e.starts s d.id = 0 := by
  by_contra h
  obtain ⟨locked, rfl, d₁, hd₁, ht, hid⟩ := of_starts h
  obtain rfl := hv.keys.deliveries.eq hd₁ hd hid
  exact hno ht

omit [Platform] in
/-- Nothing was posted of a row that the outbox has not given out yet. -/
theorem Known.fresh (h : Known s) {id : Int} (hid : s.pg.seqs.deliveries < id) :
    s.posted id = 0 ∧ s.unposted id = 0 := by
  refine ⟨List.countP_eq_zero.2 fun p hp => ?_, List.countP_eq_zero.2 fun a ha => ?_⟩
  · have := h.posts p hp
    simp only [beq_iff_eq]
    omega
  · have := h.attempts a ha
    simp only [Bool.and_eq_true, beq_iff_eq, not_and]
    omega

theorem Counted.next (h : Counted s) {e : Step} (he : e.overdrawn s = false) : Counted (next s e) where
  known := h.known.next e
  limit := by
    intro id
    have hsum := posted_next (s := s) e id
    have hone := starts_le_one h.known.valid e id
    have hlimit := h.limit id
    by_cases hstart : e.starts s id = 0
    · omega
    · -- The row of the new attempt has attempts left.
      obtain ⟨locked, rfl, d, hd, ht, rfl⟩ := of_starts hstart
      have hrow := h.rows d hd
      have hleft : d.attempts < maxAttempts := by
        have := List.any_eq_false.1 he d hd
        simpa [ht] using this
      omega
  rows := by
    intro d hd'
    have hsum := posted_next (s := s) e d.id
    cases row_after h.known.valid e d hd' with
    | kept hd hno =>
      have hrow := h.rows d hd
      have := starts_kept h.known.valid hd hno
      omega
    | enqueued hf =>
      obtain ⟨⟨-, hattempts, -⟩, hid⟩ := hf
      obtain ⟨hp, hu⟩ := h.known.fresh hid
      simp only [Step.starts, hp, hu] at hsum
      omega
    | @taken locked d hd ht =>
      have hrow := h.rows d hd
      have hone := starts_le_one h.known.valid (.claim locked) d.id
      simp only [take] at hsum ⊢
      omega
    | recorded hd hi hr hid hrec =>
      have hrow := h.rows _ hd
      rw [hrec.id, hrec.attempts]
      simp only [Step.starts, hrec.id] at hsum
      omega

omit [Platform] in
theorem Counted.start (now : Time) : Counted (start now) := by
  refine ⟨.start now, fun id => ?_, ?_⟩
  · simp [State.posted, State.unposted, Dispatch.start, maxAttempts]
  · simp [Dispatch.start, Pg.init, Db.empty]

/-- In a run in which no claim takes a row that has used its attempts, no row is posted more often than the
    limit allows, in any state. -/
theorem retries_bounded (now : Time) (es : List Step)
    (h : Runs.Along next (fun s e => e.overdrawn s = false) (start now) es) :
    (∀ id, ((Runs.after next (start now) es).posted id : Int) ≤ maxAttempts) ∧
      (Runs.after next (start now) es).Bounded := by
  have hcounted : Counted (Runs.after next (start now) es) :=
    h.invariant (.start now) fun s e he hs => hs.next he
  have bound : ∀ id, ((Runs.after next (start now) es).posted id : Int) ≤ maxAttempts := by
    intro id
    have := hcounted.limit id
    omega
  exact ⟨bound, fun d _ _ => bound d.id⟩

end

namespace Sample
attribute [local instance] Platform.ascii

/-- The row is posted six times, and parked after the sixth failure. -/
def refused : List Step :=
  oneRow ++ (List.replicate 6
    [.server (.tick 61000000), .claim [], .post 0 (.status 500), .mark 0]).flatten

theorem refused_bounded : (Runs.after next (start 0) refused).Bounded :=
  (@retries_bounded Platform.ascii 0 refused (by decide)).2

/-- The replica that posts the row crashes before it records the failure, seven times. -/
def crashing : List Step :=
  oneRow ++ (List.replicate 7
    [.server (.tick 61000000), .claim [], .post 0 (.status 500), .lose 0]).flatten

theorem crashing_unbounded : ¬ ∀ es, (Runs.after next (start 0) es).Bounded := by
  intro h
  have := h crashing
  revert this
  decide

end Sample
/-! ### Attempts that keep to the hold -/

section
variable [Platform] {s : State}

/-- Every attempt is marked within the hold of its claim. -/
def Step.timely (s : State) : Step → Bool
  | .lose _ => false
  | _ => s.attempts.all fun a => decide (s.pg.now < a.since + hold)

/-- At most one attempt at a row is unfinished, one that starts finds none and no success, and one that ends was
    marked. -/
structure Exclusive (s : State) (e : Step) : Prop where
  alone : ((next s e).attempts.map (·.delivery.id)).Nodup
  turns : ∀ locked, e = .claim locked → ∀ c ∈ claimed locked s.pg,
    (∀ a ∈ s.attempts, a.delivery.id ≠ c.id) ∧ s.delivered c.id = false
  ends : ∀ a ∈ s.attempts, (∃ a' ∈ (next s e).attempts, a'.delivery = a.delivery ∧ a'.since = a.since) ∨
    ∃ r, (next s e).marks = (a.delivery, r) :: s.marks

/-- The unfinished attempts are at different rows; each holds its row, and its row is not sent. -/
structure Held (s : State) : Prop where
  settled : Settled s
  alone : (s.attempts.map (·.delivery.id)).Nodup
  holds : ∀ a ∈ s.attempts, ∀ d ∈ s.pg.db.deliveries, d.id = a.delivery.id → a.since + hold ≤ d.nextAttemptAt
  undelivered : ∀ a ∈ s.attempts, s.delivered a.delivery.id = false

omit [Platform] in
theorem since_of_timely {e : Step} (h : e.timely s = true) : ∀ a ∈ s.attempts, s.pg.now < a.since + hold := by
  cases e with
  | lose i => cases h
  | _ => simpa [Step.timely] using h

omit [Platform] in
/-- A claim takes no row that an attempt holds. -/
theorem Held.not_taken (h : Held s) (ht : ∀ a ∈ s.attempts, s.pg.now < a.since + hold) {locked : List Int}
    {d : Delivery} (hd : d ∈ s.pg.db.deliveries) (htakes : takes locked s.pg d = true) :
    ∀ a ∈ s.attempts, a.delivery.id ≠ d.id := by
  intro a ha hid
  have hdue := (takes_pending h.settled.known.valid hd htakes).2
  have hheld := h.holds a ha d hd hid.symm
  exact absurd (hheld.trans hdue) (not_le.2 (ht a ha))

theorem Held.turns (h : Held s) (ht : ∀ a ∈ s.attempts, s.pg.now < a.since + hold) {locked : List Int} {c : Claimed}
    (hc : c ∈ claimed locked s.pg) : (∀ a ∈ s.attempts, a.delivery.id ≠ c.id) ∧ s.delivered c.id = false := by
  obtain ⟨d, hd, htakes, hid, -⟩ := mem_claimed hc
  refine ⟨?_, h.settled.unclaimed hc⟩
  rw [hid]
  exact h.not_taken ht hd htakes

omit [Platform] in
/-- Two attempts at one row are one. -/
theorem Held.eq (h : Held s) {i j : Nat} {a b : Attempt} (hi : s.attempts[i]? = some a) (hj : s.attempts[j]? = some b)
    (hid : a.delivery.id = b.delivery.id) : i = j := by
  have hi' : (s.attempts.map (·.delivery.id))[i]? = some a.delivery.id := by simp [hi]
  have hj' : (s.attempts.map (·.delivery.id))[j]? = some a.delivery.id := by simp [hj, hid]
  exact (List.getElem?_inj (List.getElem?_eq_some_iff.1 hi').1 h.alone).1 (hi'.trans hj'.symm)

omit [Platform] in
/-- An attempt at a row that is recorded as sent would be at a row that another attempt held. -/
theorem Held.not_stale (h : Held s) (e : Step) : e.stale s = false := by
  cases e with
  | post i r | mark i =>
    simp only [Step.stale]
    cases hi : s.attempts[i]? with
    | none => rfl
    | some a => simp [h.undelivered a (List.mem_of_getElem? hi)]
  | _ => rfl

theorem Held.alone_next (h : Held s) {e : Step} (ht : e.timely s = true) :
    ((next s e).attempts.map (·.delivery.id)).Nodup := by
  cases e with
  | server e =>
    simp only [next]
    split <;> exact h.alone
  | claim locked =>
    have hmap : ((next s (.claim locked)).attempts.map (·.delivery.id)) =
        s.attempts.map (·.delivery.id) ++ (claimed locked s.pg).map (·.id) := by
      simp [next, Function.comp_def]
    rw [hmap, List.nodup_append]
    refine ⟨h.alone, claimed_nodup h.settled.known.valid locked, ?_⟩
    rintro _ ha _ hc rfl
    obtain ⟨a, ha, hid⟩ := List.mem_map.1 ha
    obtain ⟨c, hc, hcid⟩ := List.mem_map.1 hc
    exact (h.turns (since_of_timely ht) hc).1 a ha (hid.trans hcid.symm)
  | post i r =>
    obtain hs | ⟨a, hi, -, hs⟩ := next_post s i r
    · rw [hs]
      exact h.alone
    · have hmap : (s.attempts.set i { a with response := some r }).map (·.delivery.id) =
          s.attempts.map (·.delivery.id) := by
        obtain ⟨hlt, rfl⟩ := List.getElem?_eq_some_iff.1 hi
        have hlt' : i < (s.attempts.map (·.delivery.id)).length := by simpa using hlt
        have hid : s.attempts[i].delivery.id = (s.attempts.map (·.delivery.id))[i] := by rw [List.getElem_map]
        rw [List.map_set, hid, List.set_getElem_self]
      rw [hs, hmap]
      exact h.alone
  | mark i =>
    obtain ⟨hs, -⟩ | ⟨a, r, -, -, hs⟩ := next_mark s i <;> rw [hs]
    · exact h.alone
    · exact h.alone.sublist ((List.eraseIdx_sublist _ _).map _)
  | lose i => cases ht

theorem Held.exclusive (h : Held s) {e : Step} (ht : e.timely s = true) : Exclusive s e where
  alone := h.alone_next ht
  turns _ _ _ hc := h.turns (since_of_timely ht) hc
  ends := by
    intro a ha
    cases e with
    | server e =>
      simp only [next]
      split <;> exact .inl ⟨a, ha, rfl, rfl⟩
    | claim locked => exact .inl ⟨a, List.mem_append_left _ ha, rfl, rfl⟩
    | post i r =>
      obtain hs | ⟨a₀, hi, -, hs⟩ := next_post s i r <;> rw [hs]
      · exact .inl ⟨a, ha, rfl, rfl⟩
      · obtain ⟨j, hj⟩ := List.mem_iff_getElem?.1 ha
        by_cases hij : i = j
        · subst hij
          obtain rfl := Option.some.inj (hi.symm.trans hj)
          exact .inl ⟨_, List.mem_of_getElem? (List.getElem?_set_self (List.getElem?_eq_some_iff.1 hi).1), rfl, rfl⟩
        · refine .inl ⟨a, List.mem_of_getElem? (i := j) ?_, rfl, rfl⟩
          rw [List.getElem?_set_ne hij, hj]
    | mark i =>
      obtain ⟨hs, -⟩ | ⟨a₀, r, hi, -, hs⟩ := next_mark s i <;> rw [hs]
      · exact .inl ⟨a, ha, rfl, rfl⟩
      · obtain ⟨j, hj⟩ := List.mem_iff_getElem?.1 ha
        by_cases hij : i = j
        · subst hij
          obtain rfl := Option.some.inj (hi.symm.trans hj)
          exact .inr ⟨r, rfl⟩
        · exact .inl ⟨a, List.mem_eraseIdx_iff_getElem?.2 ⟨j, fun h => hij h.symm, hj⟩, rfl, rfl⟩
    | lose i => cases ht

/-- The attempts that are left are at other rows than the one that ends. -/
theorem Held.others (h : Held s) {i : Nat} {a b : Attempt} {r : Response} (hi : s.attempts[i]? = some a)
    (hr : a.response = some r) (hb : b ∈ (next s (.mark i)).attempts) : b ∈ s.attempts ∧ b.delivery.id ≠ a.delivery.id := by
  obtain ⟨-, hno⟩ | ⟨a', r', -, -, hs⟩ := next_mark s i
  · exact absurd ⟨a, r, hi, hr, rfl⟩ (hno ⟨a.delivery.id, 0, 0, .task, "", [], .pending, 0, 0, none, 0⟩)
  · rw [hs] at hb
    obtain ⟨j, hji, hj⟩ := List.mem_eraseIdx_iff_getElem?.1 hb
    exact ⟨List.mem_of_getElem? hj, fun hid => hji (h.eq hj hi hid)⟩

theorem Held.next (h : Held s) {e : Step} (ht : e.timely s = true) : Held (next s e) where
  settled := h.settled.next (h.not_stale e)
  alone := h.alone_next ht
  holds := by
    intro a ha' d hd' hid
    obtain ha | ⟨locked, rfl, hc, hsince, -⟩ | ⟨i, r, a₀, rfl, hi, -, rfl, -⟩ := attempts_next ha'
    · cases row_after h.settled.known.valid e d hd' with
      | kept hd hno => exact h.holds a ha d hd hid
      | enqueued hf =>
        have := h.settled.known.attempts a ha
        exact absurd (hid ▸ hf.2) (not_lt.2 this)
      | taken hd htakes => exact absurd hid.symm (h.not_taken (since_of_timely ht) hd htakes a ha)
      | recorded hd hi hr hid' hrec =>
        refine absurd ?_ (h.others hi hr ha').2
        rw [← hid, hrec.id, hid']
    · obtain ⟨d₀, hd₀, htakes, hcid, -⟩ := mem_claimed hc
      cases row_after h.settled.known.valid _ d hd' with
      | kept hd hno =>
        obtain rfl := h.settled.known.valid.keys.deliveries.eq hd hd₀ (hid.trans hcid)
        exact absurd htakes hno
      | taken hd _ => exact (congrArg (· + hold) hsince).le
    · cases row_after h.settled.known.valid _ d hd' with
      | kept hd hno => exact h.holds a₀ (List.mem_of_getElem? hi) d hd hid
  undelivered := by
    intro a ha
    by_contra hdel
    rw [Bool.not_eq_false] at hdel
    obtain hold | ⟨i, a₁, r, rfl, hi, hr, hid, -⟩ := delivered_next hdel
    · obtain ha | ⟨locked, rfl, hc, -, -⟩ | ⟨i, r, a₀, rfl, hi, -, rfl, -⟩ := attempts_next ha
      · simp [h.undelivered a ha] at hold
      · simp [(h.turns (since_of_timely ht) hc).2] at hold
      · simp [h.undelivered a₀ (List.mem_of_getElem? hi)] at hold
    · exact (h.others hi hr ha).2 hid.symm

omit [Platform] in
theorem Held.start (now : Time) : Held (start now) := by
  refine ⟨.start now, ?_, ?_, ?_⟩ <;> simp [Dispatch.start]

/-- When every attempt is marked within the hold of its claim, the attempts at a row follow one another, and none
    follows a success. -/
theorem attempts_exclusive (now : Time) (es : List Step)
    (h : Runs.Along next (fun s e => e.timely s = true) (start now) es) :
    Runs.Along next Exclusive (start now) es :=
  h.strengthen (I := Held) (.start now) fun _ _ ht hs => ⟨hs.exclusive ht, hs.next ht⟩

end

namespace Sample
attribute [local instance] Platform.ascii

/-- The second of two replicas has the success that the first one had not. -/
def retried : List Step :=
  oneRow ++ [.claim [], .claim [], .post 0 (.status 500), .mark 0, .server (.tick 2000000), .claim [], .claim [],
    .post 0 (.status 200), .server (.tick 59999999), .mark 0, .server (.tick 60000000), .claim []]

theorem retried_exclusive : Runs.Along next Exclusive (start 0) retried :=
  @attempts_exclusive Platform.ascii 0 retried (by decide)

end Sample
end CrewSync.Dispatch
