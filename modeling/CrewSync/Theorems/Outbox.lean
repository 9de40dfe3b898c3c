import CrewSync.Dispatch
import CrewSync.Footprint.Calls

/-! No row of the outbox is lost: in every reachable state each row is due again within a minute of the last
    statement that touched it, or it was delivered, or it was given up after its attempts. -/

namespace CrewSync
open Webhooks

/-! ### Statements on the outbox -/

theorem backoff_le {attempts : Int} (h : attempts < maxAttempts) : secs (backoff attempts) ≤ hold := by
  have hle : (clamp attempts 1 8).toNat ≤ 5 := by
    have : maxAttempts = 6 := rfl
    unfold clamp
    split
    · decide
    · split
      · omega
      · omega
  have hpow : (2 : Int) ^ (clamp attempts 1 8).toNat ≤ 2 ^ 5 := pow_le_pow_right₀ (by decide) hle
  have : backoff attempts ≤ 60 := (min_le_left _ _).trans (hpow.trans (by decide))
  exact Int.mul_le_mul_of_nonneg_right this (by decide)

/-- What a mark makes of the row: the statement that `record` picks for the outcome. -/
structure Recorded (now : Time) (c : Claimed) (r : Response) (d d' : Delivery) : Prop where
  id : d'.id = d.id
  webhookId : d'.webhookId = d.webhookId
  attempts : d'.attempts = d.attempts
  updatedAt : d'.updatedAt = now
  sent : d'.status = .sent ↔ r.success = true
  pending : d'.status = .pending → d'.nextAttemptAt ≤ now + hold
  failed : d'.status = .failed → maxAttempts ≤ c.attempts ∨ r.permanent = true

theorem markFailed_recorded {now : Time} {c : Claimed} {r : Response} {attempts : Int} {error : String}
    (hr : r.success = false) (ha : maxAttempts ≤ attempts → maxAttempts ≤ c.attempts ∨ r.permanent = true)
    (d : Delivery) :
    Recorded now c r d
      { d with
        status := if attempts ≥ maxAttempts then .failed else .pending
        nextAttemptAt := now + secs (backoff attempts)
        lastError := some (left error 500)
        updatedAt := now } := by
  refine ⟨rfl, rfl, rfl, rfl, ?_, ?_, ?_⟩
  · rw [hr]
    split <;> simp
  · intro h
    have : attempts < maxAttempts := by
      by_contra hge
      simp [not_lt.1 hge] at h
    exact Int.add_le_add_left (backoff_le this) now
  · intro h
    refine ha ?_
    by_contra hlt
    simp [hlt] at h

theorem record_effect [Platform] (c : Claimed) (r : Response) (pg : Pg) :
    ∃ f, (∀ d, Recorded pg.now c r d (f d)) ∧ (record c r).effect pg =
      { pg with db := { pg.db with deliveries := Rows.update (·.id == c.id) f pg.db.deliveries } } := by
  unfold record
  split
  · next hr =>
    refine ⟨fun d => { d with status := .sent, lastError := none, updatedAt := pg.now }, fun d => ?_, rfl⟩
    exact ⟨rfl, rfl, rfl, rfl, by simp [hr], by simp, by simp⟩
  · next hr =>
    have hr : r.success = false := by simpa using hr
    cases r with
    | status code =>
      refine ⟨_, fun d => markFailed_recorded hr ?_ d, rfl⟩
      intro h
      split at h
      · next hp => exact .inr hp
      · exact .inl h
    | error text => exact ⟨_, fun d => markFailed_recorded hr .inl d, rfl⟩

/-- A claimed row is pending and due. -/
theorem takes_pending {locked : List Int} {pg : Pg} (hv : pg.Valid) {d : Delivery} (hd : d ∈ pg.db.deliveries)
    (h : takes locked pg d = true) : d.status = .pending ∧ d.nextAttemptAt ≤ pg.now := by
  obtain ⟨c, hc, hid⟩ := List.any_eq_true.1 (Bool.and_eq_true_iff.1 h).1
  have hmem := List.mem_of_mem_take hc
  rw [Rows.mem_orderBy, List.mem_filter] at hmem
  obtain rfl := hv.keys.deliveries.eq hmem.1 hd (by simpa using hid)
  simp only [Bool.and_eq_true, beq_iff_eq, decide_eq_true_eq] at hmem
  exact hmem.2.1

/-! ### The server -/

section
variable [Platform]

/-- The row comes from a trigger that fires on `pg`. -/
def Delivery.Enqueued (pg : Pg) (d : Delivery) : Prop := d.Fresh pg.now ∧ pg.seqs.deliveries < d.id

/-- What everything but the dispatchers does to the outbox: rows are enqueued, and old rows and those of a
    removed webhook go. -/
structure ServerStep (pg : Pg) (e : Event) : Prop where
  new : ∀ d ∈ (pg.next e).db.deliveries, d ∈ pg.db.deliveries ∨ d.Enqueued pg
  gone : ∀ d ∈ pg.db.deliveries, d ∈ (pg.next e).db.deliveries ∨ e = .prune ∧ expired pg.now d = true ∨
    ∃ pid, e = .command pid (.webhookRemove d.webhookId)

theorem call_enqueues {pg : Pg} (hv : pg.Valid) (auth : AuthCtx) (pid : Nat) (c : Call) :
    (∀ d ∈ (pg.call auth pid c).2.db.deliveries, d ∈ pg.db.deliveries ∨ d.Enqueued pg) ∧
      ∀ d ∈ pg.db.deliveries, d ∈ (pg.call auth pid c).2.db.deliveries := by
  refine (Pg.call_wrote hv auth pid c).lift hv
    (R := fun db db' => (∀ d ∈ db'.deliveries, d ∈ db.deliveries ∨ d.Enqueued pg) ∧
      ∀ d ∈ db.deliveries, d ∈ db'.deliveries)
    (fun _ => ⟨fun _ h => .inl h, fun _ h => h⟩) ?_ ?_
  · intro a b c hab hbc
    exact ⟨fun d hd => (hbc.1 d hd).elim (hab.1 d) .inr, fun d hd => hbc.2 d (hab.2 d hd)⟩
  · intro seqs db w _ _ hl hw
    have ha := hw.author
    cases w with
    | insertDelivery r =>
      refine ⟨fun d hd => ?_, fun d hd => List.mem_append_left _ hd⟩
      rcases List.mem_append.1 hd with hd | hd
      · exact .inl hd
      · exact .inr (List.mem_singleton.1 hd ▸ ⟨ha.2, hl.2.2.2⟩)
    | deleteWebhooks _ | updateDeliveries _ _ | deleteDeliveries _ => exact ha.elim
    | _ => exact ⟨fun _ h => .inl h, fun _ h => h⟩

theorem server_step {pg : Pg} (hv : pg.Valid) {e : Event} (he : Dispatch.isDispatch e = false) :
    ServerStep pg e := by
  have same : (pg.next e).db.deliveries = pg.db.deliveries → ServerStep pg e := fun h =>
    ⟨fun d hd => .inl (h ▸ hd), fun d hd => .inl (h.symm ▸ hd)⟩
  cases e with
  | call auth pid c =>
    obtain ⟨hnew, hgone⟩ := call_enqueues hv auth pid c
    exact ⟨hnew, fun d hd => .inl (hgone d hd)⟩
  | command pid c =>
    cases c with
    | webhookRemove id =>
      have hexec : (execute (.delete .webhooks) (Admin.removeWebhook id)).exec pg =
          (.ok (pg.db.webhooks.filter (·.id == id)).length,
            { pg with db := (Write.deleteWebhooks (·.id == id)).apply pg.db }) := rfl
      have hdb : (pg.next (.command pid (.webhookRemove id))).db = (Write.deleteWebhooks (·.id == id)).apply pg.db := by
        change ((Admin.webhookRemove id).exec pg).2.db = _
        rw [Admin.webhookRemove, Bus.exec_bind_ok hexec]
        split <;> rfl
      refine ⟨fun d hd => ?_, fun d hd => ?_⟩
      · rw [hdb] at hd
        exact .inl (Rows.mem_delete.1 hd).1
      · rw [hdb]
        by_cases hw : (pg.db.webhooks.any fun w => w.id == d.webhookId && w.id == id) = true
        · obtain ⟨w, -, h⟩ := List.any_eq_true.1 hw
          simp only [Bool.and_eq_true, beq_iff_eq] at h
          exact .inr (.inr ⟨pid, by rw [← h.1, h.2]⟩)
        · exact .inl (Rows.mem_delete.2 ⟨hd, by simpa using hw⟩)
    | _ =>
      refine same (Pg.next_frame hv _ (·.deliveries) fun db w hw => Write.frame_deliveries (fun h => ?_) db)
      have := hw h
      simp [Event.writes, Command.writes] at this
  | prune =>
    refine ⟨fun d hd => .inl (Rows.mem_delete.1 hd).1, fun d hd => ?_⟩
    cases hx : expired pg.now d with
    | true => exact .inr (.inl ⟨rfl, rfl⟩)
    | false => exact .inl (Rows.mem_delete.2 ⟨hd, hx⟩)
  | tick d => exact same rfl
  | claim _ | record _ _ => cases he

end

/-! ### What a step of the dispatchers does -/

namespace Dispatch

section
variable [Platform] {s : State}

/-- The statement of the step changes the row. -/
def Step.Touches (s : State) (d : Delivery) : Step → Prop
  | .claim locked => takes locked s.pg d = true
  | .mark i => ∃ a r, s.attempts[i]? = some a ∧ a.response = some r ∧ d.id = a.delivery.id
  | _ => False

/-- How a row of the outbox comes about in a step. -/
inductive RowAfter (s : State) : Step → Delivery → Prop
  | kept {e : Step} {d : Delivery} (hd : d ∈ s.pg.db.deliveries) (h : ¬ e.Touches s d) : RowAfter s e d
  | enqueued {e : Event} {d : Delivery} (h : d.Enqueued s.pg) : RowAfter s (.server e) d
  | taken {locked : List Int} {d : Delivery} (hd : d ∈ s.pg.db.deliveries) (h : takes locked s.pg d = true) :
    RowAfter s (.claim locked) (take s.pg.now d)
  | recorded {i : Nat} {a : Attempt} {r : Response} {d d' : Delivery} (hd : d ∈ s.pg.db.deliveries)
      (hi : s.attempts[i]? = some a) (hr : a.response = some r) (hid : d.id = a.delivery.id)
      (h : Recorded s.pg.now a.delivery r d d') :
    RowAfter s (.mark i) d'

theorem next_server {e : Event} (h : isDispatch e = false) : next s (.server e) = { s with pg := s.pg.next e } := by
  simp only [next, h]
  rfl

/-- An attempt posts its row once. -/
theorem next_post (s : State) (i : Nat) (r : Response) :
    next s (.post i r) = s ∨ ∃ a, s.attempts[i]? = some a ∧ a.response = none ∧ next s (.post i r) =
      { s with attempts := s.attempts.set i { a with response := some r }, posts := (a.delivery, r) :: s.posts } := by
  simp only [next]
  split
  · next c since hi => exact .inr ⟨_, hi, rfl, rfl⟩
  · exact .inl rfl

/-- An attempt with an outcome records it and is over. -/
theorem next_mark (s : State) (i : Nat) :
    (next s (.mark i) = s ∧ ∀ d, ¬ (Step.mark i).Touches s d) ∨
      ∃ a r, s.attempts[i]? = some a ∧ a.response = some r ∧ next s (.mark i) =
        { s with
          pg := (record a.delivery r).effect s.pg
          attempts := s.attempts.eraseIdx i
          marks := (a.delivery, r) :: s.marks } := by
  simp only [next]
  split
  · next c since r hi => exact .inr ⟨_, r, hi, rfl, rfl⟩
  · next hno =>
    refine .inl ⟨rfl, ?_⟩
    rintro d ⟨⟨c, since, q⟩, r, hi, rfl, -⟩
    exact hno c since r hi

theorem row_after (hv : s.pg.Valid) (e : Step) : ∀ d ∈ (next s e).pg.db.deliveries, RowAfter s e d := by
  intro d hd
  cases e with
  | server e =>
    cases he : isDispatch e with
    | true =>
      have hnext : next s (.server e) = s := by simp only [next, he, if_true]
      exact .kept (hnext ▸ hd) id
    | false =>
      rw [next_server he] at hd
      rcases (server_step hv he).new d hd with hd | hf
      · exact .kept hd id
      · exact .enqueued hf
  | claim locked =>
    obtain ⟨d, hd₀, rfl⟩ := Rows.mem_update.1 hd
    split
    · next ht => exact .taken hd₀ ht
    · next ht => exact .kept hd₀ ht
  | post i r =>
    have hpg : (next s (.post i r)).pg = s.pg := by
      obtain h | ⟨a, -, -, h⟩ := next_post s i r <;> rw [h]
    exact .kept (hpg ▸ hd) id
  | mark i =>
    obtain ⟨h, hno⟩ | ⟨a, r, hi, hr, h⟩ := next_mark s i
    · exact .kept (h ▸ hd) (hno d)
    · obtain ⟨f, hf, heffect⟩ := record_effect a.delivery r s.pg
      rw [h, heffect] at hd
      obtain ⟨d, hd₀, rfl⟩ := Rows.mem_update.1 hd
      split
      · next hid => exact .recorded hd₀ hi hr (by simpa using hid) (hf d)
      · next hid =>
        refine .kept hd₀ ?_
        rintro ⟨a', r', hi', -, hid'⟩
        obtain rfl := Option.some.inj (hi.symm.trans hi')
        exact hid (by simpa using hid')
  | lose i => exact .kept hd id

/-- The constraints of the schema hold in every step, and the sequences never go back. -/
theorem next_valid (hv : s.pg.Valid) (e : Step) : (next s e).pg.Valid ∧ s.pg.seqs.Before (next s e).pg.seqs := by
  have ht : Table.webhookDeliveries ∈ [Table.webhookDeliveries] := List.mem_singleton_self _
  cases e with
  | server e =>
    simp only [next]
    split
    · exact ⟨hv, .refl _⟩
    · exact ⟨hv.next e, Pg.next_before hv e⟩
  | claim locked =>
    have hw : Wrote _ s.pg ((claim locked).effect s.pg) := (Webhooks.claim_writes ht).effect hv
    exact ⟨hw.valid hv, hw.before⟩
  | post i r =>
    obtain h | ⟨a, -, -, h⟩ := next_post s i r <;> rw [h] <;> exact ⟨hv, .refl _⟩
  | mark i =>
    obtain ⟨h, -⟩ | ⟨a, r, -, -, h⟩ := next_mark s i
    · rw [h]
      exact ⟨hv, .refl _⟩
    · rw [h]
      have hw : Wrote _ s.pg ((record a.delivery r).effect s.pg) := (Webhooks.record_writes ht).effect hv
      exact ⟨hw.valid hv, hw.before⟩
  | lose i => exact ⟨hv, .refl _⟩

/-- Every POST after the step was there before, or it is that of an attempt with no outcome so far. -/
theorem posts_after {e : Step} {p : Claimed × Response} (hp : p ∈ (next s e).posts) :
    p ∈ s.posts ∨ ∃ i r a, e = .post i r ∧ s.attempts[i]? = some a ∧ a.response = none ∧ p = (a.delivery, r) := by
  cases e with
  | server e =>
    simp only [next] at hp
    split at hp <;> exact .inl hp
  | claim locked | lose i => exact .inl hp
  | post i r =>
    obtain h | ⟨a, hi, hr, h⟩ := next_post s i r
    · exact .inl (h ▸ hp)
    · rw [h] at hp
      exact (List.mem_cons.1 hp).symm.imp_right fun hp => ⟨i, r, a, rfl, hi, hr, hp⟩
  | mark i => obtain ⟨h, -⟩ | ⟨a, r, -, -, h⟩ := next_mark s i <;> rw [h] at hp <;> exact .inl hp

theorem posts_next (e : Step) : ∀ p ∈ s.posts, p ∈ (next s e).posts := by
  intro p hp
  cases e with
  | server e =>
    simp only [next]
    split <;> exact hp
  | claim locked | lose i => exact hp
  | post i r =>
    obtain h | ⟨a, -, -, h⟩ := next_post s i r <;> rw [h]
    · exact hp
    · exact List.mem_cons_of_mem _ hp
  | mark i =>
    obtain ⟨h, -⟩ | ⟨a, r, -, -, h⟩ := next_mark s i <;> rw [h] <;> exact hp

/-- Every mark after the step was there before, or it is that of an attempt with an outcome. -/
theorem marks_after {e : Step} {m : Claimed × Response} (hm : m ∈ (next s e).marks) :
    m ∈ s.marks ∨ ∃ i a r, e = .mark i ∧ s.attempts[i]? = some a ∧ a.response = some r ∧ m = (a.delivery, r) := by
  cases e with
  | server e =>
    simp only [next] at hm
    split at hm <;> exact .inl hm
  | claim locked | lose i => exact .inl hm
  | post i r => obtain h | ⟨a, -, -, h⟩ := next_post s i r <;> rw [h] at hm <;> exact .inl hm
  | mark i =>
    obtain ⟨h, -⟩ | ⟨a, r, hi, hr, h⟩ := next_mark s i
    · exact .inl (h ▸ hm)
    · rw [h] at hm
      exact (List.mem_cons.1 hm).symm.imp_right fun hm => ⟨i, a, r, rfl, hi, hr, hm⟩

/-- A row that the step leaves alone has the latest mark that it had. -/
theorem marks_next {e : Step} {d : Delivery} (h : ¬ e.Touches s d) :
    (next s e).marks.find? (·.1.id == d.id) = s.marks.find? (·.1.id == d.id) := by
  cases e with
  | server e =>
    simp only [next]
    split <;> rfl
  | claim locked | lose i => rfl
  | post i r => obtain h | ⟨a, -, -, h⟩ := next_post s i r <;> rw [h]
  | mark i =>
    obtain ⟨hs, -⟩ | ⟨a, r, hi, hr, hs⟩ := next_mark s i
    · rw [hs]
    · rw [hs]
      refine List.find?_cons_of_neg fun hid => h ⟨a, r, hi, hr, ?_⟩
      exact (beq_iff_eq.1 hid).symm

/-- Every attempt after the step was there before, or it is that of a row just claimed, or just posted. -/
theorem attempts_next {e : Step} {a : Attempt} (ha : a ∈ (next s e).attempts) :
    a ∈ s.attempts ∨
      (∃ locked, e = .claim locked ∧ a.delivery ∈ claimed locked s.pg ∧ a.since = s.pg.now ∧ a.response = none) ∨
      ∃ i r a₀, e = .post i r ∧ s.attempts[i]? = some a₀ ∧ a₀.response = none ∧ a = { a₀ with response := some r } ∧
        (a.delivery, r) ∈ (next s e).posts := by
  cases e with
  | server e =>
    simp only [next] at ha
    split at ha <;> exact .inl ha
  | claim locked =>
    rcases List.mem_append.1 ha with ha | ha
    · exact .inl ha
    · obtain ⟨c, hc, rfl⟩ := List.mem_map.1 ha
      exact .inr (.inl ⟨locked, rfl, hc, rfl, rfl⟩)
  | post i r =>
    obtain h | ⟨a₀, hi, hr, h⟩ := next_post s i r
    · exact .inl (h ▸ ha)
    · rw [h] at ha ⊢
      rcases List.mem_or_eq_of_mem_set ha with ha | rfl
      · exact .inl ha
      · exact .inr (.inr ⟨i, r, a₀, rfl, hi, hr, rfl, List.mem_cons_self⟩)
  | mark i =>
    obtain ⟨h, -⟩ | ⟨a₀, r, -, -, h⟩ := next_mark s i <;> rw [h] at ha
    · exact .inl ha
    · exact .inl (List.mem_of_mem_eraseIdx ha)
  | lose i => exact .inl (List.mem_of_mem_eraseIdx ha)

end

/-! ### Every row is accounted for -/

/-- How the state of a row is accounted for by what happened. -/
def State.Accounted (s : State) (d : Delivery) : Prop :=
  match d.status with
  | .pending => d.nextAttemptAt ≤ d.updatedAt + hold
  | .sent => ∃ p ∈ s.posts, p.1.id = d.id ∧ p.2.success = true
  | .failed => ∃ p, s.marks.find? (·.1.id == d.id) = some p ∧ p ∈ s.posts ∧
      (maxAttempts ≤ p.1.attempts ∨ p.2.permanent = true)

structure Sound (s : State) : Prop where
  valid : s.pg.Valid
  posted : ∀ a ∈ s.attempts, ∀ r ∈ a.response, (a.delivery, r) ∈ s.posts
  rows : ∀ d ∈ s.pg.db.deliveries, s.Accounted d

section
variable {s s' : State}

/-- A row that stays is still accounted for when more was posted, and no mark was made on it. -/
theorem State.Accounted.mono {d : Delivery} (h : s.Accounted d) (hposts : ∀ p ∈ s.posts, p ∈ s'.posts)
    (hmarks : s'.marks.find? (·.1.id == d.id) = s.marks.find? (·.1.id == d.id)) : s'.Accounted d := by
  unfold Accounted at h ⊢
  cases hs : d.status with
  | pending => simpa only [hs] using h
  | sent =>
    simp only [hs] at h
    obtain ⟨p, hp, h⟩ := h
    exact ⟨p, hposts p hp, h⟩
  | failed =>
    simp only [hs] at h
    obtain ⟨p, hfind, hp, h⟩ := h
    exact ⟨p, hmarks.trans hfind, hposts p hp, h⟩

theorem accounted_pending {d : Delivery} (hs : d.status = .pending) (h : d.nextAttemptAt ≤ d.updatedAt + hold) :
    s.Accounted d := by
  simpa only [State.Accounted, hs] using h

theorem accounted_fresh {now : Time} {d : Delivery} (h : d.Fresh now) : s.Accounted d := by
  obtain ⟨hs, -, hnext, hupdated⟩ := h
  refine accounted_pending hs ?_
  rw [hnext, hupdated]
  exact Int.le_add_of_nonneg_right (by decide)

/-- The row that a mark has changed is accounted for by that mark. -/
theorem accounted_recorded {c : Claimed} {r : Response} {now : Time} {d d' : Delivery} (h : Recorded now c r d d')
    (hid : d.id = c.id) (hpost : (c, r) ∈ s.posts) (hmarks : s.marks.head? = some (c, r)) : s.Accounted d' := by
  unfold State.Accounted
  cases hs : d'.status with
  | pending =>
    simp only
    rw [h.updatedAt]
    exact h.pending hs
  | sent => exact ⟨(c, r), hpost, hid.symm.trans h.id.symm, h.sent.1 hs⟩
  | failed =>
    refine ⟨(c, r), ?_, hpost, h.failed hs⟩
    obtain ⟨ms, hms⟩ := List.head?_eq_some_iff.1 hmarks
    simp [hms, h.id, hid]

end

section
variable [Platform] {s : State}

theorem Sound.next (h : Sound s) (e : Step) : Sound (next s e) where
  valid := (next_valid h.valid e).1
  posted := by
    intro a ha r hr
    obtain ha | ⟨locked, -, -, -, hnone⟩ | ⟨i, r', a₀, -, -, -, rfl, hpost⟩ := attempts_next ha
    · exact posts_next e _ (h.posted a ha r hr)
    · rw [hnone] at hr
      cases hr
    · obtain rfl := Option.some.inj hr
      exact hpost
  rows := by
    intro d hd'
    cases row_after h.valid e d hd' with
    | kept hd hno => exact (h.rows d hd).mono (posts_next e) (marks_next hno)
    | enqueued hf => exact accounted_fresh hf.1
    | taken hd ht => exact accounted_pending (takes_pending h.valid hd ht).1 le_rfl
    | @recorded i a r _ _ hd hi hr hid hrec =>
      have hpost : (a.delivery, r) ∈ s.posts := h.posted a (List.mem_of_getElem? hi) r hr
      refine accounted_recorded hrec hid (posts_next _ _ hpost) ?_
      obtain ⟨-, hno⟩ | ⟨a', r', hi', hr', hs⟩ := next_mark s i
      · exact absurd ⟨a, r, hi, hr, hid⟩ (hno _)
      · obtain rfl := Option.some.inj (hi.symm.trans hi')
        obtain rfl := Option.some.inj (hr.symm.trans hr')
        rw [hs]
        rfl

end

theorem Sound.start (now : Time) : Sound (start now) :=
  ⟨.init now, by simp [Dispatch.start], by simp [Dispatch.start, Pg.init, Db.empty]⟩

/-- How often a step attempts the rows that it claims. -/
def Step.claims : Step → Int
  | .claim _ => 1
  | _ => 0

/-- What a step does to the rows of the outbox: it stamps the rows that it enqueues or changes, only a claim
    counts an attempt, and a row goes only for its age or with its webhook. -/
structure RowStep [Platform] (s : State) (e : Step) : Prop where
  stamped : ∀ d' ∈ (next s e).pg.db.deliveries, d' ∈ s.pg.db.deliveries ∨ d'.Fresh s.pg.now ∨
    ∃ d ∈ s.pg.db.deliveries, d'.id = d.id ∧ d'.updatedAt = s.pg.now ∧ d'.attempts = d.attempts + e.claims
  gone : ∀ d ∈ s.pg.db.deliveries, (∃ d' ∈ (next s e).pg.db.deliveries, d'.id = d.id) ∨
    (e = .server .prune ∧ (d.status = .sent ∧ d.updatedAt < s.pg.now - keepSent ∨
      d.status = .failed ∧ d.updatedAt < s.pg.now - keepFailed)) ∨
    ∃ pid, e = .server (.command pid (.webhookRemove d.webhookId))

section
variable [Platform] {s : State}

/-- An `UPDATE` takes no row away. -/
theorem update_keeps {e : Step} {p : Delivery → Bool} {f : Delivery → Delivery}
    (h : (next s e).pg.db.deliveries = Rows.update p f s.pg.db.deliveries) (hf : ∀ d, (f d).id = d.id) :
    ∀ d ∈ s.pg.db.deliveries, ∃ d' ∈ (next s e).pg.db.deliveries, d'.id = d.id := by
  intro d hd
  refine ⟨if p d then f d else d, h ▸ Rows.mem_update.2 ⟨d, hd, rfl⟩, ?_⟩
  split
  · exact hf d
  · rfl

theorem row_step (h : Sound s) (e : Step) : RowStep s e where
  stamped := by
    intro d' hd'
    cases row_after h.valid e d' hd' with
    | kept hd hno => exact .inl hd
    | enqueued hf => exact .inr (.inl hf.1)
    | taken hd ht => exact .inr (.inr ⟨_, hd, rfl, rfl, rfl⟩)
    | recorded hd hi hr hid hrec =>
      exact .inr (.inr ⟨_, hd, hrec.id, hrec.updatedAt, hrec.attempts.trans (add_zero _).symm⟩)
  gone := by
    intro d hd
    have stays : (next s e).pg = s.pg → ∃ d' ∈ (next s e).pg.db.deliveries, d'.id = d.id :=
      fun h => ⟨d, h.symm ▸ hd, rfl⟩
    cases e with
    | server e =>
      cases he : isDispatch e with
      | true => exact .inl (stays (by simp only [next, he, if_true]))
      | false =>
        rw [next_server he]
        rcases (server_step h.valid he).gone d hd with hd | ⟨rfl, hx⟩ | ⟨pid, rfl⟩
        · exact .inl ⟨d, hd, rfl⟩
        · simp only [expired, Bool.or_eq_true, Bool.and_eq_true, beq_iff_eq, decide_eq_true_eq] at hx
          exact .inr (.inl ⟨rfl, hx⟩)
        · exact .inr (.inr ⟨pid, rfl⟩)
    | claim locked => exact .inl (update_keeps (f := take s.pg.now) rfl (fun _ => rfl) d hd)
    | post i r =>
      refine .inl (stays ?_)
      obtain h | ⟨a, -, -, h⟩ := next_post s i r <;> rw [h]
    | mark i =>
      obtain ⟨hs, -⟩ | ⟨a, r, -, -, hs⟩ := next_mark s i
      · exact .inl (stays (by rw [hs]))
      · obtain ⟨f, hf, heffect⟩ := record_effect a.delivery r s.pg
        have hrows : (next s (.mark i)).pg.db.deliveries = Rows.update (·.id == a.delivery.id) f s.pg.db.deliveries := by
          rw [hs, heffect]
        exact .inl (update_keeps hrows (fun d => (hf d).id) d hd)
    | lose i => exact .inl (stays rfl)

/-- No delivery is lost: in every run of the server with any number of dispatchers each row is accounted
    for, and each step changes the rows as `RowStep` says. -/
theorem deliveries_accounted (now : Time) (es : List Step) :
    (∀ d ∈ (Runs.after next (start now) es).pg.db.deliveries, (Runs.after next (start now) es).Accounted d) ∧
      ∀ e, RowStep (Runs.after next (start now) es) e := by
  have h : Sound (Runs.after next (start now) es) := Runs.invariant (fun _ e h => h.next e) (.start now) es
  exact ⟨h.rows, row_step h⟩

end
end Dispatch
end CrewSync
