import CrewSync.Theorems.LockPurpose

/-! What the team's webhooks hear of its locks: a release and the acquisition of a free lock, but not that of an
    expired one. -/

namespace CrewSync

/-! ### The rows for one hook -/

theorem enqueued_keyed {pg : Pg} {seqs : Seqs} (hk : pg.db.Keys seqs) (team : Uuid) (kind : EventKind) (summary : String)
    (payload : Payload) (channel : Option String) (seqs' : Seqs) :
    Rows.Keyed (·.webhookId) (pg.enqueued team kind summary payload channel seqs') := by
  have hids : (pg.enqueued team kind summary payload channel seqs').map (·.webhookId) =
      (((pg.hooks team kind channel).zipIdx 1).map Prod.fst).map (·.id) := by
    simp only [Pg.enqueued, List.map_map, Function.comp_def]
  rw [Rows.Keyed, hids, List.zipIdx_map_fst]
  exact hk.webhooks.filter _

/-- Each hook gets one row. -/
theorem enqueued_one {pg : Pg} {seqs : Seqs} (hk : pg.db.Keys seqs) {team : Uuid} {kind : EventKind} {channel : Option String}
    {w : Webhook} (hw : w ∈ pg.hooks team kind channel) (summary : String) (payload : Payload) (seqs' : Seqs) :
    ∃ d, (pg.enqueued team kind summary payload channel seqs').filter (·.webhookId == w.id) = [d] ∧
      d.kind = kind ∧ d.payload = payload := by
  obtain ⟨i, hi⟩ : ∃ i, (w, i) ∈ (pg.hooks team kind channel).zipIdx 1 := by
    rw [← List.zipIdx_map_fst 1 (pg.hooks team kind channel)] at hw
    obtain ⟨⟨w', i⟩, hi, rfl⟩ := List.mem_map.1 hw
    exact ⟨i, hi⟩
  refine ⟨_, (enqueued_keyed hk team kind summary payload channel seqs').filter_eq_singleton
    (List.mem_map_of_mem hi) (by simp) fun r _ hr => by simpa using hr, rfl, rfl⟩

namespace Pg

/-- The event queues one row for the hook, and it has the payload. -/
def Queues [Platform] (pg : Pg) (e : Event) (w : Webhook) (payload : Payload) : Prop :=
  ∃ ds d, (pg.next e).db.deliveries = pg.db.deliveries ++ ds ∧ ds.filter (·.webhookId == w.id) = [d] ∧
    d.kind = .lock ∧ d.payload = payload

/-- The event queues no row for the hook. -/
def Skips [Platform] (pg : Pg) (e : Event) (w : Webhook) : Prop :=
  ∃ ds, (pg.next e).db.deliveries = pg.db.deliveries ++ ds ∧ ∀ d ∈ ds, d.webhookId ≠ w.id

end Pg

def lockPayload (name event holder : String) : Payload :=
  [("kind", .str "lock"), ("name", .str name), ("event", .str event), ("holder", .str holder)]

namespace Pg
section
variable [Platform]

/-- The lock is in the hands of `i`, and has not expired. -/
def holdsLive (team : Uuid) (name : String) (i : Identity) (pg : Pg) : Prop :=
  pg.inHands team name i ∧ pg.lockPast team name = false

/-- An enabled hook of the team hears of the lock `name`: whoever takes it and did not hold it queues one row that names the
    holder, a release one row, and the extension of a live lock none. -/
structure Hears (pg : Pg) (e : Event) (team : Uuid) (name : String) (w : Webhook) : Prop where
  acquired : ∀ auth pid c, e = .call auth pid c → pg.lockTaken team name e = true →
    ¬ pg.holdsLive team name auth.identity → pg.Queues e w (lockPayload name "acquired" auth.agentName)
  released : ∀ auth pid c, e = .call auth pid c → pg.lockReleased team name e = true →
    pg.Queues e w (lockPayload name "released" auth.agentName)
  extended : ∀ auth pid c, e = .call auth pid c → pg.lockTaken team name e = true →
    pg.holdsLive team name auth.identity → pg.Skips e w

/-- Every such hook hears of every lock. -/
def Forwards (pg : Pg) (e : Event) : Prop :=
  ∀ team name, ∀ w ∈ pg.db.webhooks, w.teamId = team → w.enabled = true → w.events.contains .lock = true →
    pg.Hears e team name w

/-- The event takes an expired lock in a team that has such a hook. -/
def bypasses (pg : Pg) : Event → Bool
  | .call auth _ (.acquireLock raw _ _) => auth.authentic pg.db &&
      match normalizeName raw with
      | .ok name => (pg.db.findLock auth.teamId name).any fun l => l.expiresAt < pg.now &&
          pg.db.webhooks.any fun w => w.teamId == l.teamId && w.enabled && w.events.contains .lock
      | .error _ => false
  | _ => false

variable {pg : Pg} {team : Uuid} {name : String} {w : Webhook}

omit [Platform] in
theorem mem_lockHooks (hw : w ∈ pg.db.webhooks) (hteam : w.teamId = team) (hon : w.enabled = true)
    (hlock : w.events.contains .lock = true) : w ∈ pg.hooks team .lock none := by
  refine List.mem_filter.2 ⟨hw, ?_⟩
  rw [hlock]
  simp [hteam, hon]

omit [Platform] in
theorem authentic_name (hv : pg.Valid) {auth : AuthCtx} (ha : auth.authentic pg.db = true) :
    pg.db.agentName auth.agentId = some auth.agentName := by
  obtain ⟨a, hmem, hq⟩ := List.any_eq_true.1 (Bool.and_eq_true_iff.1 ha).1
  simp only [Bool.and_eq_true, beq_iff_eq] at hq
  obtain ⟨⟨⟨hid, -⟩, hname⟩, -⟩ := hq
  rw [Db.agentName, hv.keys.agents.find?_eq_some hmem (by simp [hid]) fun r _ hr => by simpa [hid] using hr,
    Option.map_some, hname]

omit [Platform] in
theorem lockNotices_one (hv : pg.Valid) {auth : AuthCtx} (ha : auth.authentic pg.db = true) {l : Lock}
    (hw : w ∈ pg.hooks l.teamId .lock none) (hheld : lockHeldBy auth.agentId auth.session l = true) (event : String) :
    ∃ d, (pg.lockNotices event l).filter (·.webhookId == w.id) = [d] ∧ d.kind = .lock ∧
      d.payload = lockPayload l.name event auth.agentName := by
  obtain ⟨d, hd, hkind, hpayload⟩ := enqueued_one hv.keys hw _ _ pg.seqs
  refine ⟨d, hd, hkind, hpayload.trans ?_⟩
  have hid : l.holderAgentId = auth.agentId := by
    simp only [lockHeldBy, Bool.and_eq_true, beq_iff_eq] at hheld
    exact hheld.1
  rw [hid, authentic_name hv ha]
  rfl

/-- An acquisition finds no row, and queues its rows, or it updates the row that it finds, and queues none. -/
theorem lockTaken_cases {auth : AuthCtx} {pid : Nat} {c : Call} (h : pg.lockTaken team name (.call auth pid c) = true) :
    ∃ raw ttl purpose, c = .acquireLock raw ttl purpose ∧ auth.teamId = team ∧ auth.authentic pg.db = true ∧
      normalizeName raw = .ok name ∧
      ((pg.db.findLock team name = none ∧ (pg.next (.call auth pid c)).db.deliveries =
          pg.db.deliveries ++ pg.lockNotices "acquired" (newLock auth name pg.now (ttlOf ttl) purpose)) ∨
        ∃ l, pg.db.findLock team name = some l ∧ (l.expiresAt < pg.now ∨ l.holder = auth.identity) ∧
          (pg.next (.call auth pid c)).db.deliveries = pg.db.deliveries) := by
  obtain ⟨hteam, hacq⟩ := Bool.and_eq_true_iff.1 h
  obtain rfl := beq_iff_eq.1 hteam
  clear h hteam
  cases c with
  | acquireLock raw ttl purpose =>
    obtain ⟨ha, hraw⟩ := acquired_named hacq
    refine ⟨raw, ttl, purpose, rfl, rfl, ha, hraw, ?_⟩
    have hcall := call_acquire ha pid raw ttl purpose
    have ho := acquireLock_acquired auth pg hraw ttl purpose
    have hanswer := (Bool.and_eq_true_iff.1 hacq).2
    generalize (acquireLock auth raw ttl purpose).exec pg = r at hcall ho
    rw [hcall] at hanswer
    rw [next, hcall]
    cases ho with
    | failed h => cases hanswer
    | inserted _ hnone _ hout => exact .inl ⟨hnone, hout⟩
    | updated _ hl hcan _ hout => exact .inr ⟨_, hl, hcan.imp_right lockHeldBy_holder.1, hout⟩
    | refused hno _ _ => exact absurd (hno.symm.trans hanswer) (by simp)
  | _ => cases hacq

/-- A release deletes the row of the caller, and queues its rows. -/
theorem lockReleased_cases (hv : pg.Valid) {auth : AuthCtx} {pid : Nat} {c : Call}
    (h : pg.lockReleased team name (.call auth pid c) = true) :
    ∃ l, auth.authentic pg.db = true ∧ pg.db.findLock team name = some l ∧
      lockHeldBy auth.agentId auth.session l = true ∧
      (pg.next (.call auth pid c)).db.deliveries = pg.db.deliveries ++ pg.lockNotices "released" l := by
  cases c with
  | releaseLock raw =>
    simp only [lockReleased, Bool.and_eq_true, beq_iff_eq, named_iff] at h
    obtain ⟨⟨rfl, hraw⟩, hanswer⟩ := h
    by_cases ha : auth.authentic pg.db = true
    · have hcall := call_release ha pid raw
      have ho := releaseLock_released auth hv hraw
      generalize (releaseLock auth raw).exec pg = r at hcall ho
      rw [hcall] at hanswer
      cases ho with
      | gone _ hl hown _ hout =>
        refine ⟨_, ha, hl, (ownLock_iff.1 hown).2.2, ?_⟩
        rw [next, hcall]
        exact hout
      | @kept r hno _ =>
        cases r with
        | error e => cases hanswer
        | ok ack => exact absurd ((hno ack rfl).symm.trans hanswer) (by simp)
    · rw [call, if_neg ha] at hanswer
      cases hanswer
  | _ => cases h

theorem bypasses_iff {auth : AuthCtx} {pid : Nat} {raw : String} {ttl : Option Int} {purpose : Option String} :
    pg.bypasses (.call auth pid (.acquireLock raw ttl purpose)) = true ↔
      auth.authentic pg.db = true ∧ ∃ name l, normalizeName raw = .ok name ∧ pg.db.findLock auth.teamId name = some l ∧
        l.expiresAt < pg.now ∧ ∃ w ∈ pg.db.webhooks, w.teamId = l.teamId ∧ w.enabled = true ∧ w.events.contains .lock = true := by
  simp only [bypasses, Bool.and_eq_true, and_congr_right_iff]
  intro _
  cases hraw : normalizeName raw with
  | error e => simp
  | ok name =>
    simp only [Option.any_eq_true, Bool.and_eq_true, decide_eq_true_eq, List.any_eq_true, beq_iff_eq, and_assoc]
    constructor
    · rintro ⟨l, hl, hpast, hhook⟩
      exact ⟨name, l, rfl, hl, hpast, hhook⟩
    · rintro ⟨name', l, heq, hl, hpast, hhook⟩
      cases heq
      exact ⟨l, hl, hpast, hhook⟩

theorem hears_of_not_bypasses (hv : pg.Valid) {e : Event} (hno : pg.bypasses e = false) (hw : w ∈ pg.hooks team .lock none) :
    pg.Hears e team name w where
  acquired := by
    rintro auth pid c rfl htaken hnew
    obtain ⟨raw, ttl, purpose, rfl, rfl, ha, hraw, ⟨-, hout⟩ | ⟨l, hl, hcan, -⟩⟩ := lockTaken_cases htaken
    · have hheld : lockHeldBy auth.agentId auth.session (newLock auth name pg.now (ttlOf ttl) purpose) = true := by
        simp [lockHeldBy, newLock]
      obtain ⟨d, hd⟩ := lockNotices_one hv ha (show w ∈ pg.hooks (newLock auth name pg.now (ttlOf ttl) purpose).teamId .lock none
        from hw) hheld "acquired"
      exact ⟨_, d, hout, hd⟩
    · -- The row has expired: taking it would be one of the calls excluded.
      have hpast : l.expiresAt < pg.now := by
        by_contra hlive
        refine hnew ⟨⟨l, hl, hcan.resolve_left hlive⟩, ?_⟩
        rw [lockPast, hl, Option.any_some, decide_eq_false hlive]
      obtain ⟨hmem, hq⟩ := List.mem_filter.1 hw
      simp only [Bool.and_eq_true, beq_iff_eq] at hq
      refine absurd (bypasses_iff.2 ⟨ha, name, l, hraw, hl, hpast, w, hmem, ?_, ?_⟩) (Bool.eq_false_iff.1 hno)
      · rw [(Db.findLock_some hl).2.1, hq.1.1.1]
      · exact ⟨hq.1.1.2, hq.1.2⟩
  released := by
    rintro auth pid c rfl hreleased
    obtain ⟨l, ha, hl, hheld, hout⟩ := lockReleased_cases hv hreleased
    obtain ⟨-, rfl, rfl⟩ := Db.findLock_some hl
    obtain ⟨d, hd⟩ := lockNotices_one hv ha hw hheld "released"
    exact ⟨_, d, hout, hd⟩
  extended := by
    rintro auth pid c rfl htaken ⟨⟨l, hl, -⟩, -⟩
    obtain ⟨-, -, -, -, -, -, -, ⟨hnone, -⟩ | ⟨-, -, -, hout⟩⟩ := lockTaken_cases htaken
    · exact absurd (hl.symm.trans hnone) (by simp)
    · exact ⟨[], by rw [hout, List.append_nil], fun d hd => by cases hd⟩

/-- An event is forwarded as it should be just when it does not bypass the hooks. -/
theorem forwards_iff (hv : pg.Valid) (e : Event) : pg.Forwards e ↔ pg.bypasses e = false := by
  constructor
  · intro h
    refine Bool.eq_false_iff.2 fun hbypasses => ?_
    cases e with
    | call auth pid c =>
      cases c with
      | acquireLock raw ttl purpose =>
        obtain ⟨ha, name, l, hraw, hl, hpast, w, hw, hteam, hon, hlock⟩ := bypasses_iff.1 hbypasses
        obtain ⟨hacq, -, hout⟩ := acquire_updates hv ha pid hraw ttl purpose hl (.inl hpast)
        have htaken : pg.lockTaken auth.teamId name (.call auth pid (.acquireLock raw ttl purpose)) = true := by
          simp only [lockTaken, beq_self_eq_true, hacq, Bool.and_self]
        have hnew : ¬ pg.holdsLive auth.teamId name auth.identity := by
          rintro ⟨-, hlive⟩
          rw [lockPast, hl, Option.any_some, decide_eq_true hpast] at hlive
          cases hlive
        obtain ⟨ds, d, hds, hone, -⟩ := (h auth.teamId name w hw (hteam.trans (Db.findLock_some hl).2.1) hon hlock).acquired
          auth pid _ rfl htaken hnew
        obtain rfl : ds = [] := List.append_right_eq_self.1 (hds.symm.trans hout)
        cases hone
      | _ => cases hbypasses
    | _ => cases hbypasses
  · intro hno team name w hw hteam hon hlock
    exact hears_of_not_bypasses hv hno (mem_lockHooks hw hteam hon hlock)

/-- In a run every hook hears of every lock, just when no event of the run bypasses the hooks. -/
theorem forwards_along_iff (now : Time) (es : List Event) :
    Runs.Along next Forwards (Pg.init now) es ↔ Runs.Along next (fun pg e => pg.bypasses e = false) (Pg.init now) es := by
  constructor
  · exact fun h => h.strengthen (Pg.Valid.init now) fun pg e h hv => ⟨(forwards_iff hv e).1 h, hv.next e⟩
  · exact fun h => h.strengthen (Pg.Valid.init now) fun pg e h hv => ⟨(forwards_iff hv e).2 h, hv.next e⟩

end
end Pg

namespace Sample
attribute [local instance] Platform.ascii

/-- A hook of the crew for locks; ann's lock lapses, and bob takes it over. -/
def overtaken : List Event :=
  crew ++ [.command 0 (.webhookAdd "core" "http://hook" "generic" "lock" none),
    .call ann 0 (.acquireLock "deploy" (some 5) none), .tick 6000000, .call bob 0 (.acquireLock "deploy" none none)]

/-- Nobody is told that bob has the lock. -/
theorem overtaken_unheard : ¬ ∀ (now : Time) (es : List Event), Runs.Along Pg.next Pg.Forwards (Pg.init now) es := by
  intro h
  have hno := (h 0 overtaken).strengthen (Pg.Valid.init 0) fun pg e h hv => ⟨(Pg.forwards_iff hv e).1 h, hv.next e⟩
  revert hno
  decide

end Sample
end CrewSync
