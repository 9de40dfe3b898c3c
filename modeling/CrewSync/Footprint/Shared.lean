import CrewSync.Footprint.Triggers
import CrewSync.Store.Digest
import CrewSync.Store.Notes

/-! What the calls on locks, notes and presence write, and a prune. -/

namespace CrewSync
open Bus (ReadOnly)
variable {auth : AuthCtx} {tables : List Table} {P : Db → Prop}

/-! ### Locks -/

section
variable [Platform]

theorem acquireStatement_writes (ht : [.locks, .webhookDeliveries] ⊆ tables) {name : String} {ttl : Int}
    {purpose : Option String} :
    Sql.Writes (Own auth.agentId auth.teamId tables) P (acquireStatement auth name ttl purpose)
      fun _ _ => True := by
  intro pg hv _ b seqs ws hs
  have hown : ∀ l : Lock, l.teamId = auth.teamId → l.holderAgentId = auth.agentId →
      Own auth.agentId auth.teamId tables pg.now pg.db (.putLock l) :=
    fun l h₁ h₂ => ⟨⟨h₁, h₂⟩, singleton_subset (ht (by simp))⟩
  simp only [acquireStatement] at hs
  split at hs
  · next hok =>
    split at hs
    · -- The name is free: the row is inserted.
      simp only [Except.ok.injEq, Prod.mk.injEq] at hs
      obtain ⟨-, rfl, rfl⟩ := hs
      have hw : ((Write.putLock (newLock auth name pg.now ttl purpose)).apply pg.db).webhooks = pg.db.webhooks := rfl
      have hf : Fires auth.agentId auth.teamId tables pg.now _ pg.seqs
          (enqueueLockWebhook pg "acquired" (newLock auth name pg.now ttl purpose) pg.seqs) :=
        fires_lock (ht (by simp)) hw hv.keys.deliveriesBelow rfl
      have hf := hf.notify (notifyLockAcquired (newLock auth name pg.now ttl purpose))
      exact ⟨hf.before, ⟨hok, hown _ rfl rfl, hf.trail _ _ ⟨le_rfl, le_rfl, le_rfl, le_rfl, le_rfl⟩ (.refl _)⟩, trivial⟩
    · next l _ =>
      split at hs
      · simp only [Except.ok.injEq, Prod.mk.injEq] at hs
        obtain ⟨-, rfl, rfl⟩ := hs
        exact ⟨.refl _, ⟨hok, hown _ rfl rfl, trivial, ⟨trivial, List.nil_subset _⟩, trivial⟩, trivial⟩
      · simp only [Except.ok.injEq, Prod.mk.injEq] at hs
        obtain ⟨-, rfl, rfl⟩ := hs
        exact ⟨.refl _, trivial, trivial⟩
  · exact absurd hs (by simp)

theorem releaseLockStatement_writes (ht : [.locks, .webhookDeliveries] ⊆ tables) {name : String} :
    Sql.Writes (Own auth.agentId auth.teamId tables) P (releaseLockStatement auth name) fun _ _ => True := by
  intro pg hv _ b seqs ws hs
  have hteam : ∀ l, ownLock auth name l = true → l.teamId = auth.teamId := by
    intro l h
    simp only [ownLock, Bool.and_eq_true, beq_iff_eq] at h
    exact h.1.1
  simp only [releaseLockStatement, Except.ok.injEq, Prod.mk.injEq] at hs
  obtain ⟨-, rfl, rfl⟩ := hs
  have hw : ((Write.deleteLocks (ownLock auth name)).apply pg.db).webhooks = pg.db.webhooks := rfl
  have hf : Fires auth.agentId auth.teamId tables pg.now _ pg.seqs
      (lockDeletedTriggers pg (pg.db.locks.filter (ownLock auth name)) pg.seqs) :=
    fires_releases (ht (by simp)) _ (fun l hl => hteam l (List.mem_filter.1 hl).2) hw hv.keys.deliveriesBelow
  exact ⟨hf.before, ⟨trivial, ⟨hteam, singleton_subset (ht (by simp))⟩, hf.trail _ _ ⟨le_rfl, le_rfl, le_rfl, le_rfl, le_rfl⟩ (.refl _)⟩, trivial⟩

theorem acquireLock_writes (ht : [.locks, .webhookDeliveries] ⊆ tables) {name : String} {ttl : Option Int}
    {purpose : Option String} :
    Bus.Writes (Own auth.agentId auth.teamId tables) P (acquireLock auth name ttl purpose) fun _ _ => True :=
  .reads .check fun _ => (Bus.Writes.execute (acquireStatement_writes ht)).bind fun _ =>
    .reads .select fun _ => .of_readOnly .pure

theorem releaseLock_writes (ht : [.locks, .webhookDeliveries] ⊆ tables) {name : String} :
    Bus.Writes (Own auth.agentId auth.teamId tables) P (releaseLock auth name) fun _ _ => True := by
  refine .reads .check fun name => (Bus.Writes.execute (releaseLockStatement_writes ht)).bind fun n => ?_
  refine .of_readOnly (.ite .pure (.bind .select fun current => ?_))
  cases current with
  | none => exact .pure
  | some c => exact .ite .throw .throw

end

theorem listLocks_readOnly : ReadOnly (listLocks auth) := .select

/-! ### Notes -/

theorem insertNoteRevision_writes {agent team note : Uuid} {value : String} (auth : AuthCtx)
    (hagent : auth.agentId = agent) (ht : .noteRevisions ∈ tables) :
    Sql.Writes (Own agent team tables) (fun db => Caller agent team db ∧ db.noteIn note team)
      (insertNoteRevision auth note value) fun _ _ => True := by
  intro pg hv hP b seqs ws hs
  simp only [insertNoteRevision] at hs
  split at hs
  · simp only [Except.ok.injEq, Prod.mk.injEq] at hs
    obtain ⟨-, rfl, rfl⟩ := hs
    refine ⟨⟨le_rfl, le_rfl, by simp only; omega, le_rfl, le_rfl⟩, ⟨⟨⟨team, hP.2, ?_⟩, ?_, le_rfl⟩, ?_, trivial⟩,
      trivial⟩
    · rintro a ha
      obtain rfl := Option.some.inj ha
      exact hagent ▸ hP.1
    · exact fun r hr => Int.lt_add_one_of_le (hv.keys.noteRevisionsBelow r hr)
    · exact ⟨⟨hP.2, congrArg some hagent⟩, singleton_subset ht⟩
  · exact absurd hs (by simp)

theorem getNote_readOnly [Platform] {scope : Option String} {key : String} : ReadOnly (getNote auth scope key) :=
  .bind .select fun _ => .pure

theorem listNotes_readOnly [Platform] {scope tag : Option String} {limit : Int} :
    ReadOnly (listNotes auth scope tag limit) := .select

theorem searchNotes_readOnly [Platform] {query : String} {scope : Option String} {limit : Int} :
    ReadOnly (searchNotes auth query scope limit) :=
  .ite (.bind .throw fun _ => .select) .select

section
variable [Platform]

theorem upsertNote_ok {scope key value : String} {tags : List String} {pg : Pg} {b : Uuid} {seqs : Seqs}
    {ws : List Write} (hs : upsertNote auth scope key value tags pg = .ok (b, seqs, ws)) :
    ∃ n fired uuids, n = newNote auth b pg.now scope key value tags ∧ pg.db.noteOk n ∧
      ((∃ old ∈ pg.db.findNote auth.teamId scope key, old.id = b) ∨
        (pg.db.findNote auth.teamId scope key = none ∧ ∀ r ∈ pg.db.notes, r.id ≠ b)) ∧
      (seqs, fired) = enqueueNoteWebhook pg n { pg.seqs with uuids } ∧
      ws = .putNote n :: fired ++ [.notify (notifyNote n)] := by
  simp only [upsertNote] at hs
  split at hs
  · next hok =>
    obtain ⟨hok, hfresh⟩ := Bool.and_eq_true_iff.1 hok
    simp only [Except.ok.injEq, Prod.mk.injEq] at hs
    obtain ⟨rfl, rfl, rfl⟩ := hs
    refine ⟨_, _, _, rfl, hok, ?_, rfl, rfl⟩
    cases hold : pg.db.findNote auth.teamId scope key with
    | some old => exact .inl ⟨old, rfl, rfl⟩
    | none =>
      refine .inr ⟨rfl, fun r hr => ?_⟩
      simp only [hold, Option.isSome_none, Bool.false_or, Bool.not_eq_true', List.any_eq_false,
        beq_iff_eq] at hfresh
      exact hfresh r hr
  · exact absurd hs (by simp)

omit [Platform] in
/-- The note that is set has the id of the one that has its key, if there is one. -/
theorem upsertNote_id_iff {pg : Pg} (hv : pg.Valid) {scope key value : String} {tags : List String} {n : Note} {b : Uuid}
    {now : Time} (hn : n = newNote auth b now scope key value tags)
    (hid : (∃ old ∈ pg.db.findNote auth.teamId scope key, old.id = b) ∨
      (pg.db.findNote auth.teamId scope key = none ∧ ∀ r ∈ pg.db.notes, r.id ≠ b)) :
    ∀ r ∈ pg.db.notes, r.id = n.id ↔ Db.noteKey r = Db.noteKey n := by
  have hnid : n.id = b := hn ▸ rfl
  have hkey : Db.noteKey n = (auth.teamId, scope, key) := hn ▸ rfl
  intro r hr
  rcases hid with ⟨old, hold, hob⟩ | ⟨hnone, hfresh⟩
  · have hmem := List.mem_of_find?_eq_some hold
    have hold := List.find?_some hold
    simp only [Bool.and_eq_true, beq_iff_eq] at hold
    have hok : Db.noteKey old = Db.noteKey n := by
      rw [hkey, Db.noteKey, hold.1.1, hold.1.2, hold.2]
    rw [hnid, ← hob, ← hok]
    exact hv.keys.notes.iff hv.keys.noteKeys hr hmem
  · refine ⟨fun h => absurd (h.trans hnid) (hfresh r hr), fun h => ?_⟩
    rw [hkey] at h
    simp only [Db.noteKey, Prod.mk.injEq] at h
    have := List.find?_eq_none.1 hnone r hr
    simp [h] at this

theorem upsertNote_writes (ht : [.notes, .webhookDeliveries] ⊆ tables) {scope key value : String}
    {tags : List String} :
    Sql.Writes (Own auth.agentId auth.teamId tables) P (upsertNote auth scope key value tags)
      fun id db => db.noteIn id auth.teamId := by
  intro pg hv _ b seqs ws hs
  obtain ⟨n, fired, uuids, hn, hok, hid, hfired, rfl⟩ := upsertNote_ok hs
  have hteam : n.teamId = auth.teamId := hn ▸ rfl
  have hnid : n.id = b := hn ▸ rfl
  have hiff := upsertNote_id_iff hv hn hid
  have hw : ((Write.putNote n).apply pg.db).webhooks = pg.db.webhooks := rfl
  have hd : Rows.Below (·.id) { pg.seqs with uuids := uuids }.deliveries
    ((Write.putNote n).apply pg.db).deliveries := hv.keys.deliveriesBelow
  have hf : Fires auth.agentId auth.teamId tables pg.now ((Write.putNote n).apply pg.db) { pg.seqs with uuids }
      (seqs, fired) := by
    rw [hfired]
    exact fires_note (ht (by simp)) hw hd hteam
  have hf := hf.notify (notifyNote n)
  refine ⟨⟨hf.before.1, hf.before.2, hf.before.3, hf.before.4, hf.before.5⟩,
    ⟨⟨hok, hiff⟩, ⟨⟨hteam, hn ▸ rfl⟩, singleton_subset (ht (by simp))⟩, hf.trail _ _ ⟨le_rfl, le_rfl, le_rfl, le_rfl, le_rfl⟩ (.refl _)⟩, ?_⟩
  obtain ⟨ds, ns, e⟩ := hf.others
  rw [List.cons_append, Db.write_cons, e]
  exact List.any_eq_true.2 ⟨n, Rows.mem_put.2 (.inl rfl), by simp [hteam, hnid]⟩

theorem setNote_writes (ht : [.notes, .noteRevisions, .webhookDeliveries] ⊆ tables) {input : SetInput} :
    Bus.Writes (Own auth.agentId auth.teamId tables) (Caller auth.agentId auth.teamId) (setNote auth input)
      fun _ _ => True := by
  have upsert : ∀ scope key value tags, Sql.Writes (Own auth.agentId auth.teamId tables)
      (Caller auth.agentId auth.teamId) (upsertNote auth scope key value tags)
      fun id db => Caller auth.agentId auth.teamId db ∧ db.noteIn id auth.teamId :=
    fun _ _ _ _ => (upsertNote_writes (by simp_all)).caller fun _ h => h
  unfold setNote
  refine .ite (fun _ => .throw_bind) fun _ => .ite (fun _ => .throw_bind) fun _ => ?_
  refine .ite (fun _ => .throw_bind) fun _ => .reads .check fun _ => ?_
  refine (Bus.Writes.execute (upsert _ _ _ _)).bind fun id => ?_
  refine (Bus.Writes.execute (insertNoteRevision_writes auth rfl (by simp_all))).bind fun _ => ?_
  refine .of_readOnly (.bind getNote_readOnly fun r => ?_)
  cases r.note with
  | some n => exact .pure
  | none => exact .throw

omit [Platform] in
theorem deleteNoteStatement_writes (ht : [.notes, .noteRevisions] ⊆ tables) {scope key : String} :
    Sql.Writes (Own auth.agentId auth.teamId tables) P (deleteNoteStatement auth scope key) fun _ _ => True := by
  intro pg _ _ b seqs ws hs
  simp only [deleteNoteStatement, Except.ok.injEq, Prod.mk.injEq] at hs
  obtain ⟨-, rfl, rfl⟩ := hs
  refine ⟨.refl _, ⟨trivial, ⟨fun n hn => ?_, ht⟩, trivial⟩, trivial⟩
  simp only [noteAt, Bool.and_eq_true, beq_iff_eq] at hn
  exact hn.1.1

theorem deleteNote_writes (ht : [.notes, .noteRevisions] ⊆ tables) {scope : Option String} {key : String} :
    Bus.Writes (Own auth.agentId auth.teamId tables) P (deleteNote auth scope key) fun _ _ => True :=
  (Bus.Writes.execute (deleteNoteStatement_writes ht)).bind fun _ => .of_readOnly (.ite .pure .pure)

/-! ### Presence -/

omit [Platform] in
theorem upsertPresence_writes (ht : .agentPresence ∈ tables) {status : String}
    {repo branch activity : Option String} {ttl : Int} :
    Sql.Writes (Own auth.agentId auth.teamId tables) P (upsertPresence auth status repo branch activity ttl)
      fun _ _ => True := by
  intro pg _ _ b seqs ws hs
  simp only [upsertPresence] at hs
  split at hs
  · exact absurd hs (by simp)
  · next a ha =>
    simp only [Except.ok.injEq, Prod.mk.injEq] at hs
    obtain ⟨-, rfl, rfl⟩ := hs
    have hexists : pg.db.agentExists auth.agentId :=
      List.any_eq_true.2 ⟨a, List.mem_of_find?_eq_some ha, by simpa using List.find?_some ha⟩
    exact ⟨.refl _, ⟨hexists, ⟨rfl, singleton_subset ht⟩, trivial⟩, trivial⟩

theorem heartbeat_writes (ht : .agentPresence ∈ tables) {input : HeartbeatInput} :
    Bus.Writes (Own auth.agentId auth.teamId tables) P (heartbeat auth input) fun _ _ => True :=
  .ite (fun _ => .throw_bind) fun _ => .reads .check fun _ => .reads .check fun _ => .reads .check fun _ =>
    .execute (upsertPresence_writes ht)

omit [Platform] in
theorem listAgents_readOnly {onlineOnly : Bool} : ReadOnly (listAgents auth onlineOnly) := .select

theorem teamDigest_readOnly {hours : Int} {allChannels : Bool} : ReadOnly (teamDigest auth hours allChannels) :=
  .bind (.ite .pure (.map (.ite .pure .select) _)) fun _ => .bind .select fun _ => .bind .select fun _ =>
    .bind .select fun _ => .bind .select fun _ => .bind .select fun _ => .bind .select fun _ => .pure

/-- The parts of a digest, in the focus of the caller. -/
theorem teamDigest_exec (auth : AuthCtx) (hours : Int) (allChannels : Bool) (pg : Pg) :
    ∃ focus r, (focusOf auth allChannels).exec pg = (.ok focus, pg) ∧ (teamDigest auth hours allChannels).exec pg = (.ok r, pg) ∧
      r.channels = pg.db.channelActivity auth.teamId (pg.now - secs (3600 * clamp hours 1 (24 * 14))) focus ∧
      r.agentsSeen = pg.db.agentsSeen auth.teamId pg.now ∧
      r.activeLocks = (pg.db.activeLocks auth.teamId pg.now).filterMap pg.db.lockInfo? := by
  have hfocus : ∃ focus, (focusOf auth allChannels).exec pg = (.ok focus, pg) := by
    unfold focusOf defaultChannel
    split
    · exact ⟨_, rfl⟩
    · split
      · exact ⟨_, rfl⟩
      · exact ⟨_, rfl⟩
  obtain ⟨focus, hfocus⟩ := hfocus
  unfold teamDigest
  rw [Bus.exec_bind_ok hfocus]
  exact ⟨focus, _, hfocus, rfl, rfl, rfl, rfl⟩

end

end CrewSync
