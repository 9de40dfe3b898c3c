import CrewSync.Calls
import CrewSync.Footprint.Admin
import CrewSync.Footprint.Shared
import CrewSync.Footprint.Tasks

/-! What every event writes, and the constraints as an invariant of every run. -/

namespace CrewSync
variable [Platform]

/-- The writes of a tool call name the caller, and stay on the tables of the call. -/
theorem Call.run_writes (auth : AuthCtx) (pid : Nat) (c : Call) :
    Bus.Writes (Own auth.agentId auth.teamId c.writes) (Caller auth.agentId auth.teamId) (c.run auth pid)
      fun _ _ => True := by
  cases c with
  | whoami => exact (Bus.Writes.of_readOnly whoami_readOnly).map
  | teamDigest hours allChannels => exact (Bus.Writes.of_readOnly teamDigest_readOnly).map
  | heartbeat input => exact (heartbeat_writes (by simp [Call.writes])).map
  | listAgents onlineOnly => exact (Bus.Writes.of_readOnly listAgents_readOnly).map
  | listChannels => exact (Bus.Writes.of_readOnly .select).map
  | createChannel name topic => exact (createChannel_writes (by simp [Call.writes])).map
  | postMessage input => exact (postMessage_writes (List.Subset.refl _)).map
  | readMessages input => exact (readMessages_writes (by simp [Call.writes])).map
  | searchMessages query limit => exact (Bus.Writes.of_readOnly searchMessages_readOnly).map
  | askAgent input received => exact (askAgent_writes (List.Subset.refl _)).map
  | waitForUpdates input received grace => exact (Bus.Writes.of_readOnly waitForUpdates_readOnly).map
  | attachToTask key att => exact (attachToTask_writes (by simp [Call.writes])).map
  | attachToMessage id att => exact (attachToMessage_writes (by simp [Call.writes])).map
  | getAttachment id => exact (Bus.Writes.of_readOnly getAttachment_readOnly).map
  | createTask input => exact (createTask_writes (List.Subset.refl _) input).map
  | listTasks status mineOnly limit => exact (Bus.Writes.of_readOnly listTasks_readOnly).map
  | getTask key => exact (Bus.Writes.of_readOnly getTask_readOnly).map
  | claimTask key lease => exact (claimTask_writes (List.Subset.refl _) key lease).map
  | claimNextTask lease => exact (claimNextTask_writes (List.Subset.refl _) lease).map
  | renewTaskLease key lease => exact (renewLease_writes (by simp [Call.writes]) key lease).map
  | releaseTask key => exact (releaseTask_writes (List.Subset.refl _) key).map
  | completeTask key result => exact (completeTask_writes (List.Subset.refl _) key result).map
  | setNote input => exact (setNote_writes (List.Subset.refl _)).map
  | getNote scope key => exact (Bus.Writes.of_readOnly getNote_readOnly).map
  | listNotes scope tag limit => exact (Bus.Writes.of_readOnly listNotes_readOnly).map
  | searchNotes query scope limit => exact (Bus.Writes.of_readOnly searchNotes_readOnly).map
  | deleteNote scope key => exact (deleteNote_writes (List.Subset.refl _)).map
  | acquireLock name ttl purpose => exact (acquireLock_writes (List.Subset.refl _)).map
  | releaseLock name => exact (releaseLock_writes (List.Subset.refl _)).map
  | listLocks => exact (Bus.Writes.of_readOnly listLocks_readOnly).map

/-- The tables that a command may write. -/
def Command.writes : Command → List Table
  | .teamCreate .. | .teamQuota .. => [.teams]
  | .teamPrune .. => [.messages, .attachments, .noteRevisions, .taskEvents]
  | .agentAdd .. | .agentDisable .. => [.agents]
  | .webhookAdd .. => [.webhooks]
  | .webhookRemove _ => [.webhooks, .webhookDeliveries]

omit [Platform] in
theorem Prunes.tables {team : Uuid} {now : Time} {db : Db} {w : Write} (h : Prunes team now db w) :
    w.tables ⊆ [.messages, .attachments, .noteRevisions, .taskEvents] := by
  cases w <;> first | exact h.elim | simp [Write.tables]

theorem Command.run_writes (pid : Nat) (c : Command) :
    Bus.Writes (OnTables c.writes) (fun _ => True) (c.run pid) fun _ _ => True := by
  cases c with
  | teamCreate slug name => exact teamCreate_writes (by simp [Command.writes])
  | teamQuota team bytes => exact teamQuota_writes (by simp [Command.writes])
  | teamPrune team days apply =>
    have prunes : ∀ id, Bus.Writes (OnTables (Command.teamPrune team days apply).writes) (fun _ => True)
        (prune pid id days (!apply)) fun _ _ => True := fun id pg hv hP =>
      ⟨(prune_writes (P := fun _ => True) pg hv hP).1.imp fun _ _ _ h => h.tables, fun _ _ => trivial⟩
    exact (Bus.Writes.reads teamId_readOnly prunes).map
  | agentAdd team name displayName => exact agentAdd_writes (by simp [Command.writes])
  | agentDisable team name => exact agentDisable_writes (by simp [Command.writes])
  | webhookAdd team url kind events channel => exact webhookAdd_writes (by simp [Command.writes])
  | webhookRemove id => exact webhookRemove_writes (List.Subset.refl _)

omit [Platform] in
theorem Sql.Writes.effect {β : Type} {ok : Time → Db → Write → Prop} {s : Sql β}
    (h : Sql.Writes ok (fun _ => True) s fun _ _ => True) {pg : Pg} (hv : pg.Valid) : Wrote ok pg (s.effect pg) := by
  simp only [Sql.effect]
  cases hs : s pg with
  | error e => exact .refl ok pg
  | ok r =>
    obtain ⟨b, seqs, ws⟩ := r
    obtain ⟨hb, ht, -⟩ := h pg hv trivial b seqs ws hs
    exact ⟨ws, rfl, hb, rfl, ht⟩

omit [Platform] in
theorem AuthCtx.authentic.caller {auth : AuthCtx} {db : Db} (h : auth.authentic db) :
    Caller auth.agentId auth.teamId db := by
  obtain ⟨a, ha, h⟩ := List.any_eq_true.1 (Bool.and_eq_true_iff.1 h).1
  simp only [Bool.and_eq_true, beq_iff_eq] at h
  exact List.any_eq_true.2 ⟨a, ha, by simp [h.1.1]⟩

/-- The tables that an event may write. -/
def Event.writes : Event → List Table
  | .call _ _ c => c.writes
  | .command _ c => c.writes
  | .claim _ | .record .. | .prune => [.webhookDeliveries]
  | .tick _ => []

namespace Pg

/-- What an authenticated call does to the tables. -/
theorem call_wrote {pg : Pg} (hv : pg.Valid) (auth : AuthCtx) (pid : Nat) (c : Call) :
    Wrote (Own auth.agentId auth.teamId c.writes) pg (pg.call auth pid c).2 := by
  unfold call
  split
  · next h => exact (Call.run_writes auth pid c pg hv (AuthCtx.authentic.caller h)).1
  · exact .refl _ pg

omit [Platform] in
theorem Valid.tick {pg : Pg} (h : pg.Valid) (now : Time) : ({ pg with now } : Pg).Valid := ⟨h.keys, h.refs⟩

/-- What every write to the tables of an event does to a database with the constraints, the event does. -/
theorem next_lift {pg : Pg} (hv : pg.Valid) (e : Event) {R : Db → Db → Prop} (hrefl : ∀ db, R db db)
    (htrans : ∀ {a b c}, R a b → R b c → R a c)
    (hstep : ∀ seqs db w, db.Keys seqs → db.Refs → w.Legal pg.seqs seqs db → w.tables ⊆ e.writes →
      R db (Write.apply db w)) : R pg.db (pg.next e).db := by
  have ht : Table.webhookDeliveries ∈ [Table.webhookDeliveries] := List.mem_singleton_self _
  cases e with
  | call auth pid c =>
    exact (call_wrote hv auth pid c).lift hv hrefl htrans fun seqs db w hk hr hw h => hstep seqs db w hk hr hw h.tables
  | command pid c => exact (Command.run_writes pid c pg hv trivial).1.lift hv hrefl htrans hstep
  | claim locked => exact ((Webhooks.claim_writes ht).effect hv).lift hv hrefl htrans hstep
  | record d r => exact ((Webhooks.record_writes ht).effect hv).lift hv hrefl htrans hstep
  | prune => exact ((Webhooks.prune_writes ht).effect hv).lift hv hrefl htrans hstep
  | tick d => exact hrefl _

/-- What no write to the tables of an event changes, the event does not change. -/
theorem next_frame {β : Type} {pg : Pg} (hv : pg.Valid) (e : Event) (f : Db → β)
    (hf : ∀ db w, w.tables ⊆ e.writes → f (Write.apply db w) = f db) : f (pg.next e).db = f pg.db :=
  next_lift (R := fun a b => f b = f a) hv e (fun _ => rfl) (fun h h' => h'.trans h) fun _ db w _ _ _ h => hf db w h

theorem next_before {pg : Pg} (hv : pg.Valid) (e : Event) : pg.seqs.Before (pg.next e).seqs := by
  have ht : Table.webhookDeliveries ∈ [Table.webhookDeliveries] := List.mem_singleton_self _
  cases e with
  | call auth pid c => exact (call_wrote hv auth pid c).before
  | command pid c => exact (Command.run_writes pid c pg hv trivial).1.before
  | claim locked => exact ((Webhooks.claim_writes ht).effect hv).before
  | record d r => exact ((Webhooks.record_writes ht).effect hv).before
  | prune => exact ((Webhooks.prune_writes ht).effect hv).before
  | tick d => exact .refl _

/-- The clock does not run backwards. -/
theorem now_le_next {pg : Pg} (hv : pg.Valid) (e : Event) : pg.now ≤ (pg.next e).now := by
  have ht : Table.webhookDeliveries ∈ [Table.webhookDeliveries] := List.mem_singleton_self _
  cases e with
  | call auth pid c => exact (call_wrote hv auth pid c).now.ge
  | command pid c => exact (Command.run_writes pid c pg hv trivial).1.now.ge
  | claim locked => exact ((Webhooks.claim_writes ht).effect hv).now.ge
  | record d r => exact ((Webhooks.record_writes ht).effect hv).now.ge
  | prune => exact ((Webhooks.prune_writes ht).effect hv).now.ge
  | tick d => exact Int.le_add_of_nonneg_right (Int.natCast_nonneg d)

/-- Every event keeps the constraints of the schema. -/
theorem Valid.next {pg : Pg} (h : pg.Valid) (e : Event) : (pg.next e).Valid := by
  have ht : Table.webhookDeliveries ∈ [Table.webhookDeliveries] := List.mem_singleton_self _
  cases e with
  | call auth pid c => exact (call_wrote h auth pid c).valid h
  | command pid c => exact (Command.run_writes pid c pg h trivial).1.valid h
  | claim locked => exact ((Webhooks.claim_writes ht).effect h).valid h
  | record d r => exact ((Webhooks.record_writes ht).effect h).valid h
  | prune => exact ((Webhooks.prune_writes ht).effect h).valid h
  | tick d => exact h.tick _

omit [Platform] in
theorem Valid.init (now : Time) : (Pg.init now).Valid where
  keys := by constructor <;> simp [Pg.init, Db.empty, Rows.Below]
  refs := by constructor <;> simp [Pg.init, Db.empty]

/-- The constraints hold in every reachable state. -/
theorem Reachable.valid {pg : Pg} (h : Reachable pg) : pg.Valid := by
  induction h with
  | init now => exact .init now
  | next _ e ih => exact ih.next e

theorem Valid.after {pg : Pg} (h : pg.Valid) (es : List Event) : (pg.after es).Valid :=
  Runs.invariant (fun _ e h => h.next e) h es

/-- Every run from the empty database stays reachable. -/
theorem Reachable.after {pg : Pg} (h : Reachable pg) (es : List Event) : Reachable (pg.after es) :=
  Runs.invariant (fun _ e h => .next h e) h es

end Pg

end CrewSync
