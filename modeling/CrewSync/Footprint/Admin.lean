import CrewSync.Footprint.Messaging
import CrewSync.Admin
import CrewSync.Webhooks

/-! What the operator commands, a prune and the webhook dispatcher write. -/

namespace CrewSync
open Bus (ReadOnly)
variable {P : Db → Prop}

/-- Some tables only. -/
def OnTables (tables : List Table) (_ : Time) (_ : Db) (w : Write) : Prop := w.tables ⊆ tables

/-- A write that a prune for `team` makes: it deletes rows of the team. -/
def Prunes (team : Uuid) (_ : Time) (db : Db) : Write → Prop
  | .deleteMessages p => ∀ m, p m = true → m.teamId = team
  | .deleteTaskEvents p => ∀ e ∈ db.taskEvents, p e = true → db.taskIn e.taskId team
  | .deleteNoteRevisions p => ∀ r ∈ db.noteRevisions, p r = true → db.noteIn r.noteId team
  | _ => False

/-! ### Prune -/

section
variable {team : Uuid} {days : Int}

theorem pruneRevisions_writes : Sql.Writes (Prunes team) P (pruneRevisions team days) fun _ _ => True := by
  intro pg _ _ b seqs ws hs
  simp only [pruneRevisions] at hs
  cases hc : cutoff pg.now days with
  | error e => simp [hc, bind, Except.bind] at hs
  | ok before =>
    simp only [hc, bind, Except.bind, pure, Except.pure, Except.ok.injEq, Prod.mk.injEq] at hs
    obtain ⟨-, rfl, rfl⟩ := hs
    refine ⟨.refl _, ⟨trivial, fun r _ hr => ?_, trivial⟩, trivial⟩
    obtain ⟨n, hn, h⟩ := List.any_eq_true.1 (Bool.and_eq_true_iff.1 hr).1
    simp only [Bool.and_eq_true, beq_iff_eq] at h
    exact List.any_eq_true.2 ⟨n, hn, by simp [h]⟩

theorem pruneTaskEvents_writes : Sql.Writes (Prunes team) P (pruneTaskEvents team days) fun _ _ => True := by
  intro pg _ _ b seqs ws hs
  simp only [pruneTaskEvents] at hs
  cases hc : cutoff pg.now days with
  | error e => simp [hc, bind, Except.bind] at hs
  | ok before =>
    simp only [hc, bind, Except.bind, pure, Except.pure, Except.ok.injEq, Prod.mk.injEq] at hs
    obtain ⟨-, rfl, rfl⟩ := hs
    refine ⟨.refl _, ⟨trivial, fun e _ he => ?_, trivial⟩, trivial⟩
    obtain ⟨t, ht, h⟩ := List.any_eq_true.1 (Bool.and_eq_true_iff.1 he).1
    simp only [Bool.and_eq_true, beq_iff_eq] at h
    exact List.any_eq_true.2 ⟨t, ht, by simp [h]⟩

theorem pruneMessages_writes : Sql.Writes (Prunes team) P (pruneMessages team days) fun _ _ => True := by
  intro pg _ _ b seqs ws hs
  simp only [pruneMessages] at hs
  cases hc : cutoff pg.now days with
  | error e => simp [hc, bind, Except.bind] at hs
  | ok before =>
    simp only [hc, bind, Except.bind, pure, Except.pure, Except.ok.injEq, Prod.mk.injEq] at hs
    obtain ⟨-, rfl, rfl⟩ := hs
    refine ⟨.refl _, ⟨trivial, fun m hm => ?_, trivial⟩, trivial⟩
    exact beq_iff_eq.1 (Bool.and_eq_true_iff.1 hm).1

theorem pruneBody_inTx {dryRun : Bool} {c : Conn} :
    Bus.InTx (Prunes team) P c (pruneBody team days dryRun c) (·.2) fun _ _ => True :=
  .reads Conn.readOnly_select fun _ => .reads .check fun _ =>
    (Bus.InTx.execute pruneRevisions_writes).bind fun _ =>
      (Bus.InTx.execute pruneTaskEvents_writes).bind fun _ =>
        (Bus.InTx.execute pruneMessages_writes).bind fun _ => .pure rfl fun _ h => h

theorem prune_writes {pid : Nat} {dryRun : Bool} :
    Bus.Writes (Prunes team) P (prune pid team days dryRun) fun _ _ => True := by
  refine .ite (fun _ => .throw_bind) fun _ => .ite (fun _ => .throw_bind) fun _ => ?_
  intro pg hv hP
  refine ⟨?_, fun _ _ => trivial⟩
  have hbody : ∀ c, c.pid = pid → Bus.InTx (Prunes team) P c (pruneBody team days dryRun c) (·.2) fun _ _ => True :=
    fun _ _ => pruneBody_inTx
  obtain ⟨hrollback, hcommit⟩ := Bus.InTx.wrote hbody pg hv hP
  have hbegin : (Conn.begin pid).exec pg = (.ok ⟨pid, some ⟨pg.now, []⟩⟩, pg) := rfl
  rw [Bus.exec_bind_ok hbegin, Bus.exec_bind_ok (Bus.exec_attempt _)]
  cases hr : ((pruneBody team days dryRun ⟨pid, some ⟨pg.now, []⟩⟩).exec pg).1 with
  | error e => exact hrollback _
  | ok r =>
    cases dryRun with
    | true => exact hrollback r.2
    | false => exact hcommit r.1 r.2 hr

end

/-! ### Operator commands -/

section
variable [Platform] {tables : List Table}

omit [Platform] in
theorem teamId_readOnly {slug : String} : ReadOnly (Admin.teamId slug) :=
  .bind .select fun r => by cases r <;> simp

theorem insertTeam_writes (ht : .teams ∈ tables) {slug name : String} :
    Sql.Writes (OnTables tables) P (Admin.insertTeam slug name) fun _ _ => True := by
  intro pg _ _ b seqs ws hs
  simp only [Admin.insertTeam] at hs
  split at hs
  · simp only [Except.ok.injEq, Prod.mk.injEq] at hs
    obtain ⟨-, rfl, rfl⟩ := hs
    exact ⟨.refl _, trivial, trivial⟩
  · split at hs
    · exact absurd hs (by simp)
    · simp only [Except.ok.injEq, Prod.mk.injEq] at hs
      obtain ⟨-, rfl, rfl⟩ := hs
      exact ⟨⟨le_rfl, le_rfl, le_rfl, le_rfl, le_rfl⟩, ⟨trivial, singleton_subset ht, trivial⟩, trivial⟩

omit [Platform] in
theorem setQuota_writes (ht : .teams ∈ tables) {team : Uuid} {bytes : Option Int} :
    Sql.Writes (OnTables tables) P (Admin.setQuota team bytes) fun _ _ => True := by
  intro pg _ _ b seqs ws hs
  simp only [Admin.setQuota, Except.ok.injEq, Prod.mk.injEq] at hs
  obtain ⟨-, rfl, rfl⟩ := hs
  refine ⟨.refl _, ?_, trivial⟩
  cases pg.db.findTeam team with
  | none => exact trivial
  | some t => exact ⟨trivial, singleton_subset ht, trivial⟩

omit [Platform] in
/-- A row of `agents` that changes in other columns than its keys. -/
theorem putAgent_legal {pg : Pg} (hv : pg.Valid) {a r : Agent} (ha : a ∈ pg.db.agents) (hid : r.id = a.id)
    (hkey : Db.agentKey r = Db.agentKey a) : (Write.putAgent r).Legal pg.seqs pg.seqs pg.db := by
  have hteam : r.teamId = a.teamId := congrArg Prod.fst hkey
  refine ⟨hteam ▸ hv.refs.agents a ha, fun b hb => ?_⟩
  rw [hid, hkey]
  exact hv.keys.agents.iff hv.keys.agentNames hb ha

theorem upsertAgent_writes (ht : .agents ∈ tables) {team : Uuid} {name : String} {displayName : Option String} :
    Sql.Writes (OnTables tables) P (Admin.upsertAgent team name displayName) fun _ _ => True := by
  intro pg hv _ b seqs ws hs
  simp only [Admin.upsertAgent] at hs
  split at hs
  · next a ha =>
    simp only [Except.ok.injEq, Prod.mk.injEq] at hs
    obtain ⟨-, rfl, rfl⟩ := hs
    exact ⟨.refl _, ⟨putAgent_legal hv (List.mem_of_find?_eq_some ha) rfl rfl, singleton_subset ht, trivial⟩, trivial⟩
  · next hnone =>
    split at hs
    · next hok =>
      obtain ⟨hteam, hfresh⟩ := Bool.and_eq_true_iff.1 hok
      simp only [Except.ok.injEq, Prod.mk.injEq] at hs
      obtain ⟨-, rfl, rfl⟩ := hs
      refine ⟨⟨le_rfl, le_rfl, le_rfl, le_rfl, le_rfl⟩,
        ⟨⟨hteam, fun d hd => ⟨fun h => ?_, fun h => ?_⟩⟩, singleton_subset ht, trivial⟩, trivial⟩
      · rw [Bool.not_eq_true', Db.agentExists, List.any_eq_false] at hfresh
        exact absurd h (by simpa using hfresh d hd)
      · have := List.find?_eq_none.1 hnone d hd
        simp only [Db.agentKey, Prod.mk.injEq] at h
        simp [h] at this
    · exact absurd hs (by simp)

omit [Platform] in
theorem disable_writes (ht : .agents ∈ tables) {team : Uuid} {name : String} :
    Sql.Writes (OnTables tables) P (Admin.disable team name) fun _ _ => True := by
  intro pg hv _ b seqs ws hs
  simp only [Admin.disable] at hs
  split at hs
  · next a ha =>
    simp only [Except.ok.injEq, Prod.mk.injEq] at hs
    obtain ⟨-, rfl, rfl⟩ := hs
    exact ⟨.refl _, ⟨putAgent_legal hv (List.mem_of_find?_eq_some ha) rfl rfl, singleton_subset ht, trivial⟩, trivial⟩
  · simp only [Except.ok.injEq, Prod.mk.injEq] at hs
    obtain ⟨-, rfl, rfl⟩ := hs
    exact ⟨.refl _, trivial, trivial⟩

theorem insertWebhook_writes (ht : .webhooks ∈ tables) {team : Uuid} {url kind : String}
    {events : List EventKind} {channel : Option String} :
    Sql.Writes (OnTables tables) P (Admin.insertWebhook team url kind events channel) fun _ _ => True := by
  intro pg _ _ b seqs ws hs
  simp only [Admin.insertWebhook] at hs
  split at hs
  · next hok =>
    obtain ⟨hteam, hfresh⟩ := Bool.and_eq_true_iff.1 hok
    simp only [Except.ok.injEq, Prod.mk.injEq] at hs
    obtain ⟨-, rfl, rfl⟩ := hs
    refine ⟨⟨le_rfl, le_rfl, le_rfl, le_rfl, le_rfl⟩, ⟨⟨hteam, fun w hw => ?_⟩, singleton_subset ht, trivial⟩,
      trivial⟩
    rw [Bool.not_eq_true', List.any_eq_false] at hfresh
    simpa using hfresh w hw
  · exact absurd hs (by simp)

omit [Platform] in
theorem removeWebhook_writes (ht : [.webhooks, .webhookDeliveries] ⊆ tables) {id : Uuid} :
    Sql.Writes (OnTables tables) P (Admin.removeWebhook id) fun _ _ => True := by
  intro pg _ _ b seqs ws hs
  simp only [Admin.removeWebhook, Except.ok.injEq, Prod.mk.injEq] at hs
  obtain ⟨-, rfl, rfl⟩ := hs
  exact ⟨.refl _, ⟨trivial, ht, trivial⟩, trivial⟩

theorem teamCreate_writes (ht : .teams ∈ tables) {slug : String} {name : Option String} :
    Bus.Writes (OnTables tables) P (Admin.teamCreate slug name) fun _ _ => True :=
  .ite (fun _ => .throw_bind) fun _ => .execute (insertTeam_writes ht)

omit [Platform] in
theorem teamQuota_writes (ht : .teams ∈ tables) {team : String} {bytes : Option Int} :
    Bus.Writes (OnTables tables) P (Admin.teamQuota team bytes) fun _ _ => True :=
  .reads teamId_readOnly fun _ => .ite (fun _ => .throw_bind) fun _ => .execute (setQuota_writes ht)

theorem agentAdd_writes (ht : .agents ∈ tables) {team name : String} {displayName : Option String} :
    Bus.Writes (OnTables tables) P (Admin.agentAdd team name displayName) fun _ _ => True :=
  .reads teamId_readOnly fun _ => .ite (fun _ => .throw_bind) fun _ => .execute (upsertAgent_writes ht)

omit [Platform] in
theorem agentDisable_writes (ht : .agents ∈ tables) {team name : String} :
    Bus.Writes (OnTables tables) P (Admin.agentDisable team name) fun _ _ => True :=
  .reads teamId_readOnly fun _ => (Bus.Writes.execute (disable_writes ht)).bind fun _ =>
    .of_readOnly (.ite .throw .pure)

theorem webhookAdd_writes (ht : .webhooks ∈ tables) {team url kind events : String} {channel : Option String} :
    Bus.Writes (OnTables tables) P (Admin.webhookAdd team url kind events channel) fun _ _ => True :=
  .ite (fun _ => .throw_bind) fun _ => .reads .check fun _ => .ite (fun _ => .throw_bind) fun _ =>
    .reads teamId_readOnly fun _ => .execute (insertWebhook_writes ht)

theorem webhookRemove_writes (ht : [.webhooks, .webhookDeliveries] ⊆ tables) {id : Uuid} :
    Bus.Writes (OnTables tables) P (Admin.webhookRemove id) fun _ _ => True :=
  (Bus.Writes.execute (removeWebhook_writes ht)).bind fun _ => .of_readOnly (.ite .throw .pure)

end

/-! ### The dispatcher -/

namespace Webhooks
variable {tables : List Table} (ht : .webhookDeliveries ∈ tables)
include ht

theorem claim_writes {locked : List Int} : Sql.Writes (OnTables tables) P (claim locked) fun _ _ => True := by
  intro pg _ _ b seqs ws hs
  simp only [claim, Except.ok.injEq, Prod.mk.injEq] at hs
  obtain ⟨-, rfl, rfl⟩ := hs
  exact ⟨.refl _, ⟨fun d _ _ => ⟨rfl, rfl, rfl⟩, singleton_subset ht, trivial⟩, trivial⟩

theorem markSent_writes {id : Int} : Sql.Writes (OnTables tables) P (markSent id) fun _ _ => True := by
  intro pg _ _ b seqs ws hs
  simp only [markSent, Except.ok.injEq, Prod.mk.injEq] at hs
  obtain ⟨-, rfl, rfl⟩ := hs
  exact ⟨.refl _, ⟨fun d _ _ => ⟨rfl, rfl, rfl⟩, singleton_subset ht, trivial⟩, trivial⟩

theorem markFailed_writes {id attempts : Int} {error : String} :
    Sql.Writes (OnTables tables) P (markFailed id attempts error) fun _ _ => True := by
  intro pg _ _ b seqs ws hs
  simp only [markFailed, Except.ok.injEq, Prod.mk.injEq] at hs
  obtain ⟨-, rfl, rfl⟩ := hs
  exact ⟨.refl _, ⟨fun d _ _ => ⟨rfl, rfl, rfl⟩, singleton_subset ht, trivial⟩, trivial⟩

theorem record_writes [Platform] {d : Claimed} {r : Response} :
    Sql.Writes (OnTables tables) P (record d r) fun _ _ => True := by
  unfold record
  split
  · exact markSent_writes ht
  · cases r with
    | status code => exact markFailed_writes ht
    | error text => exact markFailed_writes ht

theorem prune_writes : Sql.Writes (OnTables tables) P prune fun _ _ => True := by
  intro pg _ _ b seqs ws hs
  simp only [prune, Except.ok.injEq, Prod.mk.injEq] at hs
  obtain ⟨-, rfl, rfl⟩ := hs
  exact ⟨.refl _, ⟨trivial, singleton_subset ht, trivial⟩, trivial⟩

end Webhooks

end CrewSync
