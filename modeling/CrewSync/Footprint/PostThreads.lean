import CrewSync.Footprint.Threads
import CrewSync.Footprint.Uploads

/-! A post as a thread, among others of the same kind: how far it has come, the locks that it holds on its team,
    and why none of its statements fails where the post succeeds alone and the quota has room for all. -/

namespace CrewSync
open Threads
open Bus (Reads Queries)
variable [Platform]

/-- How far a post has come. -/
inductive PostPhase where
  | reading
  /-- Its transaction is open. -/
  | begun
  /-- Its message is inserted: it holds locks on the team. -/
  | storing
  | committed

def PostPhase.due (total : Int) : PostPhase → Int
  | .committed => 0
  | _ => total

/-- The locks that a post in the phase holds. -/
def PostPhase.Holds (pid : Nat) (team : Uuid) (locks : List TeamLock) : PostPhase → Prop
  | .storing => (∃ l ∈ locks, l.pid = pid) ∧ ∀ l ∈ locks, l.pid = pid → l.team = team
  | _ => ∀ l ∈ locks, l.pid ≠ pid

/-- Posts leave the teams, their agents and their channels as they are, and add messages of agents. -/
structure Db.Posting (db db' : Db) : Prop where
  teams : db'.teams = db.teams
  agents : db'.agents = db.agents
  channels : db'.channels = db.channels
  messages : db.messages ⊆ db'.messages
  senders : ∀ m ∈ db'.messages, m ∈ db.messages ∨ db.agentExists m.senderAgentId

/-- A statement of a post. -/
structure PostStep (pid : Nat) (team : Uuid) (total : Int) (g : PostPhase) (l : Stmt) (pg : Pg) (g' : PostPhase)
    (pg' : Pg) : Prop where
  posting : pg.db.Posting pg'.db
  others : ∀ x : TeamLock, x.pid ≠ pid → (x ∈ pg'.teamLocks ↔ x ∈ pg.teamLocks)
  holds : g'.Holds pid team pg'.teamLocks
  /-- The `INSERT` of the message takes the first lock. -/
  first : g' = .storing → g = .storing ∨ l = .tx (.insert .messages)
  /-- Only the commit moves bytes. -/
  bytes : ∀ t, pg'.db.attachmentBytes t + (if t = team then g'.due total else 0) =
    pg.db.attachmentBytes t + if t = team then g.due total else 0

/-- The guard of a statement: the lock that it takes. -/
def postReady (pid : Nat) (team : Uuid) : Stmt → Pg → Bool
  | .tx (.insert .messages) => fun pg => pg.canLock pid team .keyShare
  | .tx (.insertAttachment _) => fun pg => pg.canLock pid team .keyShare
  | .tx (.lockTeam _) => fun pg => pg.canLock pid team .forUpdate
  | _ => fun _ => true

omit [Platform] in
theorem postReady_of_select {pid : Nat} {team : Uuid} {l : Stmt} (hl : l.isSelect = true) :
    postReady pid team l = fun _ => true := by
  cases l with
  | select t => rfl
  | tx s =>
    cases s with
    | select | tx => rfl
    | _ => cases hl
  | _ => cases hl

omit [Platform] in
/-- A thread never waits for a row that nobody else holds locks on. -/
theorem postReady_of_own {pid : Nat} {team : Uuid} {pg : Pg} (h : ∀ l ∈ pg.teamLocks, l.team = team → l.pid = pid)
    (s : Stmt) : postReady pid team s pg = true := by
  have hcan : ∀ mode, pg.canLock pid team mode = true := by
    intro mode
    refine List.all_eq_true.2 fun l hl => ?_
    by_cases hteam : l.team = team
    · simp [h l hl hteam]
    · simp [hteam]
  unfold postReady
  split
  · exact hcan _
  · exact hcan _
  · exact hcan _
  · rfl

/-- The protocol of a post with files of `total` bytes, in runs from the tables `base`. -/
def postProtocol (base : Pg) (pid : Nat) (team : Uuid) (total : Int) : Protocol Stmt Pg PostPhase where
  sure g pg := base.db.Posting pg.db ∧ g.Holds pid team pg.teamLocks ∧
    ∀ t, base.db.findTeam team = some t → ∀ limit ∈ t.attachmentBytesLimit,
      pg.db.attachmentBytes team + g.due total ≤ limit
  ready := postReady pid team
  step := PostStep pid team total

omit [Platform] in
theorem Db.Posting.refl (db : Db) : db.Posting db := ⟨rfl, rfl, rfl, List.Subset.refl _, fun _ h => .inl h⟩

omit [Platform] in
theorem Db.Posting.trans {a b c : Db} (h : a.Posting b) (h' : b.Posting c) : a.Posting c where
  teams := h'.teams.trans h.teams
  agents := h'.agents.trans h.agents
  channels := h'.channels.trans h.channels
  messages := List.Subset.trans h.messages h'.messages
  senders m hm := by
    rcases h'.senders m hm with hm | hm
    · exact h.senders m hm
    · exact .inr (by rwa [Db.agentExists, h.agents] at hm)

/-! ### Before the transaction -/

/-- Every statement is a query of what posts leave alone. -/
def Steady {α : Type} (base : Pg) : Prog Stmt Pg α → Prop
  | .ret _ => True
  | .act l ready eff next => l.isSelect = true ∧ ready = (fun _ => true) ∧ eff = id ∧
      (∀ pg, base.db.Posting pg.db → next pg = next base) ∧ Steady base (next base)

namespace Steady
variable {α β : Type} {base : Pg}

omit [Platform] in
theorem bind {p : Prog Stmt Pg α} {f : α → Prog Stmt Pg β} (hp : Steady base p) (hf : ∀ a, Steady base (f a)) :
    Steady base (p.bind f) := by
  induction p with
  | ret a => exact hf a
  | act l ready eff next ih =>
    obtain ⟨hl, hready, heff, hsame, hnext⟩ := hp
    exact ⟨hl, hready, heff, fun pg h => congrArg (Prog.bind · f) (hsame pg h), ih base hnext⟩

end Steady

/-- The same of a store function. -/
structure Bus.Steady {α : Type} (base : Pg) (x : Bus α) : Prop where
  run : CrewSync.Steady base x.run

namespace Bus.Steady
variable {α β : Type} {base : Pg}

omit [Platform] in
theorem pure {a : α} : Bus.Steady base (Pure.pure a : Bus α) := ⟨trivial⟩

omit [Platform] in
theorem throw {e : BusError} : Bus.Steady base (MonadExcept.throw e : Bus α) := ⟨trivial⟩

omit [Platform] in
theorem check {r : Except BusError α} : Bus.Steady base (CrewSync.check r) := by
  cases r <;> exact ⟨trivial⟩

omit [Platform] in
theorem select {t : Table} {q : Pg → α} (h : ∀ pg, base.db.Posting pg.db → q pg = q base) :
    Bus.Steady base (CrewSync.select t q) :=
  ⟨rfl, rfl, rfl, fun pg hp => congrArg (fun a => Prog.ret (Except.ok a)) (h pg hp), trivial⟩

omit [Platform] in
theorem bind {x : Bus α} {f : α → Bus β} (hx : Bus.Steady base x) (hf : ∀ a, Bus.Steady base (f a)) :
    Bus.Steady base (x >>= f) :=
  ⟨CrewSync.Steady.bind hx.run fun r => by
    cases r with
    | ok a => exact (hf a).run
    | error e => trivial⟩

omit [Platform] in
theorem ite {c : Prop} [Decidable c] {x y : Bus α} (hx : Bus.Steady base x) (hy : Bus.Steady base y) :
    Bus.Steady base (if c then x else y) := by
  split
  · exact hx
  · exact hy

end Bus.Steady

omit [Platform] in
/-- What posts leave alone is found, under every protocol that lets queries leave the phase as it is, as it was before
    the posts. -/
theorem Bus.Steady.follows {α γ : Type} {base : Pg} {x : Bus α} (hx : Bus.Steady base x) {T : Protocol Stmt Pg γ} {g : γ}
    (hready : ∀ l, l.isSelect = true → T.ready l = fun _ => true) (hposting : ∀ pg, T.sure g pg → base.db.Posting pg.db)
    (hstep : ∀ l pg, l.isSelect = true → T.sure g pg → T.step g l pg g pg) :
    T.Follows (fun r g' => r = (x.exec base).1 ∧ g' = g) x.run g := by
  have steady : ∀ p : Prog Stmt Pg (Except BusError α), CrewSync.Steady base p →
      T.Follows (fun r g' => r = (p.run base).1 ∧ g' = g) p g := by
    intro p hp
    induction p with
    | ret a => exact ⟨rfl, rfl⟩
    | act l ready eff next ih =>
      obtain ⟨hl, rfl, rfl, hsame, hnext⟩ := hp
      refine ⟨(hready l hl).symm, fun pg hs _ => ⟨g, hstep l pg hl hs, ?_⟩⟩
      rw [hsame pg (hposting pg hs)]
      exact ih base hnext
  exact steady _ hx.run

section
variable {α β : Type} {base : Pg} {x : Bus α} {f f₀ : α → Bus β}

omit [Platform] in
theorem Steady.run {p : Prog Stmt Pg α} (h : Steady base p) : (p.run base).2 = base := by
  induction p with
  | ret a => rfl
  | act l ready eff next ih =>
    obtain ⟨-, -, rfl, -, hnext⟩ := h
    exact ih base hnext

omit [Platform] in
/-- A query of what posts leave alone is answered as before the posts. -/
theorem steady_follows {pid : Nat} {team : Uuid} {total : Int} {Q : β → PostPhase → Prop} (hx : Bus.Steady base x)
    (hok : Bus.Succeeds base (x >>= f₀))
    (hf : ∀ a, Bus.Succeeds base (f₀ a) →
      Bus.Follows (postProtocol base pid team total) (fun _ => False) Q (f a) .reading) :
    Bus.Follows (postProtocol base pid team total) (fun _ => False) Q (x >>= f) .reading := by
  obtain ⟨a, ha, hfa⟩ := hok.bind
  have hbase : (x.exec base).2 = base := Steady.run hx.run
  rw [hbase] at hfa
  have hfollows : Bus.Follows (postProtocol base pid team total) (fun _ => False) (fun b g => b = a ∧ g = .reading) x
      .reading := by
    have hsteady := hx.follows (T := postProtocol base pid team total) (g := .reading) (fun _ => postReady_of_select)
      (fun _ hs => hs.1) fun _ _ _ hs => ⟨.refl _, fun _ _ => .rfl, hs.2.1, fun h => (by cases h), fun _ => rfl⟩
    refine ⟨hsteady.imp fun r g h => ?_⟩
    obtain ⟨rfl, rfl⟩ := h
    rw [ha]
    exact ⟨rfl, rfl⟩
  refine hfollows.bind fun b g h => ?_
  obtain ⟨rfl, rfl⟩ := h
  exact hf b hfa

end

/-! ### Looking up where the message goes -/

section
variable {base : Pg} {auth : AuthCtx}

theorem channelIdByName_steady {name : String} : Bus.Steady base (channelIdByName auth.teamId name) :=
  .bind (.select fun pg h => by rw [Db.findChannel, Db.findChannel, h.channels]) fun r => by
    cases r with
    | none => exact .throw
    | some id => exact .pure

omit [Platform] in
theorem agentIdByName_steady {name : String} : Bus.Steady base (agentIdByName auth.teamId name) :=
  .bind (.select fun pg h => by rw [Db.findAgent, Db.findAgent, h.agents]) fun r => by
    cases r with
    | none => exact .throw
    | some id => exact .pure

theorem defaultChannel_steady : Bus.Steady base (defaultChannel auth) :=
  .ite .pure (.select fun pg h => by rw [Db.findChannel, Db.findChannel, h.channels])

omit [Platform] in
theorem toChannel_steady {channel : Uuid} : Bus.Steady base (toChannel auth channel) :=
  .bind (.select fun pg h => by rw [Db.rosterNames, Db.rosterNames, h.agents]) fun _ => .pure

theorem resolveTarget_steady {channel dest : Option String} : Bus.Steady base (resolveTarget auth channel dest) := by
  cases channel with
  | some channel =>
    cases dest with
    | some _ => exact .throw
    | none => exact .bind channelIdByName_steady fun _ => toChannel_steady
  | none =>
    cases dest with
    | none =>
      refine .bind defaultChannel_steady fun r => ?_
      cases r with
      | some c => exact toChannel_steady
      | none => exact .ite .throw .throw
    | some dest =>
      refine .bind .check fun r => .bind agentIdByName_steady fun id => ?_
      exact .ite (.bind .throw fun _ => .pure) .pure

omit [Platform] in
theorem checkReply_steady {reply : Option Int} (h : Bus.Succeeds base (checkReply auth reply)) :
    Bus.Steady base (checkReply auth reply) := by
  cases reply with
  | none => exact .pure
  | some r =>
    refine .bind (.select fun pg hp => ?_) fun _ => .ite .throw .pure
    -- The message was there before the posts, and they remove none.
    have hbase : base.db.messageIn r auth.teamId = true := by
      obtain ⟨_, h⟩ := h
      by_contra hne
      rw [Bool.not_eq_true] at hne
      simp only [checkReply, Bus.exec_bind, Bus.exec_select, hne] at h
      cases h
    obtain ⟨m, hm, hq⟩ := List.any_eq_true.1 hbase
    rw [hbase]
    exact List.any_eq_true.2 ⟨m, hp.messages hm, hq⟩

end

/-! ### Inside the transaction -/

/-- The bytes of the files of a post. -/
def sizes (atts : List NewAttachment) : Int := (atts.map NewAttachment.sizeBytes).sum

omit [Platform] in
theorem sizes_nonneg (atts : List NewAttachment) : 0 ≤ sizes atts := by
  induction atts with
  | nil => exact le_rfl
  | cons att atts ih =>
    have hatt : 0 ≤ att.sizeBytes := Int.natCast_nonneg _
    simp only [sizes, List.map_cons, List.sum_cons] at ih ⊢
    omega

section
variable {base : Pg} {pid : Nat} {auth : AuthCtx} {total : Int}

omit [Platform] in
theorem Db.Posting.messageOk {db : Db} (h : base.db.Posting db) {m : Message} (hm : base.db.messageOk m = true) :
    db.messageOk m = true := by
  obtain ⟨htarget, hteam, hsender, hrecipient, hchannel, hreply⟩ := Db.messageOk_iff.1 hm
  refine Db.messageOk_iff.2 ⟨htarget, ?_, ?_, fun a ha => ?_, fun c hc => ?_, fun r hr => ?_⟩
  · rwa [Db.hasTeam, h.teams]
  · rwa [Db.agentIn, h.agents]
  · have := hrecipient a ha
    rwa [Db.agentIn, h.agents]
  · have := hchannel c hc
    rwa [Db.channelIn, h.channels]
  · obtain ⟨x, hx, hid⟩ := List.any_eq_true.1 (hreply r hr)
    exact List.any_eq_true.2 ⟨x, h.messages hx, hid⟩

omit [Platform] in
/-- What an upload has written so far, on the tables that other posts have left. -/
theorem Db.Posting.write {agent team : Uuid} {db : Db} (h : base.db.Posting db) (hagent : base.db.agentIn agent team)
    {ws : List Write} (hws : ∀ w ∈ ws, w.Upload agent team) : db.Posting (db.write ws) := by
  obtain ⟨ds, ns, e⟩ := Db.write_upload hws db
  rw [e]
  refine ⟨rfl, rfl, rfl, List.subset_append_left .., fun m hm => ?_⟩
  rcases List.mem_append.1 hm with hm | hm
  · exact .inl hm
  · right
    rw [(hws _ (mem_posted.1 hm)).2, Db.agentExists, h.agents]
    exact Db.agentExists_iff.2 ⟨team, hagent⟩

omit [Platform] in
/-- A statement that takes a lock on the team: it succeeds, and the post holds locks from then on. -/
theorem tx_execute {β : Type} (mode : LockMode) {g : PostPhase} {now : Time} {ws : List Write} {l : Stmt} {s : Sql β}
    {R : β → List Write → Prop}
    (hready : postReady pid auth.teamId (.tx l) = fun pg => pg.canLock pid auth.teamId mode)
    (hg : g = .begun ∧ l = .insert .messages ∨ g = .storing)
    (hok : ∀ pg, (postProtocol base pid auth.teamId total).sure g pg → ∃ b seqs ws',
      s (Conn.view ⟨pid, some ⟨now, ws⟩⟩ pg) = .ok (b, seqs, ws') ∧ R b ws') :
    Bus.Follows (postProtocol base pid auth.teamId total) (fun _ => False)
      (fun r g' => g' = .storing ∧ ∃ ws', R r.1 ws' ∧ r.2 = ⟨pid, some ⟨now, ws ++ ws'⟩⟩)
      (Conn.execute ⟨pid, some ⟨now, ws⟩⟩ l (some (auth.teamId, mode)) s) g := by
  refine .conn_execute hready fun pg hs => ?_
  obtain ⟨b, seqs, ws', hsql, hR⟩ := hok pg hs
  have heff : Conn.effect ⟨pid, some ⟨now, ws⟩⟩ (some (auth.teamId, mode)) s pg =
      { pg with seqs, teamLocks := pg.teamLocks ++ [⟨pid, auth.teamId, mode⟩] } := by
    simp only [Conn.effect, hsql]
    rfl
  have hans : Conn.answer ⟨pid, some ⟨now, ws⟩⟩ s pg = .ok (b, ⟨pid, some ⟨now, ws ++ ws'⟩⟩) := by
    simp only [Conn.answer, hsql]
    rfl
  have hteam : ∀ x ∈ pg.teamLocks, x.pid = pid → x.team = auth.teamId := by
    obtain ⟨-, hholds, -⟩ := hs
    rcases hg with ⟨rfl, -⟩ | rfl
    · exact fun x hx hp => absurd hp (hholds x hx)
    · exact hholds.2
  have hdue : g.due total = total := by rcases hg with ⟨rfl, -⟩ | rfl <;> rfl
  rw [heff, hans]
  refine ⟨.storing, ⟨.refl _, fun x hx => ?_, ⟨⟨_, List.mem_append_right _ (List.mem_singleton_self _), rfl⟩,
    fun x hx hp => ?_⟩, fun _ => ?_, fun t => ?_⟩, rfl, ws', hR, rfl⟩
  · simp only [List.mem_append, List.mem_singleton, or_iff_left_iff_imp]
    rintro rfl
    exact absurd rfl hx
  · rcases List.mem_append.1 hx with hx | hx
    · exact hteam x hx hp
    · rw [List.mem_singleton.1 hx]
  · rcases hg with ⟨-, rfl⟩ | rfl
    · exact .inr rfl
    · exact .inl rfl
  · rw [hdue]
    rfl

variable (hteam : base.db.hasTeam auth.teamId = true) (hagent : base.db.agentIn auth.agentId auth.teamId = true)
include hteam

omit [Platform] in
theorem findTeam_view {pg : Pg} (h : base.db.Posting pg.db) (pid : Nat) (now : Time) {ws : List Write}
    (hws : ∀ w ∈ ws, w.Upload auth.agentId auth.teamId) :
    ∃ t, base.db.findTeam auth.teamId = some t ∧
      (Conn.view ⟨pid, some ⟨now, ws⟩⟩ pg).db.findTeam auth.teamId = some t := by
  obtain ⟨x, hx, hid⟩ := List.any_eq_true.1 hteam
  have hsome : (base.db.teams.find? (·.id == auth.teamId)).isSome := List.find?_isSome.2 ⟨x, hx, hid⟩
  obtain ⟨t, ht⟩ := Option.isSome_iff_exists.1 hsome
  obtain ⟨ds, ns, e⟩ := Db.write_upload hws pg.db
  refine ⟨t, ht, ?_⟩
  simp only [Conn.view, Db.findTeam, e, h.teams, ht]

omit [Platform] in
/-- The quota has room for the file. -/
theorem checkAttachmentQuota_follows {now : Time} {ws : List Write}
    (hws : ∀ w ∈ ws, w.Upload auth.agentId auth.teamId) {bytes : Int} (hbytes : staged ws + bytes ≤ total) :
    Bus.Follows (postProtocol base pid auth.teamId total) (fun _ => False)
      (fun c g => g = .storing ∧ c = ⟨pid, some ⟨now, ws⟩⟩)
      (checkAttachmentQuota ⟨pid, some ⟨now, ws⟩⟩ auth.teamId bytes) .storing := by
  refine Bus.Follows.bind (tx_execute .forUpdate
    (R := fun limit ws' => ws' = [] ∧ ∃ t, base.db.findTeam auth.teamId = some t ∧ limit = t.attachmentBytesLimit)
    rfl (.inr rfl) fun pg hs => ?_) fun r g h => ?_
  · obtain ⟨t, ht, hview⟩ := findTeam_view hteam hs.1 pid now hws
    refine ⟨t.attachmentBytesLimit, pg.seqs, [], ?_, rfl, t, ht, rfl⟩
    simp only [quotaOf, hview]
    rfl
  · obtain ⟨limit, c⟩ := r
    obtain ⟨rfl, ws', ⟨rfl, t, ht, rfl⟩, hc⟩ := h
    have hc : c = ⟨pid, some ⟨now, ws⟩⟩ := by simpa using hc
    subst hc
    cases hlimit : t.attachmentBytesLimit with
    | none => exact .pure ⟨rfl, rfl⟩
    | some limit =>
      refine Bus.Follows.bind (Q := fun used g => g = .storing ∧ used + bytes ≤ limit) (.conn_select rfl fun pg hs => ?_)
        fun used g h => ?_
      · refine ⟨.storing, ⟨.refl _, fun _ _ => .rfl, hs.2.1, fun _ => .inl rfl, fun _ => rfl⟩, rfl, ?_⟩
        have hroom := hs.2.2 t ht limit hlimit
        have hview : (Conn.view ⟨pid, some ⟨now, ws⟩⟩ pg).db.attachmentBytes auth.teamId =
            pg.db.attachmentBytes auth.teamId + staged ws := by
          simp only [Conn.view, Db.attachmentBytes_write hws, if_true]
        simp only [PostPhase.due] at hroom
        rw [hview]
        omega
      · obtain ⟨rfl, hused⟩ := h
        refine .ite (fun h => absurd h (by omega)) fun _ => .pure ⟨rfl, rfl⟩

include hagent

omit [Platform] in
theorem insertForMessage_follows {now : Time} {ws : List Write} {id : Int} {att : NewAttachment}
    (hws : ∀ w ∈ ws, w.Upload auth.agentId auth.teamId) (hid : ∃ m ∈ posted ws, m.id = id)
    (hbytes : staged ws + att.sizeBytes ≤ total) :
    Bus.Follows (postProtocol base pid auth.teamId total) (fun _ => False)
      (fun r g => g = .storing ∧ ∃ a : Attachment, a.teamId = auth.teamId ∧ a.sizeBytes = att.sizeBytes ∧
        r.2 = ⟨pid, some ⟨now, ws ++ [.insertAttachment a]⟩⟩)
      (insertForMessage ⟨pid, some ⟨now, ws⟩⟩ auth.teamId id auth.agentId att) .storing := by
  refine Bus.Follows.bind (checkAttachmentQuota_follows hteam hws hbytes) fun c g h => ?_
  obtain ⟨rfl, rfl⟩ := h
  refine Bus.Follows.bind (tx_execute .keyShare (R := fun _ ws' => ∃ a : Attachment,
    a.teamId = auth.teamId ∧ a.sizeBytes = att.sizeBytes ∧ ws' = [.insertAttachment a]) rfl (.inr rfl) fun pg hs => ?_)
    fun r g h => ?_
  · have hview := hs.1.trans (hs.1.write hagent hws)
    obtain ⟨m, hm, hmid⟩ := hid
    have hin : (pg.db.write ws).messageIn id auth.teamId = true := by
      obtain ⟨ds, ns, e⟩ := Db.write_upload hws pg.db
      rw [e]
      exact List.any_eq_true.2 ⟨m, List.mem_append_right _ hm, by simp [hmid, (hws _ (mem_posted.1 hm)).1]⟩
    have hok : (pg.db.write ws).attachmentOk (newAttachment auth.teamId (pg.seqs.attachments + 1) now (some id) none
        auth.agentId att) = true := by
      have hsize : 0 < att.sizeBytes := by
        have := List.length_pos_of_ne_nil att.nonempty
        simp only [NewAttachment.sizeBytes]
        omega
      refine Db.attachmentOk_iff.2 ⟨by simp [newAttachment], hsize, ?_, ?_, ?_, by simp [newAttachment]⟩
      · rw [Db.hasTeam, hview.teams]; exact hteam
      · rw [Db.agentIn, hview.agents]; exact hagent
      · intro x hx
        cases hx
        exact hin
    refine ⟨pg.seqs.attachments + 1, { pg.seqs with attachments := pg.seqs.attachments + 1 }, _, ?_,
      newAttachment auth.teamId (pg.seqs.attachments + 1) now (some id) none auth.agentId att, rfl, rfl, rfl⟩
    simp only [insertAttachment, Conn.view, hok, if_true]
  · obtain ⟨rfl, ws', ⟨a, ha, hsize, rfl⟩, hc⟩ := h
    exact .pure ⟨rfl, a, ha, hsize, hc⟩

omit [Platform] in
theorem insertAll_follows (atts : List NewAttachment) {now : Time} {ws : List Write} {id : Int}
    (hws : ∀ w ∈ ws, w.Upload auth.agentId auth.teamId) (hid : ∃ m ∈ posted ws, m.id = id)
    (hbytes : staged ws + sizes atts = total) :
    Bus.Follows (postProtocol base pid auth.teamId total) (fun _ => False)
      (fun c g => g = .storing ∧ ∃ ws', c = ⟨pid, some ⟨now, ws'⟩⟩ ∧ (∀ w ∈ ws', w.Upload auth.agentId auth.teamId) ∧
        (∃ m ∈ posted ws', m.id = id) ∧ staged ws' = total)
      (insertAllForMessage ⟨pid, some ⟨now, ws⟩⟩ auth.teamId id auth.agentId atts) .storing := by
  induction atts generalizing ws with
  | nil => exact .pure ⟨rfl, ws, rfl, hws, hid, by simpa [sizes] using hbytes⟩
  | cons att atts ih =>
    have hsizes : sizes (att :: atts) = att.sizeBytes + sizes atts := by simp [sizes]
    have := sizes_nonneg atts
    refine Bus.Follows.bind (insertForMessage_follows hteam hagent hws hid (by omega)) fun r g h => ?_
    obtain ⟨rfl, a, ha, hsize, hc⟩ := h
    obtain ⟨info, c⟩ := r
    subst hc
    refine ih (fun w hw => ?_) ?_ ?_
    · rcases List.mem_append.1 hw with hw | hw
      · exact hws w hw
      · rw [List.mem_singleton.1 hw]
        exact ha
    · obtain ⟨m, hm, hmid⟩ := hid
      exact ⟨m, by rw [posted_append]; exact List.mem_append_left _ hm, hmid⟩
    · rw [staged_append, staged_attachment, hsize]
      omega

end

/-! ### The call -/

section
variable {base : Pg} {pid : Nat} {auth : AuthCtx} {total : Int}

omit [Platform] in
/-- The message that a post inserts is shown to it, with the name of its sender. -/
theorem messageInfo_some {db : Db} (h : base.db.Posting db) (hv : base.Valid) {agent team : Uuid}
    (hagent : base.db.agentIn agent team) {ws : List Write} (hws : ∀ w ∈ ws, w.Upload agent team) {id : Int}
    (hid : ∃ m ∈ posted ws, m.id = id) :
    (((db.write ws).messages.find? (·.id == id)).bind (db.write ws).messageInfo?).isSome := by
  have hview := h.trans (h.write hagent hws)
  obtain ⟨m, hm, hmid⟩ := hid
  have hin : m ∈ (db.write ws).messages := by
    obtain ⟨ds, ns, e⟩ := Db.write_upload hws db
    rw [e]
    exact List.mem_append_right _ hm
  have hsome : ((db.write ws).messages.find? (·.id == id)).isSome := List.find?_isSome.2 ⟨m, hin, by simp [hmid]⟩
  obtain ⟨x, hx⟩ := Option.isSome_iff_exists.1 hsome
  have hsender : base.db.agentExists x.senderAgentId := by
    rcases hview.senders x (List.mem_of_find?_eq_some hx) with hold | hnew
    · exact Db.agentExists_iff.2 ⟨_, (hv.refs.senders x hold).2⟩
    · exact hnew
  obtain ⟨team', hteam'⟩ := Db.agentExists_iff.1 hsender
  obtain ⟨name, hname⟩ := Db.agentName_of_agentIn hteam'
  have hname' : (db.write ws).agentName x.senderAgentId = some name := by
    rw [← hname, Db.agentName, Db.agentName, hview.agents]
  rw [hx, Option.bind_some, Db.messageInfo?, hname']
  rfl

omit [Platform] in
/-- A transaction that succeeds alone has a body that does. -/
theorem Bus.Succeeds.transaction {α : Type} {body : Conn → Bus (α × Conn)}
    (h : Bus.Succeeds base (CrewSync.transaction 0 body)) : Bus.Succeeds base (body ⟨0, some ⟨base.now, []⟩⟩) := by
  obtain ⟨a, h⟩ := h
  have hbegin : (Conn.begin 0).exec base = (.ok ⟨0, some ⟨base.now, []⟩⟩, base) := rfl
  unfold CrewSync.transaction at h
  rw [Bus.exec_bind_ok hbegin, Bus.exec_bind_ok (Bus.exec_attempt _)] at h
  cases hbody : ((body ⟨0, some ⟨base.now, []⟩⟩).exec base).1 with
  | ok r => exact ⟨r, hbody⟩
  | error e =>
    rw [hbody] at h
    cases h

/-- An `INSERT` that succeeds alone: the row of the message refers to rows that are there. -/
theorem messageOk_of_insert {target : Target} {body : String} {input : PostInput} {metadata : Json} {r : MessageInfo × Conn}
    (h : ((postBody auth target body input metadata ⟨0, some ⟨base.now, []⟩⟩).exec base).1 = .ok r) (id : Int)
    (now : Time) : base.db.messageOk (newMessage auth id now target body input.replyTo metadata input.announce) = true := by
  obtain ⟨⟨id', c⟩, hinsert, -⟩ := Bus.Succeeds.bind ⟨r, h⟩
  have hanswer : Conn.answer ⟨0, some ⟨base.now, []⟩⟩
      (insertMessage auth target body input.replyTo metadata input.announce) base = .ok (id', c) := hinsert
  simp only [Conn.answer, Conn.view, Db.write_nil] at hanswer
  split at hanswer
  · next hsql =>
    obtain ⟨m, -, -, rfl, hok, -⟩ := insertMessage_ok hsql
    exact Db.messageOk_iff.2 (Db.messageOk_iff.1 hok)
  · cases hanswer

theorem postBody_follows (hv : base.Valid) {target : Target} {body : String} {input : PostInput} {metadata : Json}
    (hm : ∀ id now, base.db.messageOk (newMessage auth id now target body input.replyTo metadata input.announce) = true)
    (now : Time) :
    Bus.Follows (postProtocol base pid auth.teamId (sizes input.attachments)) (fun _ => False)
      (fun r g => g = .storing ∧ ∃ ws, r.2 = ⟨pid, some ⟨now, ws⟩⟩ ∧
        (∀ w ∈ ws, w.Upload auth.agentId auth.teamId) ∧ staged ws = sizes input.attachments)
      (postBody auth target body input metadata ⟨pid, some ⟨now, []⟩⟩) .begun := by
  obtain ⟨-, hteam, hagent, -, -, -⟩ := Db.messageOk_iff.1 (hm 0 0)
  refine Bus.Follows.bind (tx_execute .keyShare (R := fun id ws => (∀ w ∈ ws, w.Upload auth.agentId auth.teamId) ∧
    (∃ m ∈ posted ws, m.id = id) ∧ staged ws = 0) rfl (.inl ⟨rfl, rfl⟩) fun pg hs => ?_) fun r g h => ?_
  · have hok := hs.1.messageOk (hm (pg.seqs.messages + 1) now)
    cases h : insertMessage auth target body input.replyTo metadata input.announce
        (Conn.view ⟨pid, some ⟨now, []⟩⟩ pg) with
    | error e =>
      simp only [insertMessage, Conn.view, Db.write_nil, hok, if_true] at h
      cases h
    | ok r =>
      obtain ⟨id, seqs, ws⟩ := r
      obtain ⟨hws, hfiles, hposted⟩ := insertMessage_upload h
      exact ⟨id, seqs, ws, rfl, hws, ⟨_, hposted ▸ List.mem_singleton_self _, rfl⟩, by simp [staged, hfiles]⟩
  · obtain ⟨id, c⟩ := r
    obtain ⟨rfl, ws, ⟨hws, hid, hstaged⟩, hc⟩ := h
    have hc : c = ⟨pid, some ⟨now, ws⟩⟩ := hc
    subst hc
    refine Bus.Follows.bind (insertAll_follows hteam hagent input.attachments hws hid (by rw [hstaged, zero_add]))
      fun c g h => ?_
    obtain ⟨rfl, ws', rfl, hws', hid', hstaged'⟩ := h
    refine Bus.Follows.bind (Q := fun row g => g = .storing ∧ row.isSome) (.conn_select rfl fun pg hs => ?_)
      fun row g h => ?_
    · exact ⟨.storing, ⟨.refl _, fun _ _ => .rfl, hs.2.1, fun _ => .inl rfl, fun _ => rfl⟩, rfl,
        messageInfo_some hs.1 hv hagent hws' hid'⟩
    · obtain ⟨rfl, hsome⟩ := h
      cases row with
      | none => cases hsome
      | some info => exact .pure ⟨rfl, ws', rfl, hws', hstaged'⟩

omit [Platform] in
theorem commit_step {now : Time} {ws : List Write} (hagent : base.db.agentIn auth.agentId auth.teamId = true)
    (hws : ∀ w ∈ ws, w.Upload auth.agentId auth.teamId) (hstaged : staged ws = total) {pg : Pg}
    (hs : (postProtocol base pid auth.teamId total).sure .storing pg) :
    PostStep pid auth.teamId total .storing .commit pg .committed
      (Conn.unlock ⟨pid, some ⟨now, ws⟩⟩ { pg with db := pg.db.write ws }) where
  posting := hs.1.write hagent hws
  others x hx := by simp [Conn.unlock, hx]
  holds x hx := by
    simp only [Conn.unlock, List.mem_filter, bne_iff_ne] at hx
    exact hx.2
  first h := by cases h
  bytes t := by
    simp only [Conn.unlock, Db.attachmentBytes_write hws, hstaged, PostPhase.due]
    split <;> simp

/-- Among posts of the same kind, a post that succeeds alone succeeds. -/
theorem postMessage_follows (pid : Nat) (hv : base.Valid) (input : PostInput)
    (hok : Bus.Succeeds base (postMessage auth 0 input)) :
    Bus.Follows (postProtocol base pid auth.teamId (sizes input.attachments)) (fun _ => False)
      (fun _ => (· = .committed)) (postMessage auth pid input) .reading := by
  unfold postMessage at hok ⊢
  obtain ⟨hempty, hok⟩ := hok.else
  obtain ⟨hsize, hok⟩ := hok.else
  obtain ⟨hannounce, hok⟩ := hok.else
  refine .ite (fun h => absurd h hempty) fun _ => .ite (fun h => absurd h hsize) fun _ =>
    .ite (fun h => absurd h hannounce) fun _ => ?_
  refine steady_follows resolveTarget_steady hok fun target hok => ?_
  obtain ⟨_, hreply, -⟩ := hok.bind
  refine steady_follows (checkReply_steady ⟨_, hreply⟩) hok fun _ hok => ?_
  refine steady_follows .check hok fun _ hok => ?_
  -- Alone, the `INSERT` succeeds: the row of the message refers to rows that are there.
  obtain ⟨_, htx, -⟩ := hok.bind
  obtain ⟨_, hinsert⟩ := Bus.Succeeds.transaction ⟨_, htx⟩
  have hm := messageOk_of_insert hinsert
  obtain ⟨-, -, hagent, -, -, -⟩ := Db.messageOk_iff.1 (hm 0 0)
  refine Bus.Follows.bind (Q := fun _ => (· = .committed)) ?_ fun _ g h => .pure h
  refine Bus.Follows.transaction (P := fun _ g => g = .begun) (F := fun _ => False)
    (R := fun r g => g = .storing ∧ ∃ now ws, r.2 = ⟨pid, some ⟨now, ws⟩⟩ ∧
      (∀ w ∈ ws, w.Upload auth.agentId auth.teamId) ∧ staged ws = sizes input.attachments)
    ?_ (fun pg hs => ?_) (fun now g h => ?_) (fun a c g h pg hs => ?_) fun _ h => h.elim
  · rintro l (rfl | rfl | rfl) <;> rfl
  · exact ⟨.begun, ⟨.refl _, fun _ _ => .rfl, hs.2.1, fun h => (by cases h), fun _ => rfl⟩, rfl⟩
  · subst h
    exact (postBody_follows hv hm now).imp (fun _ h => h) fun r g h => ⟨h.1, now, h.2⟩
  · obtain ⟨rfl, now, ws, hc, hws, hstaged⟩ := h
    have hc : c = ⟨pid, some ⟨now, ws⟩⟩ := hc
    subst hc
    exact ⟨.committed, commit_step hagent hws hstaged hs, rfl⟩

end

end CrewSync
