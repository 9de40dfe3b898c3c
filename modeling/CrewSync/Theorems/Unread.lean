import CrewSync.Theorems.Batching
import CrewSync.Theorems.Feed

/-! The unread direct messages of a session, as `whoami` and `wait_for_updates` count them: what stands above the cursor
    of its inbox. The count grows with each message that comes in, and only a read of the inbox clears it. -/

namespace CrewSync
section
variable [Platform] {pg : Pg} {agent team : Uuid} {w : Window}

/-! ### Messages that come in -/

omit [Platform] in
theorem messages_prefix {db : Db} {w : Write} (hw : ∀ p, w ≠ .deleteMessages p) : db.messages <+: (w.apply db).messages := by
  cases w with
  | insertMessage r => exact List.prefix_append _ _
  | deleteMessages p => exact absurd rfl (hw p)
  | _ => exact List.prefix_rfl

/-- What every write but the deletion of messages keeps, every event but a prune keeps. -/
theorem Pg.next_kept (hv : pg.Valid) {e : Event} (he : isPrune e = false) {R : Db → Db → Prop}
    (hrefl : ∀ db, R db db) (htrans : ∀ {a b c}, R a b → R b c → R a c)
    (hstep : ∀ db w, (∀ p, w ≠ Write.deleteMessages p) → R db (w.apply db)) : R pg.db (pg.next e).db := by
  have lift (hn : Table.messages ∉ e.writes) : R pg.db (pg.next e).db :=
    next_lift hv e hrefl htrans fun _ db w _ _ _ ht => hstep db w fun p hp => by
      rw [hp] at ht
      exact hn (ht List.mem_cons_self)
  cases e with
  | call auth pid c =>
    refine (call_wrote hv auth pid c).lift hv hrefl htrans fun _ db w _ _ _ hw => hstep db w fun p hp => ?_
    have := hw.author
    rwa [hp] at this
  | command pid c =>
    refine lift ?_
    cases c with
    | teamPrune team days apply => cases he
    | _ => simp [Event.writes, Command.writes]
  | _ => exact lift (by simp [Event.writes])

/-- Without a prune, the messages stay as they are and new ones come after them. -/
theorem Pg.next_prefix (hv : pg.Valid) {e : Event} (he : isPrune e = false) : pg.db.messages <+: (pg.next e).db.messages :=
  next_kept (R := fun a b => a.messages <+: b.messages) hv he (fun _ => List.prefix_rfl) (fun h h' => h.trans h')
    fun _ _ => messages_prefix

theorem Pg.next_appends (hpg : pg.Reachable) {e : Event} (he : isPrune e = false) :
    ∃ new, (pg.next e).db.messages = pg.db.messages ++ new ∧ ∀ m ∈ new, pg.seqs.messages < m.id := by
  obtain ⟨new, hnew⟩ := next_prefix hpg.valid he
  refine ⟨new, hnew.symm, fun m' hm' => ?_⟩
  rcases next_ids hpg.valid e m' (hnew ▸ List.mem_append_right _ hm') with ⟨m, hm, hsame⟩ | habove
  · -- The message was there already, below itself.
    have horder := (hpg.next e).inOrder.2.increasing
    rw [← hnew] at horder
    have hlt := (List.pairwise_append.1 horder).2.2 m hm m' hm'
    rw [hsame] at hlt
    exact absurd hlt (lt_irrefl _)
  · exact habove

/-! ### The backlog of a window -/

/-- The event neither prunes nor reads what is new in the window. -/
def Pg.Leaves (agent : Uuid) (w : Window) (pg : Pg) (e : Event) : Prop :=
  isPrune e = false ∧ ∀ limit, ¬ pg.Drains agent w e limit

/-- The messages of the window that came in since. -/
def Pg.arrived (pg' pg : Pg) (agent team : Uuid) (w : Window) : List Message :=
  pg'.db.messages.filter fun m => w.shows agent team m && decide (pg.seqs.messages < m.id)

/-- The backlog grows by what comes in, in order, until it is read. -/
theorem backlog_after [Platform.LawfulUuid] (hpg : pg.Reachable) (agent team : Uuid) (w : Window) {es : List Event}
    (hes : Runs.Along Pg.next (Pg.Leaves agent w) pg es) :
    (pg.after es).backlog agent team w = pg.backlog agent team w ++ (pg.after es).arrived pg agent team w := by
  have hrun := hes.invariant (I := fun pg' : Pg => pg'.Reachable ∧ pg.seqs.messages ≤ pg'.seqs.messages ∧
      pg'.db.lastRead agent w.key = pg.db.lastRead agent w.key ∧
      ∃ new, pg'.db.messages = pg.db.messages ++ new ∧ ∀ m ∈ new, pg.seqs.messages < m.id)
    ⟨hpg, le_rfl, rfl, [], (List.append_nil _).symm, fun m hm => by cases hm⟩ fun pg' e he h => by
      obtain ⟨hreach, hseq, hlast, new, hnew, habove⟩ := h
      obtain ⟨new', hnew', habove'⟩ := Pg.next_appends hreach he.1
      refine ⟨hreach.next e, hseq.trans (Pg.next_before hreach.valid e).messages, (Pg.next_idle hreach he.2).2.trans hlast,
        new ++ new', by rw [hnew', hnew, List.append_assoc], fun m hm => ?_⟩
      rcases List.mem_append.1 hm with hm | hm
      · exact habove m hm
      · exact hseq.trans_lt (habove' m hm)
  obtain ⟨-, -, hlast, new, hnew, habove⟩ := hrun
  have hcursor := lastRead_le_messages hpg agent w.key
  have hold : (pg.db.messages.filter fun m => w.shows agent team m && decide (pg.seqs.messages < m.id)) = [] := by
    refine List.filter_eq_nil_iff.2 fun m hm h => ?_
    have hbelow : m.id ≤ pg.seqs.messages := hpg.valid.keys.messagesBelow m hm
    rw [Bool.and_eq_true, decide_eq_true_eq] at h
    exact absurd h.2 (not_lt_of_ge hbelow)
  change (pg.after es).db.messages = _ at hnew
  change (pg.after es).db.lastRead agent w.key = _ at hlast
  rw [Pg.backlog, Pg.arrived, Pg.backlog, hlast, hnew, List.filter_append, List.filter_append, hold, List.nil_append]
  refine congrArg _ (List.filter_congr fun m hm => ?_)
  have hnewer := habove m hm
  rw [decide_eq_true (hcursor.trans_lt hnewer), decide_eq_true hnewer]

/-! ### The counters -/

/-- The window of the session's own inbox. -/
def AuthCtx.inbox (auth : AuthCtx) : Window := ⟨.inbox, auth.session, false⟩

variable {auth : AuthCtx}

theorem unreadInbox_eq (pg : Pg) (auth : AuthCtx) :
    unreadInbox auth pg.db = (pg.backlog auth.agentId auth.teamId auth.inbox).length := by
  rw [unreadInbox, Pg.backlog]
  refine congrArg (fun rows : List Message => (rows.length : Int)) (List.filter_congr fun m _ => ?_)
  exact Bool.and_right_comm _ _ _

theorem whoami_unread (hauth : auth.authentic pg.db = true) (pid : Nat) :
    ∃ me, (pg.call auth pid .whoami).1 = .ok (.whoami me) ∧ me.unreadDirectMessages = unreadInbox auth pg.db := by
  obtain ⟨channel, hchannel⟩ : ∃ channel, (defaultChannel auth).exec pg = (.ok channel, pg) := by
    unfold defaultChannel
    split <;> exact ⟨_, rfl⟩
  rw [Pg.call, if_pos hauth, Call.run, Bus.exec_map, whoami, Bus.exec_bind_ok (Bus.exec_select _ _),
    Bus.exec_bind_ok (Bus.exec_select _ _), Bus.exec_bind_ok hchannel]
  exact ⟨_, rfl, rfl⟩

theorem awaitEvents_exec (pg : Pg) (auth : AuthCtx) (kinds : Option (List String)) (focus : Option Uuid)
    (grace : List BusEvent) (received : List Received) :
    ∃ events, (awaitEvents auth kinds focus grace received).exec pg = (.ok events, pg) := by
  induction received with
  | nil => exact ⟨_, rfl⟩
  | cons r rest ih =>
    cases r with
    | lagged => exact ⟨_, rfl⟩
    | event e =>
      rw [awaitEvents]
      split
      · rw [Bus.exec_bind_ok (describe_line e pg)]
        cases line pg e with
        | none => exact ih
        | some d =>
          dsimp only
          rw [Bus.exec_bind_ok (describeAll_lines _ pg)]
          exact ⟨_, rfl⟩
      · exact ih

theorem wait_unread (hauth : auth.authentic pg.db = true) (pid : Nat) (input : WaitInput) (received : List Received)
    (grace : List BusEvent) :
    ∃ r, (pg.call auth pid (.waitForUpdates input received grace)).1 = .ok (.waited r) ∧
      r.unreadDirectMessages = unreadInbox auth pg.db := by
  obtain ⟨focus, hfocus⟩ := focusOf_exec auth input.allChannels pg
  obtain ⟨n, hpending, -⟩ := unreadAnything_exec auth focus pg
  obtain ⟨events, hevents⟩ := awaitEvents_exec pg auth input.kinds focus grace received
  have hdms : (unreadDms auth).exec pg = (.ok (unreadInbox auth pg.db), pg) := Bus.exec_select _ _
  rw [Pg.call, if_pos hauth, Call.run, Bus.exec_map, waitForUpdates, Bus.exec_bind_ok hfocus, Bus.exec_bind_ok hpending]
  split
  · rw [Bus.exec_bind_ok hdms]
    exact ⟨_, rfl, rfl⟩
  · rw [Bus.exec_bind_ok hevents, Bus.exec_bind_ok hdms]
    exact ⟨_, rfl, rfl⟩

theorem resolveScope_inl {raw : String} {scope : Scope} (h : parseScope raw = .inl scope) :
    ((resolveScope auth raw).exec pg).1 = .ok scope := by
  unfold resolveScope
  rw [h]
  rfl

/-- A read of what is new answers what is unread in its window, up to the limit, and leaves nothing unread. -/
theorem drained_read [Platform.LawfulUuid] (hpg : pg.Reachable) (hauth : auth.authentic pg.db = true) (pid : Nat)
    {input : ReadInput} {scope : Scope} (hscope : ((resolveScope auth input.scope).exec pg).1 = .ok scope)
    (hnew : input.onlyNew = true) :
    (∃ r, (pg.call auth pid (.readMessages input)).1 = .ok (.messages r) ∧
      r.messages.length = min (rowLimit input.limit)
        (pg.backlog auth.agentId auth.teamId (scope.window auth input.allSessions)).length) ∧
      (pg.next (.call auth pid (.readMessages input))).backlog auth.agentId auth.teamId
        (scope.window auth input.allSessions) = [] := by
  have hdrains : pg.Drains auth.agentId (scope.window auth input.allSessions) (.call auth pid (.readMessages input)) input.limit :=
    ⟨auth, pid, input, scope, rfl, hauth, rfl, hscope, rfl, hnew, rfl⟩
  have hreads := Feed.next_drains (f := ⟨pg, []⟩) hpg (AuthCtx.authentic.caller hauth) hdrains
  constructor
  · have hread := call_read hauth pid hscope
    refine ⟨_, congrArg Prod.fst hread, ?_⟩
    have hlength := hreads.last.length
    rw [Pg.hands_read hauth pid hscope hnew, Feed.backlog_eq, List.length_map, List.length_map] at hlength
    exact hlength
  · refine List.filter_eq_nil_iff.2 fun m hm h => ?_
    rw [Bool.and_eq_true, decide_eq_true_eq] at h
    have hlog : m.id ∈ (Feed.mk pg []).log auth.agentId auth.teamId (scope.window auth input.allSessions) := by
      rw [← Feed.log_drains hpg hdrains]
      exact List.mem_map.2 ⟨m, List.mem_filter.2 ⟨hm, h.1⟩, rfl⟩
    exact absurd (hreads.caught_up (rowLimit_pos input.limit) hlog) (not_le_of_gt h.2)

omit [Platform] in
/-- The window of a read of the session's own inbox. -/
theorem inbox_window {allSessions : Bool} (hview : allSessions = false) : Scope.inbox.window auth allSessions = auth.inbox := by
  rw [hview]
  rfl

/-- The unread direct messages of a session. In every run with no prune and no read of what is new in its inbox they are
    those that were unread before and those that came in since, whatever else the session reads; `whoami` and every wait
    report their number, a read of the inbox answers that many, up to its limit, and leaves nothing to count. -/
theorem unread_counts [Platform.LawfulUuid] (hpg : pg.Reachable) (auth : AuthCtx) {es : List Event}
    (hes : Runs.Along Pg.next (Pg.Leaves auth.agentId auth.inbox) pg es) (hauth : auth.authentic (pg.after es).db = true) :
    let unread := pg.backlog auth.agentId auth.teamId auth.inbox ++
      (pg.after es).arrived pg auth.agentId auth.teamId auth.inbox
    (∀ pid, ∃ me, ((pg.after es).call auth pid .whoami).1 = .ok (.whoami me) ∧ me.unreadDirectMessages = unread.length) ∧
      (∀ pid input received grace, ∃ r, ((pg.after es).call auth pid (.waitForUpdates input received grace)).1 = .ok (.waited r) ∧
        r.unreadDirectMessages = unread.length) ∧
      ∀ pid input, parseScope input.scope = .inl .inbox → input.onlyNew = true → input.allSessions = false →
        (∃ r, ((pg.after es).call auth pid (.readMessages input)).1 = .ok (.messages r) ∧
          r.messages.length = min (rowLimit input.limit) unread.length) ∧
        unreadInbox auth ((pg.after es).next (.call auth pid (.readMessages input))).db = 0 := by
  intro unread
  have hreach : (pg.after es).Reachable := hpg.after es
  have hcount : unreadInbox auth (pg.after es).db = unread.length := by
    rw [unreadInbox_eq, backlog_after hpg auth.agentId auth.teamId auth.inbox hes]
  refine ⟨fun pid => ?_, fun pid input received grace => ?_, fun pid input hinbox hnew hview => ?_⟩
  · rw [← hcount]
    exact whoami_unread hauth pid
  · rw [← hcount]
    exact wait_unread hauth pid input received grace
  · obtain ⟨hread, hleft⟩ := drained_read hreach hauth pid (resolveScope_inl hinbox) hnew
    rw [inbox_window hview] at hread hleft
    rw [backlog_after hpg auth.agentId auth.teamId auth.inbox hes] at hread
    refine ⟨hread, ?_⟩
    rw [unreadInbox_eq, hleft]
    rfl

end
end CrewSync

namespace CrewSync.Sample
attribute [local instance] Platform.ascii

/-- Bob writes to ann, who reads everything but her inbox. -/
def glanced : List Event :=
  [.call bob 0 (.postMessage ⟨none, some "ann", false, "look at the tests", none, none, []⟩),
   .call ann 0 (.readMessages ⟨"all", true, 5, false⟩)]

/-- She has been given the message, and it counts as unread. -/
theorem glanced_unread :
    ((onePost.after (glanced.take 1)).hands 1 ⟨.all, "", false⟩ (.call ann 0 (.readMessages ⟨"all", true, 5, false⟩))) = [1, 2] ∧
      ∃ me, ((onePost.after glanced).call ann 0 .whoami).1 = .ok (.whoami me) ∧ me.unreadDirectMessages = 1 := by
  refine ⟨by decide, ?_⟩
  have hleaves : Runs.Along Pg.next (Pg.Leaves ann.agentId ann.inbox) onePost glanced := by
    refine ⟨⟨rfl, ?_⟩, ⟨rfl, ?_⟩, trivial⟩
    · rintro limit ⟨_, _, _, _, h, -⟩
      cases h
    · rintro limit ⟨auth, pid, input, scope, h, -, -, hscope, hwindow, -⟩
      cases h
      cases hscope
      exact absurd (congrArg Window.scope hwindow) (by decide)
  obtain ⟨me, hme, hcount⟩ := (@unread_counts Platform.ascii onePost Platform.ascii_lawfulUuid onePost_reachable ann glanced
    hleaves (by decide)).1 0
  have hlength : (onePost.backlog ann.agentId ann.teamId ann.inbox ++
      (onePost.after glanced).arrived onePost ann.agentId ann.teamId ann.inbox).length = 1 := by decide
  exact ⟨me, hme, hcount.trans (congrArg Int.ofNat hlength)⟩

end CrewSync.Sample
