import CrewSync.Theorems.Unread

/-! What the counters say against what a read gives. The unread direct messages are those of the session's inbox, with a
    cursor of its own; what ends a wait at once is the backlog of everything that the session sees. -/

namespace CrewSync

section
variable [Platform] {pg : Pg} {auth : AuthCtx} {input : ReadInput}

/-! ### What is reported -/

/-- `whoami` and every wait report so many unread direct messages. -/
structure Pg.CountsUnread (pg : Pg) (auth : AuthCtx) (n : Nat) : Prop where
  whoami : ∀ pid, ∃ me, (pg.call auth pid .whoami).1 = .ok (.whoami me) ∧ me.unreadDirectMessages = n
  waits : ∀ pid input received grace, ∃ r, (pg.call auth pid (.waitForUpdates input received grace)).1 = .ok (.waited r) ∧
    r.unreadDirectMessages = n

theorem countsUnread_backlog (hauth : auth.authentic pg.db = true) :
    pg.CountsUnread auth (pg.backlog auth.agentId auth.teamId auth.inbox).length where
  whoami pid := by
    rw [← unreadInbox_eq]
    exact whoami_unread hauth pid
  waits pid input received grace := by
    rw [← unreadInbox_eq]
    exact wait_unread hauth pid input received grace

/-- A read leaves the caller authentic. -/
theorem authentic_read [Platform.LawfulUuid] (hpg : pg.Reachable) (hauth : auth.authentic pg.db = true) (pid : Nat) :
    auth.authentic (pg.next (.call auth pid (.readMessages input))).db = true := by
  obtain ⟨cursors, hnext, -⟩ := Pg.read_cursors hpg auth pid input
  rw [hnext]
  exact hauth

/-! ### Everything that the session sees -/

/-- The window of a read of everything. -/
def AuthCtx.everything (auth : AuthCtx) : Window := ⟨.all, auth.session, false⟩

omit [Platform] in
theorem everything_window {allSessions : Bool} (hview : allSessions = false) :
    Scope.all.window auth allSessions = auth.everything := by
  rw [hview]
  rfl

/-- What is pending is in the backlog of everything. -/
theorem pending_backlog {focus : Option Uuid} {m : Message} (hm : m ∈ pg.db.messages)
    (h : pendingFor auth focus (pg.db.lastRead auth.agentId (cursorScope "all" auth.session)) m = true) :
    m ∈ pg.backlog auth.agentId auth.teamId auth.everything := by
  simp only [pendingFor, Bool.and_eq_true, Bool.or_eq_true] at h
  obtain ⟨⟨⟨hteam, habove⟩, -⟩, hto⟩ := h
  refine List.mem_filter.2 ⟨hm, Bool.and_eq_true_iff.2 ⟨?_, habove⟩⟩
  simp only [Window.shows, AuthCtx.everything, Bool.and_eq_true, Bool.or_eq_true, Bool.false_or]
  exact ⟨hteam, .inl (hto.imp And.left id)⟩

theorem pending_of_read (h : pg.backlog auth.agentId auth.teamId auth.everything = []) (focus : Option Uuid) :
    (unreadAnything auth focus).exec pg = (.ok 0, pg) := by
  obtain ⟨n, hn, hpos⟩ := unreadAnything_exec auth focus pg
  have hnone : ¬ 0 < n := by
    rw [hpos]
    rintro ⟨m, hm, hpending⟩
    have hmem := pending_backlog hm hpending
    rw [h] at hmem
    cases hmem
  have hcount : (unreadAnything auth focus).exec pg = (.ok ((pg.db.messages.filter
      (pendingFor auth focus (pg.db.lastRead auth.agentId (cursorScope "all" auth.session)))).length : Int), pg) :=
    Bus.exec_select _ _
  obtain rfl : n = _ := Except.ok.inj (congrArg Prod.fst (hn.symm.trans hcount))
  rw [hcount]
  have hzero := le_antisymm (not_lt.1 hnone) (Int.natCast_nonneg _)
  rw [hzero]

/-- Then a wait that no event reaches times out. -/
theorem wait_of_read (hauth : auth.authentic pg.db = true) (h : pg.backlog auth.agentId auth.teamId auth.everything = [])
    (pid : Nat) (input : WaitInput) (grace : List BusEvent) :
    ∃ r, (pg.call auth pid (.waitForUpdates input [] grace)).1 = .ok (.waited r) ∧ r.woke = false := by
  obtain ⟨focus, hfocus⟩ := focusOf_exec auth input.allChannels pg
  have hdms : (unreadDms auth).exec pg = (.ok (unreadInbox auth pg.db), pg) := Bus.exec_select _ _
  rw [Pg.call, if_pos hauth, Call.run, Bus.exec_map, waitForUpdates, Bus.exec_bind_ok hfocus,
    Bus.exec_bind_ok (pending_of_read h focus), if_neg (by simp)]
  have hevents : (awaitEvents auth input.kinds focus grace []).exec pg = (.ok [], pg) := rfl
  rw [Bus.exec_bind_ok hevents, Bus.exec_bind_ok hdms]
  exact ⟨_, rfl, rfl⟩

omit [Platform] in
theorem le_rowLimit {n : Nat} {limit : Int} (h : (n : Int) ≤ limit) (hmax : limit ≤ 200) : n ≤ rowLimit limit := by
  unfold rowLimit clamp maxLimit
  split
  · omega
  · split <;> omega

/-- The counters and the reads agree. `whoami` and every wait report one number; it is how many messages a read of the inbox
    gives that has room for them, and none is left to report; and where anything is pending, a read of everything gives
    something, and leaves nothing pending under any focus, so that the next wait does not end at once. -/
theorem counters_agree [Platform.LawfulUuid] (hpg : pg.Reachable) (hauth : auth.authentic pg.db = true) :
    ∃ n : Nat, pg.CountsUnread auth n ∧
      (∀ pid input, parseScope input.scope = .inl .inbox → input.onlyNew = true → input.allSessions = false →
        ((n : Int) ≤ input.limit → input.limit ≤ 200 →
          ∃ r, (pg.call auth pid (.readMessages input)).1 = .ok (.messages r) ∧ r.messages.length = n) ∧
        (pg.next (.call auth pid (.readMessages input))).CountsUnread auth 0) ∧
      ∀ pid input, parseScope input.scope = .inl .all → input.onlyNew = true → input.allSessions = false →
        let pg' := pg.next (.call auth pid (.readMessages input))
        (∀ focus k, (unreadAnything auth focus).exec pg = (.ok k, pg) → 0 < k →
          ∃ r, (pg.call auth pid (.readMessages input)).1 = .ok (.messages r) ∧ r.messages ≠ []) ∧
        (∀ focus, (unreadAnything auth focus).exec pg' = (.ok 0, pg')) ∧
        ∀ pid' wait grace, ∃ r, (pg'.call auth pid' (.waitForUpdates wait [] grace)).1 = .ok (.waited r) ∧ r.woke = false := by
  refine ⟨_, countsUnread_backlog hauth, fun pid input hinbox hnew hview => ?_, fun pid input hall hnew hview => ?_⟩
  · obtain ⟨⟨r, hread, hlength⟩, hleft⟩ := drained_read hpg hauth pid (resolveScope_inl hinbox) hnew
    rw [inbox_window hview] at hlength hleft
    refine ⟨fun hroom hmax => ⟨r, hread, hlength.trans (min_eq_right (le_rowLimit hroom hmax))⟩, ?_⟩
    have hauth' : auth.authentic (pg.next (.call auth pid (.readMessages input))).db = true := authentic_read hpg hauth pid
    have hnone := countsUnread_backlog hauth'
    rwa [hleft] at hnone
  · intro pg'
    obtain ⟨⟨r, hread, hlength⟩, hleft⟩ := drained_read hpg hauth pid (resolveScope_inl hall) hnew
    rw [everything_window hview] at hlength hleft
    refine ⟨fun focus k hk hpos => ⟨r, hread, ?_⟩, pending_of_read hleft, fun pid' wait grace =>
      wait_of_read (authentic_read hpg hauth pid) hleft pid' wait grace⟩
    obtain ⟨n, hn, hsome⟩ := unreadAnything_exec auth focus pg
    obtain rfl : k = n := Except.ok.inj (congrArg Prod.fst (hk.symm.trans hn))
    obtain ⟨m, hm, hpending⟩ := hsome.1 hpos
    have hbacklog := List.length_pos_of_mem (pending_backlog hm hpending)
    have hlimit := rowLimit_pos input.limit
    exact List.ne_nil_of_length_pos (by omega)

/-! ### What was read under another scope -/

/-- Nothing will count the message again: in every later run it is none of the unread direct messages, and no read of what
    is new in the inbox gives it. -/
def Pg.Settled (pg : Pg) (auth : AuthCtx) (id : Int) : Prop :=
  ∀ es : List Event, (∀ m ∈ (pg.after es).backlog auth.agentId auth.teamId auth.inbox, m.id ≠ id) ∧
    ∀ pid input r, parseScope input.scope = .inl .inbox → input.onlyNew = true → input.allSessions = false →
      ((pg.after es).call auth pid (.readMessages input)).1 = .ok (.messages r) → ∀ info ∈ r.messages, info.id ≠ id

/-- The ids of messages that come in later are above those given out before. -/
theorem Pg.after_ids (hv : pg.Valid) (es : List Event) :
    ∀ m' ∈ (pg.after es).db.messages, (∃ m ∈ pg.db.messages, m.Same m') ∨ pg.seqs.messages < m'.id := by
  let I (pg' : Pg) : Prop := pg'.Valid ∧ pg.seqs.messages ≤ pg'.seqs.messages ∧
    ∀ m' ∈ pg'.db.messages, (∃ m ∈ pg.db.messages, m.Same m') ∨ pg.seqs.messages < m'.id
  suffices hstep : ∀ pg' e, I pg' → I (next pg' e) from
    (Runs.invariant hstep ⟨hv, le_rfl, fun m hm => .inl ⟨m, hm, .rfl⟩⟩ es).2.2
  rintro pg' e ⟨hv', hseq, hids⟩
  refine ⟨hv'.next e, hseq.trans (next_before hv' e).messages, fun m'' hm'' => ?_⟩
  rcases next_ids hv' e m'' hm'' with ⟨m', hm', hsame'⟩ | habove
  · have hid : m''.id = m'.id := by rw [hsame']
    rw [hid]
    exact (hids m' hm').imp_left fun ⟨m, hm, hsame⟩ => ⟨m, hm, hsame.trans hsame'⟩
  · exact .inr (hseq.trans_lt habove)

/-- A read of the session's inbox gives some of its backlog. -/
theorem mem_inbox_read {pid : Nat} {r : MessageList} (hinbox : parseScope input.scope = .inl .inbox)
    (hnew : input.onlyNew = true) (hview : input.allSessions = false)
    (hread : (pg.call auth pid (.readMessages input)).1 = .ok (.messages r)) {info : MessageInfo} (hinfo : info ∈ r.messages) :
    ∃ m ∈ pg.backlog auth.agentId auth.teamId auth.inbox, m.id = info.id := by
  rw [call_read (Pg.authentic_of_call hread) pid (resolveScope_inl hinbox)] at hread
  cases hread
  obtain ⟨m, hm, hvisible, habove, hid⟩ := mem_readList hinfo
  refine ⟨m, List.mem_filter.2 ⟨hm, ?_⟩, hid⟩
  rw [← inbox_window hview, Window.shows_eq, hvisible, Bool.true_and, decide_eq_true_eq, Scope.window_key]
  rw [Db.readFrom, if_pos hnew] at habove
  exact habove

/-- A message is settled if and only if it is none of the inbox or was read there. -/
theorem settled_iff (hpg : pg.Reachable) {m : Message} (hm : m ∈ pg.db.messages) :
    pg.Settled auth m.id ↔
      (auth.inbox.shows auth.agentId auth.teamId m = true → m.id ≤ pg.db.lastRead auth.agentId auth.inbox.key) := by
  constructor
  · intro hsettled hshows
    by_contra hunread
    refine (hsettled []).1 m (List.mem_filter.2 ⟨hm, ?_⟩) rfl
    rw [hshows, Bool.true_and, decide_eq_true_eq]
    exact not_le.1 hunread
  · intro hread es
    have hnone : ∀ m' ∈ (pg.after es).backlog auth.agentId auth.teamId auth.inbox, m'.id ≠ m.id := by
      intro m' hm' hid
      obtain ⟨hmem, hunread⟩ := List.mem_filter.1 hm'
      rw [Bool.and_eq_true, decide_eq_true_eq, hid] at hunread
      have hcursor := Pg.after_lastRead hpg.valid es auth.agentId auth.inbox.key
      rcases Pg.after_ids hpg.valid es m' hmem with ⟨m₀, hm₀, hsame⟩ | habove
      · -- It is the message itself, which was read before.
        obtain rfl : m₀ = m := Rows.Keyed.eq hpg.valid.keys.messages hm₀ hm (by rw [← hid, hsame])
        rw [Window.shows_same _ _ _ hsame] at hunread
        exact absurd ((hread hunread.1).trans hcursor) (not_le_of_gt hunread.2)
      · rw [hid] at habove
        exact absurd (hpg.valid.keys.messagesBelow m hm) (not_le_of_gt habove)
    refine ⟨hnone, fun pid input r hinbox hnew hview hcall info hinfo => ?_⟩
    obtain ⟨m', hm', hid⟩ := mem_inbox_read hinbox hnew hview hcall hinfo
    rw [← hid]
    exact hnone m' hm'

/-- A read of everything leaves the cursor of the inbox. -/
theorem inbox_of_all [Platform.LawfulUuid] (hpg : pg.Reachable) (hall : parseScope input.scope = .inl .all) (pid : Nat) :
    (pg.next (.call auth pid (.readMessages input))).db.lastRead auth.agentId auth.inbox.key =
      pg.db.lastRead auth.agentId auth.inbox.key := by
  refine Pg.read_lastRead hpg pid fun _ hreads => ?_
  obtain ⟨scope, hscope, hwindow⟩ := hreads
  rw [resolveScope_inl hall] at hscope
  cases hscope
  cases hwindow

/-- What a read of everything gives is no longer counted afterwards if and only if the message is none of the session's
    inbox, or its inbox was read up to it before; for what `whoami` and every wait report is the backlog of the inbox. -/
theorem read_settled_iff [Platform.LawfulUuid] (hpg : pg.Reachable) (hauth : auth.authentic pg.db = true) (pid : Nat)
    (hall : parseScope input.scope = .inl .all) :
    let pg' := pg.next (.call auth pid (.readMessages input))
    (∀ es, auth.authentic (pg'.after es).db = true →
      (pg'.after es).CountsUnread auth ((pg'.after es).backlog auth.agentId auth.teamId auth.inbox).length) ∧
    ∃ r, (pg.call auth pid (.readMessages input)).1 = .ok (.messages r) ∧ ∀ info ∈ r.messages,
      ∃ m ∈ pg.db.messages, m.id = info.id ∧ (pg'.Settled auth info.id ↔
        (auth.inbox.shows auth.agentId auth.teamId m = true → m.id ≤ pg.db.lastRead auth.agentId auth.inbox.key)) := by
  intro pg'
  have hread := call_read hauth pid (resolveScope_inl hall)
  refine ⟨fun es hauth' => countsUnread_backlog hauth', _, congrArg Prod.fst hread, fun info hinfo => ?_⟩
  obtain ⟨m, hm, -, -, hid⟩ := mem_readList hinfo
  refine ⟨m, hm, hid, ?_⟩
  obtain ⟨cursors, hnext, -⟩ := Pg.read_cursors hpg auth pid input
  have hm' : m ∈ pg'.db.messages := by
    rw [show pg' = _ from hnext]
    exact hm
  rw [← hid, settled_iff (hpg.next _) hm', inbox_of_all hpg hall pid]

end
end CrewSync

namespace CrewSync.Sample
attribute [local instance] Platform.ascii

/-- Bob writes to ann. -/
def alerted : Pg := onePost.next (.call bob 0 (.postMessage ⟨none, some "ann", false, "the build is red", none, none, []⟩))

theorem alerted_reachable : alerted.Reachable := onePost_reachable.next _

/-- One direct message is reported, a read of the inbox gives it, and then none is reported; and after a read of everything
    a wait does not end at once. -/
theorem alerted_agrees : alerted.CountsUnread ann 1 ∧
    (∃ r, (alerted.call ann 0 (.readMessages ⟨"inbox", true, 5, false⟩)).1 = .ok (.messages r) ∧ r.messages.length = 1) ∧
    (alerted.next (.call ann 0 (.readMessages ⟨"inbox", true, 5, false⟩))).CountsUnread ann 0 ∧
    let pg := alerted.next (.call ann 0 (.readMessages ⟨"", true, 5, false⟩))
    ∃ r, (pg.call ann 0 (.waitForUpdates ⟨none, none, false⟩ [] [])).1 = .ok (.waited r) ∧ r.woke = false := by
  obtain ⟨n, hreports, hinbox, hall⟩ := @counters_agree Platform.ascii alerted ann Platform.ascii_lawfulUuid alerted_reachable
    (by decide)
  obtain rfl : n = 1 := by
    obtain ⟨me, hme, hn⟩ := hreports.whoami 0
    obtain ⟨me', hme', hone⟩ := @whoami_unread Platform.ascii alerted ann (by decide) 0
    rw [hme] at hme'
    cases hme'
    rw [hn] at hone
    have hcount : unreadInbox ann alerted.db = 1 := by decide
    omega
  obtain ⟨hread, hnone⟩ := hinbox 0 ⟨"inbox", true, 5, false⟩ rfl rfl rfl
  obtain ⟨-, -, hwaits⟩ := hall 0 ⟨"", true, 5, false⟩ rfl rfl rfl
  exact ⟨hreports, hread (by decide) (by decide), hnone, hwaits 0 ⟨none, none, false⟩ []⟩

/-- Ann is given bob's message by a read of everything; it still counts as unread, and her inbox gives it once more. -/
theorem alerted_twice :
    (∃ m ∈ alerted.db.messages, m.id = 2 ∧ m.recipientAgentId = some ann.agentId) ∧
    (∃ r, (alerted.call ann 0 (.readMessages ⟨"", true, 5, false⟩)).1 = .ok (.messages r) ∧ 2 ∈ r.messages.map (·.id)) ∧
    let pg := alerted.next (.call ann 0 (.readMessages ⟨"", true, 5, false⟩))
    (∃ me, (pg.call ann 0 .whoami).1 = .ok (.whoami me) ∧ me.unreadDirectMessages = 1) ∧
      ∃ r, (pg.call ann 0 (.readMessages ⟨"inbox", true, 5, false⟩)).1 = .ok (.messages r) ∧ r.messages.map (·.id) = [2] := by
  refine ⟨by decide, ?_, ?_, ?_⟩
  · have hread := @call_read Platform.ascii alerted ann (by decide) 0 ⟨"", true, 5, false⟩ .all rfl
    exact ⟨_, congrArg Prod.fst hread, by decide⟩
  · obtain ⟨me, hme, hcount⟩ := @whoami_unread Platform.ascii
      (alerted.next (.call ann 0 (.readMessages ⟨"", true, 5, false⟩))) ann (by decide) 0
    exact ⟨me, hme, hcount.trans (by decide)⟩
  · have hread := @call_read Platform.ascii (alerted.next (.call ann 0 (.readMessages ⟨"", true, 5, false⟩))) ann (by decide) 0
      ⟨"inbox", true, 5, false⟩ .inbox rfl
    exact ⟨_, congrArg Prod.fst hread, by decide⟩

/-- Ann reads her inbox. -/
def opened : Pg := alerted.next (.call ann 0 (.readMessages ⟨"inbox", true, 5, false⟩))

/-- A read of everything gives her the message once more, and nothing counts it. -/
theorem opened_settled : ∃ r, (opened.call ann 0 (.readMessages ⟨"", true, 5, false⟩)).1 = .ok (.messages r) ∧
    ∃ info ∈ r.messages, info.id = 2 ∧ (opened.next (.call ann 0 (.readMessages ⟨"", true, 5, false⟩))).Settled ann info.id := by
  have hauth : ann.authentic opened.db = true := by decide
  have hlist := congrArg Prod.fst (@call_read Platform.ascii opened ann hauth 0 ⟨"", true, 5, false⟩ .all rfl)
  have hids : 2 ∈ (opened.db.readList ann .all ⟨"", true, 5, false⟩).messages.map (·.id) := by decide
  obtain ⟨-, r, hread, hiff⟩ := @read_settled_iff Platform.ascii opened ann ⟨"", true, 5, false⟩ Platform.ascii_lawfulUuid
    (alerted_reachable.next _) hauth 0 rfl
  rw [hlist] at hread
  cases hread
  obtain ⟨info, hinfo, hid⟩ := List.mem_map.1 hids
  obtain ⟨m, -, hmid, hsettled⟩ := hiff info hinfo
  refine ⟨_, hlist, info, hinfo, hid, hsettled.2 fun _ => ?_⟩
  rw [hmid, hid]
  decide

end CrewSync.Sample
