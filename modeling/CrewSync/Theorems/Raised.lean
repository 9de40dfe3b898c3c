import CrewSync.Footprint.Teams
import CrewSync.Theorems.DrainFeed

/-! The Stop hook on the bus: the questions that it holds a session open for are the rows of the database that ask
    something of the session, and that its agent has not replied to. -/

namespace CrewSync.StopDrain
variable {asks : Json → Bool} {auth : AuthCtx} {pg : Pg}

/-- The message asks something of the session, of somebody else, and the agent has not replied to it. -/
structure Unanswered (asks : Json → Bool) (auth : AuthCtx) (db : Db) (m : Message) : Prop where
  mem : m ∈ db.messages
  recipient : m.recipientAgentId = some auth.agentId
  session : addressedTo auth.session m = true
  sender : m.senderAgentId ≠ auth.agentId
  question : asks m.metadata = true
  noReply : ∀ r ∈ db.messages, r.senderAgentId = auth.agentId → r.replyTo ≠ some m.id

/-- The log, message by message. -/
theorem mem_logOf_iff {db : Db} {x : Item} : x ∈ logOf asks auth db ↔
    ∃ m ∈ db.messages, Scope.all.visible auth false m = true ∧ (db.messageInfo? m).map (item asks) = some x := by
  simp only [logOf, List.mem_filterMap, List.mem_filter, and_assoc]

theorem item_id {db : Db} {m : Message} {x : Item} (h : (db.messageInfo? m).map (item asks) = some x) : x.id = m.id := by
  rw [item_messageInfo] at h
  obtain ⟨sender, -, rfl⟩ := Option.map_eq_some_iff.1 h
  rfl

theorem agentName_auth (hv : pg.Valid) (hauth : auth.authentic pg.db = true) :
    pg.db.agentName auth.agentId = some auth.agentName := by
  obtain ⟨a, ha, hsame⟩ := List.any_eq_true.1 (Bool.and_eq_true_iff.1 hauth).1
  simp only [Bool.and_eq_true, beq_iff_eq] at hsame
  rw [← hsame.1.1.1, agentName_eq hv.keys.agents ha, hsame.1.2]

/-- In its team, an agent is known by its name. -/
theorem sender_iff (hv : pg.Valid) (hauth : auth.authentic pg.db = true) {m : Message} (hm : m ∈ pg.db.messages)
    (hteam : m.teamId = auth.teamId) {name : String} (hname : pg.db.agentName m.senderAgentId = some name) :
    name = auth.agentName ↔ m.senderAgentId = auth.agentId := by
  constructor
  · rintro rfl
    obtain ⟨a, ha, hself⟩ := List.any_eq_true.1 (AuthCtx.authentic.caller hauth)
    obtain ⟨b, hb, hsender⟩ := List.any_eq_true.1 (hv.refs.senders m hm).2
    simp only [Bool.and_eq_true, beq_iff_eq] at hself hsender
    have hbname : b.name = auth.agentName := by
      rw [← hsender.1, agentName_eq hv.keys.agents hb] at hname
      exact Option.some.inj hname
    have haname : a.name = auth.agentName := by
      have := agentName_auth hv hauth
      rw [← hself.1, agentName_eq hv.keys.agents ha] at this
      exact Option.some.inj this
    have hsame : b = a := hv.keys.agentNames.eq hb ha
      (Prod.ext (hsender.2.trans (hteam.trans hself.2.symm)) (hbname.trans haname.symm))
    rw [← hsender.1, hsame, hself.1]
  · intro hsame
    rw [hsame, agentName_auth hv hauth] at hname
    exact (Option.some.inj hname).symm

/-- The agent has replied where the log says so. -/
theorem replied_iff (hv : pg.Valid) (hauth : auth.authentic pg.db = true) (id : Int) :
    replied auth.agentName (logOf asks auth pg.db) id = true ↔
      ∃ r ∈ pg.db.messages, r.senderAgentId = auth.agentId ∧ r.replyTo = some id := by
  simp only [replied, List.any_eq_true, Bool.and_eq_true, beq_iff_eq]
  constructor
  · rintro ⟨x, hx, hsender, hreply⟩
    obtain ⟨m, hm, hvisible, hx⟩ := mem_logOf_iff.1 hx
    rw [item_messageInfo] at hx
    obtain ⟨sender, hname, rfl⟩ := Option.map_eq_some_iff.1 hx
    have hteam : m.teamId = auth.teamId := beq_iff_eq.1 (Bool.and_eq_true_iff.1 hvisible).1
    exact ⟨m, hm, (sender_iff hv hauth hm hteam hname).1 hsender, hreply⟩
  · rintro ⟨m, hm, hsender, hreply⟩
    have hteam : m.teamId = auth.teamId :=
      hv.keys.agentIn_eq (AuthCtx.authentic.caller hauth) (hsender ▸ (hv.refs.senders m hm).2)
    have hname : pg.db.agentName m.senderAgentId = some auth.agentName := by
      rw [hsender]
      exact agentName_auth hv hauth
    have hvisible : Scope.all.visible auth false m = true := by simp [Scope.visible, hteam, hsender]
    have hitem := @item_messageInfo asks pg.db m
    rw [hname, Option.map_some] at hitem
    exact ⟨_, mem_logOf_iff.2 ⟨m, hm, hvisible, hitem⟩, rfl, hreply⟩

/-- The script never looks at whom a question is for: what the session sees of somebody else with a recipient is for it. -/
theorem isQuestion_iff (hv : pg.Valid) (hauth : auth.authentic pg.db = true) (hme : auth.agentName.isEmpty = false) {m : Message}
    (hm : m ∈ pg.db.messages) (hvisible : Scope.all.visible auth false m = true) {x : Item}
    (hx : (pg.db.messageInfo? m).map (item asks) = some x) :
    isQuestion auth.agentName x = true ↔ m.recipientAgentId = some auth.agentId ∧ addressedTo auth.session m = true ∧
      m.senderAgentId ≠ auth.agentId ∧ asks m.metadata = true := by
  rw [item_messageInfo] at hx
  obtain ⟨sender, hname, rfl⟩ := Option.map_eq_some_iff.1 hx
  obtain ⟨hteam, hview⟩ := Bool.and_eq_true_iff.1 hvisible
  have hsender := sender_iff hv hauth hm (beq_iff_eq.1 hteam) hname
  simp only [isQuestion, Bool.and_eq_true, bne_iff_ne, ne_eq, hsender, and_assoc]
  constructor
  · rintro ⟨hrecipient, hother, hasks⟩
    have hsome : m.recipientAgentId.isSome = true := by
      cases hnone : m.recipientAgentId with
      | none => simp [hnone] at hrecipient
      | some a => rfl
    have hchannel : m.channelId.isSome = false := by
      have := hv.refs.targets m hm
      rw [hsome] at this
      simpa using this
    simp only [hchannel, Bool.false_or, Bool.or_eq_true, beq_iff_eq, hother, or_false, Scope.inView, Bool.and_eq_true] at hview
    exact ⟨hview.1, hview.2, hother, hasks⟩
  · rintro ⟨hrecipient, -, hother, hasks⟩
    refine ⟨?_, hother, hasks⟩
    rw [hrecipient, Option.bind_some, agentName_auth hv hauth]
    simp [hme]

/-- A question of the log is open if and only if it is unanswered in the database. -/
theorem open_iff (hv : pg.Valid) (hauth : auth.authentic pg.db = true) (hme : auth.agentName.isEmpty = false) {m : Message}
    (hm : m ∈ pg.db.messages) (hvisible : Scope.all.visible auth false m = true) {x : Item}
    (hx : (pg.db.messageInfo? m).map (item asks) = some x) :
    open? auth.agentName (logOf asks auth pg.db) x = true ↔ Unanswered asks auth pg.db m := by
  rw [open?, Bool.and_eq_true, isQuestion_iff hv hauth hme hm hvisible hx, Bool.not_eq_true', item_id hx, ← Bool.not_eq_true,
    replied_iff hv hauth]
  constructor
  · rintro ⟨⟨hrecipient, hsession, hother, hasks⟩, hnone⟩
    exact ⟨hm, hrecipient, hsession, hother, hasks, fun r hr hself hreply => hnone ⟨r, hr, hself, hreply⟩⟩
  · rintro ⟨-, hrecipient, hsession, hother, hasks, hnone⟩
    refine ⟨⟨hrecipient, hsession, hother, hasks⟩, ?_⟩
    rintro ⟨r, hr, hself, hreply⟩
    exact hnone r hr hself hreply

variable [Platform]

/-- What waits in the window of the log is what is unanswered and served. -/
theorem waiting_iff (hpg : pg.Reachable) (hauth : auth.authentic pg.db = true) (hme : auth.agentName.isEmpty = false)
    (hall : parseScope "all" = .inl .all) (pid : Nat) (i : Int) :
    Waiting auth.agentName (logOf asks auth pg.db) i ↔
      ∃ m, Unanswered asks auth pg.db m ∧ m.id = i ∧ i ∈ (feedOf asks auth pid pg).map (·.id) := by
  have hv := hpg.valid
  rw [feed_window hpg hauth hall]
  constructor
  · rintro ⟨x, hx, rfl, hopen⟩
    obtain ⟨m, hm, hvisible, hitem⟩ := mem_logOf_iff.1 (List.mem_of_mem_drop hx)
    exact ⟨m, (open_iff hv hauth hme hm hvisible hitem).1 hopen, (item_id hitem).symm, List.mem_map_of_mem hx⟩
  · rintro ⟨m, hm, rfl, hserved⟩
    obtain ⟨x, hx, hid⟩ := List.mem_map.1 hserved
    obtain ⟨m', hm', hvisible, hitem⟩ := mem_logOf_iff.1 (List.mem_of_mem_drop hx)
    obtain rfl : m' = m := hv.keys.messages.eq hm' hm.mem ((item_id hitem).symm.trans hid)
    exact ⟨x, hx, hid, (open_iff hv hauth hme hm' hvisible hitem).2 hm⟩

theorem bus_reachable (now : Time) (steps : List BusStep) :
    (Runs.after (busNext asks auth) ⟨Pg.init now, [], []⟩ steps).pg.Reachable := by
  refine Runs.invariant (I := fun s : BusState => s.pg.Reachable) (fun s step hpg => ?_) (.init now) steps
  cases step with
  | event e => exact hpg.next e
  | hook pid => exact hpg

end CrewSync.StopDrain

namespace CrewSync.StopDrain
open Sample
attribute [local instance] Platform.ascii

/-- What the script reads of the metadata of a question. -/
def asksOf (metadata : Json) : Bool := metadata == "\x7b\"question\":true\x7d"

/-- Ann asks bob. -/
def ask (body : String) : BusStep :=
  .event (.call ann 0 (.postMessage ⟨none, some "bob", false, body, none, some "\x7b\"question\":true\x7d", []⟩))

/-- Ann asks, the hook holds bob's session open, and ann asks again. -/
def askedTwice : List BusStep := crew.map .event ++ [ask "ready?", .hook 0, ask "and the docs?"]

end CrewSync.StopDrain
