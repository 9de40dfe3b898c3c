import CrewSync.Footprint.Notices
import CrewSync.Theorems.Draining
import CrewSync.Theorems.Reading

/-! The feed that the bus serves to the Stop hook is the window of a log that only grows: a run of the server without a
    prune is a run of messages that arrive. -/

namespace CrewSync.StopDrain

section
variable {asks : Json → Bool} {auth : AuthCtx} {pg : Pg} {db : Db}

/-! ### The log grows -/

/-- The log after one more message. -/
def arrive (log : List Item) (m : Item) : List Item := if follows log m then log ++ [m] else log

/-- One log comes from another by messages that arrive. -/
def Grows (log log' : List Item) : Prop := ∃ ms : List Item, ms.foldl arrive log = log'

theorem Grows.refl (log : List Item) : Grows log log := ⟨[], rfl⟩

theorem Grows.trans {a b c : List Item} (h : Grows a b) (h' : Grows b c) : Grows a c := by
  obtain ⟨ms, rfl⟩ := h
  obtain ⟨ms', rfl⟩ := h'
  exact ⟨ms ++ ms', List.foldl_append⟩

theorem Grows.one {log : List Item} {m : Item} (h : follows log m = true) : Grows log (log ++ [m]) :=
  ⟨[m], by rw [List.foldl_cons, List.foldl_nil, arrive, if_pos h]⟩

/-- What the script reads of a message needs the names of the agents only. -/
theorem item_messageInfo (db : Db) (m : Message) : (db.messageInfo? m).map (item asks) =
    (db.agentName m.senderAgentId).map fun sender =>
      { id := m.id, sender, senderSession := nonEmpty m.senderSession, recipient := m.recipientAgentId.bind db.agentName
        replyTo := m.replyTo, question := asks m.metadata, body := m.body } := by
  unfold Db.messageInfo?
  cases db.agentName m.senderAgentId <;> rfl

/-- The log depends on the messages, and on the names of their agents. -/
theorem logOf_congr {db db' : Db} (hmessages : db'.messages = db.messages)
    (hnames : ∀ m ∈ db.messages, db'.agentName m.senderAgentId = db.agentName m.senderAgentId ∧
      m.recipientAgentId.bind db'.agentName = m.recipientAgentId.bind db.agentName) :
    logOf asks auth db' = logOf asks auth db := by
  unfold logOf
  rw [hmessages]
  refine List.filterMap_congr fun m hm => ?_
  obtain ⟨hsender, hrecipient⟩ := hnames m (List.mem_filter.1 hm).1
  rw [item_messageInfo, item_messageInfo, hsender, hrecipient]

theorem mem_logOf {x : Item} (h : x ∈ logOf asks auth db) : ∃ m ∈ db.messages, x.id = m.id := by
  obtain ⟨m, hm, hx⟩ := List.mem_filterMap.1 h
  rw [item_messageInfo] at hx
  obtain ⟨sender, -, rfl⟩ := Option.map_eq_some_iff.1 hx
  exact ⟨m, (List.mem_filter.1 hm).1, rfl⟩

theorem agentName_eq (hk : Rows.Keyed (·.id) db.agents) {a : Agent} (ha : a ∈ db.agents) : db.agentName a.id = some a.name := by
  have hfind : db.agents.find? (·.id == a.id) = some a :=
    hk.find?_eq_some ha (beq_self_eq_true _) fun r _ h => beq_iff_eq.1 h
  rw [Db.agentName, hfind]
  rfl

/-- An agent that is there keeps its name. -/
theorem agentName_putAgent {seqs : Seqs} (hk : db.Keys seqs) {r : Agent}
    (hr : ∀ b ∈ db.agents, b.id = r.id ↔ Db.agentKey b = Db.agentKey r) {id team : Uuid} (hid : db.agentIn id team = true) :
    ((Write.putAgent r).apply db).agentName id = db.agentName id := by
  obtain ⟨a, ha, hsame⟩ := List.any_eq_true.1 hid
  obtain rfl := beq_iff_eq.1 (Bool.and_eq_true_iff.1 hsame).1
  rw [agentName_eq hk.agents ha]
  by_cases heq : a.id = r.id
  · rw [heq, agentName_eq (hk.agents.put r) (Rows.mem_put.2 (.inl rfl))]
    exact congrArg some (congrArg Prod.snd ((hr a ha).1 heq)).symm
  · exact agentName_eq (hk.agents.put r) (Rows.mem_put.2 (.inr ⟨ha, heq⟩))

theorem grows_apply {base seqs : Seqs} {w : Write} (hk : db.Keys seqs) (hr : db.Refs) (hw : w.Legal base seqs db)
    (hkeep : ∀ p, w ≠ .deleteMessages p) : Grows (logOf asks auth db) (logOf asks auth (w.apply db)) := by
  cases w with
  | insertMessage r =>
    have hlog : logOf asks auth ((Write.insertMessage r).apply db) = logOf asks auth db ++
        logOf asks auth { db with messages := [r] } := by
      simp only [logOf, Write.apply, List.filter_append, List.filterMap_append]
      rfl
    rw [hlog]
    cases hone : logOf asks auth { db with messages := [r] } with
    | nil =>
      rw [List.append_nil]
      exact .refl _
    | cons x rest =>
      have hlength : (logOf asks auth { db with messages := [r] }).length ≤ 1 :=
        (List.length_filterMap_le ..).trans (List.length_filter_le ..)
      rw [hone, List.length_cons] at hlength
      obtain rfl : rest = [] := List.length_eq_zero_iff.1 (by omega)
      have hx : x ∈ logOf asks auth { db with messages := [r] } := hone ▸ List.mem_cons_self
      obtain ⟨m, hm, hitem⟩ := List.mem_filterMap.1 hx
      obtain rfl : m = r := List.mem_singleton.1 (List.mem_filter.1 hm).1
      rw [item_messageInfo] at hitem
      obtain ⟨sender, -, rfl⟩ := Option.map_eq_some_iff.1 hitem
      refine .one (Bool.and_eq_true_iff.2 ⟨List.all_eq_true.2 fun y hy => ?_, ?_⟩)
      · obtain ⟨m', hm', hid⟩ := mem_logOf hy
        exact decide_eq_true (hid ▸ hw.2.2.1 m' hm')
      · dsimp only
        cases hreply : m.replyTo with
        | none => rfl
        | some i =>
          obtain ⟨m', hm', hsame⟩ := List.any_eq_true.1 (hw.2.1 i hreply)
          have hid : m'.id = i := (Bool.and_eq_true_iff.1 hsame).1 |> beq_iff_eq.1
          exact decide_eq_true (hid ▸ hw.2.2.1 m' hm')
  | putAgent r =>
    have hsame : logOf asks auth ((Write.putAgent r).apply db) = logOf asks auth db := by
      refine logOf_congr rfl fun m hm => ⟨agentName_putAgent hk hw.2 (hr.senders m hm).2, ?_⟩
      cases hrecipient : m.recipientAgentId with
      | none => rfl
      | some id => exact agentName_putAgent hk hw.2 (hr.recipients m hm id hrecipient)
    rw [hsame]
    exact .refl _
  | putChannel r =>
    have hsame : logOf asks auth ((Write.putChannel r).apply db) = logOf asks auth db := logOf_congr rfl fun _ _ => ⟨rfl, rfl⟩
    rw [hsame]
    exact .refl _
  | insertAttachment r =>
    have hsame : logOf asks auth ((Write.insertAttachment r).apply db) = logOf asks auth db :=
      logOf_congr rfl fun _ _ => ⟨rfl, rfl⟩
    rw [hsame]
    exact .refl _
  | deleteMessages p => exact absurd rfl (hkeep p)
  | _ => exact .refl _

/-- Every event but a prune lets messages arrive, if it does anything to the log. -/
theorem grows_next [Platform] (hv : pg.Valid) {e : Event} (he : Pg.isPrune e = false) :
    Grows (logOf asks auth pg.db) (logOf asks auth (pg.next e).db) := by
  have hlift := @Pg.next_lift _ pg hv e fun a b => Grows (logOf asks auth a) (logOf asks auth b)
  cases e with
  | call who pid c =>
    refine (Pg.call_wrote hv who pid c).lift (R := fun a b => Grows (logOf asks auth a) (logOf asks auth b)) hv
      (fun _ => .refl _) (fun h h' => h.trans h') fun _ db w hk hr hw h => grows_apply hk hr hw fun p hp => ?_
    have := h.author
    rwa [hp] at this
  | command pid c =>
    refine hlift (fun _ => .refl _) (fun h h' => h.trans h') fun _ db w hk hr hw ht => grows_apply hk hr hw fun p hp => ?_
    rw [hp] at ht
    have hmem : Table.messages ∈ Event.writes (.command pid c) := ht List.mem_cons_self
    cases c with
    | teamPrune team days apply => cases he
    | _ => simp [Event.writes, Command.writes] at hmem
  | _ =>
    refine hlift (fun _ => .refl _) (fun h h' => h.trans h') fun _ db w hk hr hw ht => grows_apply hk hr hw fun p hp => ?_
    rw [hp] at ht
    have hmem := ht List.mem_cons_self
    simp [Event.writes] at hmem

/-! ### The feed -/

/-- In a table in the order of its ids, the newest rows are the last ones. -/
theorem newest_inOrder (h : db.InOrder) (p : Message → Bool) (limit : Int) :
    let infos := (db.messages.filter p).filterMap db.messageInfo?
    (db.newest p limit).reverse = infos.drop (infos.length - limit.toNat) := by
  have hids : (db.messages.filter p).Pairwise fun a b => a.id < b.id := h.increasing.filter p
  have hkeyed : Rows.Keyed (·.id) (db.messages.filter p) := (List.pairwise_map.2 hids).imp ne_of_lt
  have hreverse : Rows.orderBy (fun a b => b.id ≤ a.id) (db.messages.filter p) = (db.messages.filter p).reverse := by
    have hdesc : (db.messages.filter p).reverse.Pairwise fun a b => b.id < a.id := List.pairwise_reverse.2 hids
    exact (Rows.orderBy_perm.trans (List.reverse_perm _).symm).eq_of_pairwise
      (fun a b _ _ hab hba => absurd hab hba.asymm) (Rows.orderBy_desc hkeyed) hdesc
  rw [Db.newest, hreverse, List.filterMap_reverse, List.reverse_take, List.reverse_reverse, List.length_reverse]

variable [Platform]

/-- What the bus serves to the hook is the window of the log. -/
theorem feed_window (hpg : pg.Reachable) (hauth : auth.authentic pg.db = true) (hall : parseScope "all" = .inl .all)
    (pid : Nat) : feedOf asks auth pid pg = window (logOf asks auth pg.db) := by
  have hscope : ((resolveScope auth "all").exec pg).1 = .ok .all := by
    rw [resolveScope, hall]
    rfl
  have horder := hpg.inOrder.2
  have hseen : (pg.db.messages.filter fun m => Scope.all.visible auth false m && decide (0 < m.id)) =
      pg.db.messages.filter (Scope.all.visible auth false) :=
    List.filter_congr fun m hm => by rw [decide_eq_true (horder.positive m hm), Bool.and_true]
  rw [feedOf, @call_read _ pg auth hauth pid ⟨"all", false, 50, false⟩ .all hscope]
  change (pg.db.newest (fun m => Scope.all.visible auth false m && decide (0 < m.id)) (clamp 50 1 maxLimit)).reverse.map
    (item asks) = _
  rw [newest_inOrder horder, hseen, List.map_drop, window, logOf, ← List.map_filterMap, List.length_map]
  rfl

theorem whoOf_eq (hauth : auth.authentic pg.db = true) (pid : Nat) : whoOf auth pid pg = auth.agentName := by
  obtain ⟨channel, hchannel⟩ : ∃ channel, (defaultChannel auth).exec pg = (.ok channel, pg) := by
    unfold defaultChannel
    split <;> exact ⟨_, rfl⟩
  rw [whoOf, Pg.call, if_pos hauth, Call.run, Bus.exec_map]
  unfold whoami
  simp only [Bus.exec_bind, Bus.exec_select, hchannel, Bus.exec_pure, Except.map]

/-! ### Runs of the server and of the hook -/

/-- The server, with what the session's file holds and what was raised. -/
structure BusState where
  pg : Pg
  stored : List Int
  raised : List Int

inductive BusStep where
  | event (e : Event)
  | hook (pid : Nat)

variable (asks auth) in
def busNext (s : BusState) : BusStep → BusState
  | .event e => { s with pg := s.pg.next e }
  | .hook pid =>
    let (block, stored) := drain (whoOf auth pid s.pg) (feedOf asks auth pid s.pg) s.stored
    { s with stored, raised := (block.map (·.messageId)).toList ++ s.raised }

/-- The step does not take messages away. -/
def BusStep.keeps : BusStep → Bool
  | .event e => !Pg.isPrune e
  | .hook _ => true

/-- The state of the hook that the state of the server stands for. -/
def BusState.view (s : BusState) (asks : Json → Bool) (auth : AuthCtx) : State :=
  ⟨logOf asks auth s.pg.db, s.stored, s.raised⟩

omit [Platform] in
/-- Messages that arrive, as steps. -/
theorem after_arrive (me : String) (s : State) (ms : List Item) :
    Runs.after (next me) s (ms.map .arrive) = { s with log := ms.foldl arrive s.log } := by
  induction ms generalizing s with
  | nil => rfl
  | cons m ms ih =>
    rw [List.map_cons, Runs.after_cons, ih, List.foldl_cons, arrive]
    simp only [next]
    split <;> rfl

/-- A step of the server and the hook is a few steps of the hook's own machine. -/
theorem busNext_steps {s : BusState} (hpg : s.pg.Reachable) (hall : parseScope "all" = .inl .all) {step : BusStep}
    (hkeeps : step.keeps = true) : ∃ steps,
      (busNext asks auth s step).view asks auth = Runs.after (next auth.agentName) (s.view asks auth) steps := by
  cases step with
  | event e =>
    have hevent : Pg.isPrune e = false := by simpa [BusStep.keeps] using hkeeps
    have hgrows : Grows (logOf asks auth s.pg.db) (logOf asks auth (s.pg.next e).db) := grows_next hpg.valid hevent
    obtain ⟨ms, hms⟩ := hgrows
    refine ⟨ms.map .arrive, ?_⟩
    rw [after_arrive, BusState.view, BusState.view]
    simp only [hms]
    rfl
  | hook pid =>
    by_cases hauth : auth.authentic s.pg.db = true
    · refine ⟨[.hook], ?_⟩
      simp only [busNext, feed_window hpg hauth hall, whoOf_eq hauth]
      rfl
    · refine ⟨[], ?_⟩
      have hwho : whoOf auth pid s.pg = "" := by
        rw [whoOf, Pg.call, if_neg hauth]
      simp only [busNext, hwho]
      rfl

/-- The server and the hook, in any order, do what some run of the hook's own machine does. -/
theorem bus_run (hall : parseScope "all" = .inl .all) (now : Time) (steps : List BusStep)
    (hkeeps : ∀ step ∈ steps, step.keeps = true) : ∃ steps',
      (Runs.after (busNext asks auth) ⟨Pg.init now, [], []⟩ steps).view asks auth = run auth.agentName steps' := by
  have hrun : (Runs.after (busNext asks auth) ⟨Pg.init now, [], []⟩ steps).pg.Reachable ∧ ∃ steps',
      (Runs.after (busNext asks auth) ⟨Pg.init now, [], []⟩ steps).view asks auth = run auth.agentName steps' := by
    induction steps using List.reverseRecOn with
    | nil => exact ⟨.init now, [], rfl⟩
    | append_singleton steps step ih =>
      obtain ⟨hpg, steps', hsteps⟩ := ih fun step hstep => hkeeps step (List.mem_append_left _ hstep)
      rw [Runs.after_append, Runs.after_cons, Runs.after_nil]
      refine ⟨?_, ?_⟩
      · cases step with
        | event e => exact hpg.next e
        | hook pid => exact hpg
      · obtain ⟨more, hmore⟩ := busNext_steps hpg hall (hkeeps step (List.mem_append_right _ List.mem_cons_self))
        refine ⟨steps' ++ more, ?_⟩
        rw [hmore, hsteps, run, run, Runs.after_append]
  exact hrun.2

/-- What is known of the hook's own machine is known of the hook on the bus. -/
theorem bus_inv (hall : parseScope "all" = .inl .all) (hme : auth.agentName.isEmpty = false) (now : Time) (steps : List BusStep)
    (hkeeps : ∀ step ∈ steps, step.keeps = true) :
    Inv ((Runs.after (busNext asks auth) ⟨Pg.init now, [], []⟩ steps).view asks auth) := by
  obtain ⟨steps', hsteps⟩ := bus_run hall now steps hkeeps
  rw [hsteps]
  exact inv_run hme steps'

end
end CrewSync.StopDrain
