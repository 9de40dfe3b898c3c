import CrewSync.Theorems.Sessions

/-! Addresses. `parse_address` splits at the first `/`, which `normalize_session` keeps out of the labels and `agent_add`
    lets into the names of agents. -/

namespace CrewSync
section

/-! ### Splitting -/

theorem splitSlash_none_iff {s : String} : splitSlash s = none ↔ '/' ∉ s.toList := by
  unfold splitSlash
  dsimp only
  split
  · next h => exact iff_of_false (by simp) (by simpa using h)
  · next h => exact iff_of_true rfl (by simpa using h)

theorem splitSlash_append {agent : String} (h : '/' ∉ agent.toList) (session : String) :
    splitSlash (agent ++ "/" ++ session) = some (agent, session) := by
  have hpos : ∀ c ∈ agent.toList, (c != '/') = true := by
    intro c hc
    rw [bne_iff_ne]
    rintro rfl
    exact h hc
  have htext : (agent ++ "/" ++ session).toList = agent.toList ++ '/' :: session.toList := by
    rw [String.toList_append, String.toList_append, List.append_assoc]
    rfl
  unfold splitSlash
  dsimp only
  rw [htext, if_pos (by simp), List.takeWhile_append_of_pos hpos, List.dropWhile_append_of_pos hpos,
    List.takeWhile_cons_of_neg (by decide), List.dropWhile_cons_of_neg (by decide), List.append_nil, List.drop_one,
    List.tail_cons, String.ofList_toList, String.ofList_toList]

/-- An address is its agent and its session, if the agent has no `/`. -/
theorem addressOf_inj {agent agent' : String} {session session' : Option String} (h : '/' ∉ agent.toList)
    (h' : '/' ∉ agent'.toList) (heq : addressOf agent session = addressOf agent' session') :
    agent = agent' ∧ session = session' := by
  have hsplit : ∀ {agent : String}, '/' ∉ agent.toList → ∀ session : Option String,
      splitSlash (addressOf agent session) = session.map (agent, ·) := by
    intro agent h session
    cases session with
    | none => exact splitSlash_none_iff.2 h
    | some s => exact splitSlash_append h s
  have hsame := (hsplit h session).symm.trans ((congrArg splitSlash heq).trans (hsplit h' session'))
  cases session with
  | none =>
    cases session' with
    | none => exact ⟨heq, rfl⟩
    | some s' => cases hsame
  | some s =>
    cases session' with
    | none => cases hsame
    | some s' =>
      obtain ⟨rfl, rfl⟩ := Prod.mk.inj (Option.some.inj hsame)
      exact ⟨rfl, rfl⟩

end

section
variable [Platform] {agent label : String} {session : Option String}

/-! ### Names -/

/-- What `agent_add` makes sure of. -/
structure Named (name : String) : Prop where
  trimmed : trim name = name
  nonempty : name.isEmpty = false

/-- An agent is read back from its bare name just when that has no `/`. -/
theorem parseAddress_name_iff (h : Named agent) : parseAddress agent = .ok (agent, none) ↔ '/' ∉ agent.toList := by
  rw [← splitSlash_none_iff]
  unfold parseAddress
  dsimp only
  rw [h.trimmed]
  constructor
  · intro hparse
    cases hsplit : splitSlash agent with
    | none => rfl
    | some r =>
      rcases r with ⟨before, session⟩
      rw [hsplit] at hparse
      dsimp only at hparse
      split at hparse
      · cases hparse
      · split at hparse
        · cases hparse
        · split at hparse
          · cases hparse
          · cases hparse
  · intro hsplit
    rw [hsplit]

/-- The agent of an address is trimmed. -/
theorem parseAddress_trimmed {address : String} (h : parseAddress address = .ok (agent, session)) : trim agent = agent := by
  unfold parseAddress at h
  dsimp only at h
  split at h
  · obtain ⟨rfl, -⟩ := Prod.mk.inj (Except.ok.inj h)
    exact trim_trim address
  · split at h
    · cases h
    · split at h
      · cases h
      · split at h
        · cases h
        · obtain ⟨rfl, -⟩ := Prod.mk.inj (Except.ok.inj h)
          exact trim_trim _

section
variable [Platform.LawfulLower]

/-- An agent and a session are read back from their address. -/
theorem parseAddress_addressOf (h : Named agent) (hslash : '/' ∉ agent.toList) (hsession : ∀ s ∈ session, IsSession s) :
    parseAddress (addressOf agent session) = .ok (agent, session) := by
  cases session with
  | none => exact (parseAddress_name_iff h).2 hslash
  | some s =>
    obtain ⟨raw, hraw, hempty⟩ := hsession s rfl
    obtain ⟨hself, hcanonical⟩ := normalizeSession_canonical hraw
    have htext : addressOf agent (some s) = agent ++ "/" ++ s := rfl
    have hne : ∀ {t : String}, t.isEmpty = false → t.toList ≠ [] := by
      intro t ht hnil
      rw [String.toList_eq_nil_iff] at hnil
      rw [hnil] at ht
      cases ht
    have htrim : trim (agent ++ "/" ++ s) = agent ++ "/" ++ s := by
      rw [trim_eq_self_iff, String.toList_append, String.toList_append]
      exact (trim_eq_self_iff.1 h.trimmed).append (trim_eq_self_iff.1 hcanonical.trimmed) (hne h.nonempty) (hne hempty) _
    unfold parseAddress
    dsimp only
    rw [htext, htrim, splitSlash_append hslash]
    dsimp only
    rw [h.trimmed, if_neg (by simp [h.nonempty]), hself]
    dsimp only
    rw [if_neg (by simp [hempty])]

end

/-! ### The names of agents -/

section
variable [Platform.LawfulLower] {pg : Pg}
open Platform LawfulLower

def Db.AgentsNamed (db : Db) : Prop := ∀ a ∈ db.agents, Named a.name

omit [Platform] [Platform.LawfulLower] in
theorem Db.AgentsNamed.put {db : Db} (h : db.AgentsNamed) {a : Agent} (ha : Named a.name) :
    ((Write.putAgent a).apply db).AgentsNamed := by
  intro b hb
  rcases Rows.mem_put.1 hb with rfl | ⟨hb, -⟩
  · exact ha
  · exact h b hb

theorem agentAdd_named (team raw : String) (displayName : Option String) :
    Bus.Moves (fun pg pg' => pg.db.AgentsNamed → pg'.db.AgentsNamed) (Admin.agentAdd team raw displayName) := by
  refine .reads (fun _ h => h) teamId_readOnly fun id => ?_
  by_cases hempty : (toLowercase (trim raw)).isEmpty = true
  · rw [if_pos hempty]
    exact .throw_bind fun _ h => h
  rw [if_neg hempty]
  have hclean : Named (toLowercase (trim raw)) := ⟨by rw [← lower_trim, trim_trim], by simpa using hempty⟩
  intro pg hnamed
  rw [Bus.exec_execute]
  dsimp only [Sql.effect, Admin.upsertAgent]
  cases hfind : pg.db.findAgent id (toLowercase (trim raw)) with
  | some a => exact hnamed.put (hnamed a (List.mem_of_find?_eq_some hfind))
  | none =>
    dsimp only
    cases pg.db.hasTeam id && !pg.db.agentExists (randomUuid pg.seqs.uuids) with
    | true => exact hnamed.put hclean
    | false => exact hnamed

omit [Platform] [Platform.LawfulLower] in
theorem agentDisable_named (team name : String) :
    Bus.Moves (fun pg pg' => pg.db.AgentsNamed → pg'.db.AgentsNamed) (Admin.agentDisable team name) := by
  refine .reads (fun _ h => h) teamId_readOnly fun id => .bind (fun h h' hnamed => h' (h hnamed)) (fun pg hnamed => ?_)
    fun rows => .ite (fun _ h => h) fun _ h => h
  rw [Bus.exec_execute]
  dsimp only [Sql.effect, Admin.disable]
  cases hfind : pg.db.findAgent id (trim name) with
  | some a => exact hnamed.put (hnamed a (List.mem_of_find?_eq_some hfind))
  | none => exact hnamed

theorem Pg.Reachable.agentsNamed (h : pg.Reachable) : pg.db.AgentsNamed := by
  induction h with
  | init now => exact fun a ha => by cases ha
  | @next pg h e ih =>
    have frame : Table.agents ∉ e.writes → (pg.next e).db.AgentsNamed := by
      intro hn
      have hsame : (pg.next e).db.agents = pg.db.agents := Pg.next_frame h.valid e Db.agents fun db w hw => by
        cases w <;> first | rfl | exact absurd (hw List.mem_cons_self) hn
      rw [Db.AgentsNamed, hsame]
      exact ih
    cases e with
    | call auth pid c => exact frame (by cases c <;> simp [Event.writes, Call.writes])
    | command pid c =>
      cases c with
      | agentAdd team name displayName => exact agentAdd_named team name displayName pg ih
      | agentDisable team name => exact agentDisable_named team name pg ih
      | _ => exact frame (by simp [Event.writes, Command.writes])
    | _ => exact frame (by simp [Event.writes])

/-! ### The sessions of senders -/

/-- The session of a call is that of its header. -/
def Event.Labelled : Event → Prop
  | .call auth _ _ => ∃ header, sessionFromHeaders header = .ok auth.session
  | _ => True

omit [Platform.LawfulLower] in
theorem sessionLabel_session {auth : AuthCtx} {header : Option HeaderValue}
    (h : sessionFromHeaders header = .ok auth.session) : ∀ s ∈ sessionLabel auth, IsSession s := by
  intro s hs
  unfold sessionLabel at hs
  split at hs
  · cases hs
  next hempty =>
  obtain rfl := Option.some.inj hs
  unfold sessionFromHeaders at h
  split at h
  · rw [← Except.ok.inj h] at hempty
    exact absurd rfl hempty
  · split at h
    · cases h
    · exact ⟨_, h, by simpa using hempty⟩

omit [Platform.LawfulLower] in
/-- Along the calls of sessions, every sender is in a session. -/
theorem Pg.after_senderSessions (now : Time) {es : List Event} (h : ∀ e ∈ es, e.Labelled) :
    ∀ m ∈ ((Pg.init now).after es).db.messages, ∀ s ∈ m.senderSession, IsSession s := by
  have along : ∀ pg : Pg, pg.Valid → (∀ m ∈ pg.db.messages, ∀ s ∈ m.senderSession, IsSession s) →
      ∀ m ∈ (pg.after es).db.messages, ∀ s ∈ m.senderSession, IsSession s := by
    intro pg hv hm
    induction es generalizing pg with
    | nil => exact hm
    | cons e es ih =>
      refine ih (fun e' he' => h e' (List.mem_cons_of_mem _ he')) (pg.next e) (hv.next e) fun m' hm' s hs => ?_
      obtain ⟨m, hsame, hold | ⟨auth, pid, c, rfl, hposted⟩⟩ := next_brought hv e m' hm'
      · exact hm m hold s (by rwa [hsame] at hs)
      · obtain ⟨header, hheader⟩ := h _ List.mem_cons_self
        refine sessionLabel_session hheader s ?_
        rw [← hposted.sender]
        rwa [hsame] at hs
  exact along _ (Pg.Valid.init now) fun m hm => by cases hm

/-! ### Addresses of the team -/

/-- Every agent has an address, and so has every session of theirs; what a post and a message say is such an address. -/
structure Pg.Addressable (pg : Pg) : Prop where
  parses : ∀ a ∈ pg.db.agents, ∀ session : Option String, (∀ s ∈ session, IsSession s) →
    parseAddress (addressOf a.name session) = .ok (a.name, session)
  delivered : ∀ auth pid input r, (pg.call auth pid (.postMessage input)).1 = .ok (.posted r) →
    ∃ m, (pg.next (.call auth pid (.postMessage input))).db.messages = pg.db.messages ++ [m] ∧
      ∀ address ∈ r.deliveredTo, ∃ a ∈ pg.db.agents, a.teamId = auth.teamId ∧
        ∃ session, parseAddress address = .ok (a.name, session) ∧
          (m.channelId = none → m.recipientAgentId = some a.id ∧ m.recipientSession = session)
  sent : ∀ m ∈ pg.db.messages, ∀ info, pg.db.messageInfo? m = some info →
    ∃ a ∈ pg.db.agents, a.id = m.senderAgentId ∧
      parseAddress (addressOf info.sender info.senderSession) = .ok (a.name, m.senderSession)
  distinct : ∀ a ∈ pg.db.agents, ∀ b ∈ pg.db.agents, a.teamId = b.teamId → ∀ session session' : Option String,
    (∀ s ∈ session, IsSession s) → (∀ s ∈ session', IsSession s) →
      addressOf a.name session = addressOf b.name session' → a = b ∧ session = session'

omit [Platform.LawfulLower] in
/-- The agents that a post reports have names of their own. -/
theorem goes_named {auth : AuthCtx} {db : Db} {target : Target} (h : Goes auth db target) :
    ∀ address ∈ target.deliveredTo, ∃ a ∈ db.agents, a.teamId = auth.teamId ∧ ∃ session : Option String,
      (∀ s ∈ session, IsSession s) ∧ address = addressOf a.name session ∧
        (target.channel = none → target.recipient = some a.id ∧ target.recipientSession = session) := by
  intro address haddress
  cases h with
  | channel c =>
    rw [Db.rosterNames, Rows.mem_orderBy, List.mem_map] at haddress
    obtain ⟨a, ha, rfl⟩ := haddress
    obtain ⟨hmem, hteam⟩ := List.mem_filter.1 ha
    simp only [Bool.and_eq_true, beq_iff_eq] at hteam
    refine ⟨a, hmem, hteam.1, none, (fun s hs => by cases hs), rfl, fun hnone => ?_⟩
    cases hnone
  | direct hparse hfind =>
    rw [parseAddress_trimmed hparse] at hfind
    obtain ⟨hmem, hteam, rfl⟩ := Db.findAgent_some hfind
    refine ⟨_, hmem, hteam, _, fun s hs => ?_, List.mem_singleton.1 haddress, fun _ => ⟨rfl, rfl⟩⟩
    obtain rfl := Option.mem_def.1 hs
    exact parseAddress_label hparse

theorem addressable (hv : pg.Valid) (hnamed : pg.db.AgentsNamed)
    (hsenders : ∀ m ∈ pg.db.messages, ∀ s ∈ m.senderSession, IsSession s)
    (hslash : ∀ a ∈ pg.db.agents, '/' ∉ a.name.toList) : pg.Addressable := by
  have hparses : ∀ a ∈ pg.db.agents, ∀ session : Option String, (∀ s ∈ session, IsSession s) →
      parseAddress (addressOf a.name session) = .ok (a.name, session) :=
    fun a ha session hsession => parseAddress_addressOf (hnamed a ha) (hslash a ha) hsession
  refine ⟨hparses, fun auth pid input r hr => ?_, fun m hm info hinfo => ?_, ?_⟩
  · obtain ⟨_, hposted, target, hgoes, hdelivered, m, hmessages, hbound⟩ := (Pg.call_meets (c := .postMessage input)
      (g := .posted) pid (Pg.authentic_of_call hr) rfl (postMessage_meets (E := fun _ => True) trivial (fun _ => trivial)
        (fun _ => trivial) (resolveTarget_meets _ _) pid) rfl).1 _ hr
    obtain rfl := Reply.posted.inj hposted
    refine ⟨m, hmessages, fun address haddress => ?_⟩
    obtain ⟨a, ha, hteam, session, hsession, rfl, hdirect⟩ := goes_named hgoes address (hdelivered ▸ haddress)
    refine ⟨a, ha, hteam, session, hparses a ha session hsession, fun hnone => ?_⟩
    rw [hbound.recipient, hbound.session]
    exact hdirect (hbound.channel ▸ hnone)
  · obtain ⟨sender, hsender, rfl⟩ := Option.map_eq_some_iff.1 hinfo
    obtain ⟨a, ha, rfl⟩ := Option.map_eq_some_iff.1 hsender
    have hmem := List.mem_of_find?_eq_some ha
    have hsession : nonEmpty m.senderSession = m.senderSession := by
      cases hs : m.senderSession with
      | none => rfl
      | some s =>
        obtain ⟨-, -, hempty⟩ := hsenders m hm s hs
        simp [nonEmpty, hempty]
    refine ⟨a, hmem, by simpa using List.find?_some ha, ?_⟩
    dsimp only
    rw [hsession]
    exact hparses a hmem _ (hsenders m hm)
  · intro a ha b hb hteam session session' hsession hsession' heq
    have hparse := hparses a ha session hsession
    rw [heq, hparses b hb session' hsession'] at hparse
    obtain ⟨hname, rfl⟩ := Prod.mk.inj (Except.ok.inj hparse)
    exact ⟨hv.keys.agentNames.eq ha hb (Prod.ext hteam hname.symm), rfl⟩

/-- Along the calls of sessions, each agent is read back from its addresses just when its name has no `/`, and the whole
    team is addressable just when no name of an agent has one. -/
theorem addressable_iff (now : Time) {es : List Event} (hlabelled : ∀ e ∈ es, e.Labelled) :
    (∀ a ∈ ((Pg.init now).after es).db.agents, ∀ s, IsSession s →
      (parseAddress a.name = .ok (a.name, none) ∧ parseAddress (addressOf a.name (some s)) = .ok (a.name, some s) ↔
        '/' ∉ a.name.toList)) ∧
      (((Pg.init now).after es).Addressable ↔ ∀ a ∈ ((Pg.init now).after es).db.agents, '/' ∉ a.name.toList) := by
  have hreach := (Pg.Reachable.init now).after es
  have hnamed := hreach.agentsNamed
  refine ⟨fun a ha s hs => ⟨fun h => (parseAddress_name_iff (hnamed a ha)).1 h.1, fun hslash => ?_⟩, fun h a ha => ?_, ?_⟩
  · refine ⟨(parseAddress_name_iff (hnamed a ha)).2 hslash, parseAddress_addressOf (hnamed a ha) hslash fun t ht => ?_⟩
    exact Option.some.inj ht ▸ hs
  · exact (parseAddress_name_iff (hnamed a ha)).1 (h.parses a ha none fun s hs => by cases hs)
  · exact addressable hreach.valid hnamed (Pg.after_senderSessions now hlabelled)

end

end

section
open Sample
attribute [local instance] Platform.ascii

/-- An agent is added to the crew. -/
def withAgent (name : String) : List Event := crew ++ [.command 0 (.agentAdd "core" name none)]

theorem withAgent_labelled (name : String) : ∀ e ∈ withAgent name, e.Labelled := by
  intro e he
  simp only [withAgent, crew, List.mem_append, List.mem_cons, List.not_mem_nil, or_false] at he
  rcases he with (rfl | rfl | rfl) | rfl <;> trivial

/-- The crew with cleo. -/
theorem cleo_addressable : ((Pg.init 0).after (withAgent " Cleo")).Addressable :=
  (@addressable_iff Platform.ascii Platform.ascii_lawfulLower 0 _ (withAgent_labelled " Cleo")).2.2 (by decide)

/-- The agent `ann/api` has the address of ann's session `api`. -/
theorem ann_api_taken : "ann/api" ∈ ((Pg.init 0).after (withAgent "Ann/API")).db.agents.map (·.name) ∧
    parseAddress "ann/api" = .ok ("ann", some "api") ∧ addressOf "ann/api" none = addressOf "ann" (some "api") ∧
      ¬ ∀ (now : Time) (es : List Event), (∀ e ∈ es, e.Labelled) → ((Pg.init now).after es).Addressable := by
  refine ⟨by decide, by decide, by decide, fun h => ?_⟩
  have hmem : ∃ a ∈ ((Pg.init 0).after (withAgent "Ann/API")).db.agents, a.name = "ann/api" := by decide
  obtain ⟨a, ha, hname⟩ := hmem
  have hparse := (h 0 _ (withAgent_labelled "Ann/API")).parses a ha none fun s hs => by cases hs
  rw [hname] at hparse
  exact absurd hparse (by decide)

end
end CrewSync
