import CrewSync.Footprint.Teams
import CrewSync.Lib.Feed
import CrewSync.Theorems.CursorKeys

/-! The feed of a window: an agent that only reads what is new there. It is given no message twice, and each in its turn;
    it misses one exactly where more were unread than the read had room for. -/

namespace CrewSync

/-! ### What a window shows -/

/-- The messages that the window shows its agent. -/
def Window.shows (w : Window) (agent team : Uuid) (m : Message) : Bool :=
  let direct := m.recipientAgentId == some agent && (w.allSessions || addressedTo w.session m)
  match w.scope with
  | .all => m.teamId == team && (m.channelId.isSome || direct || m.senderAgentId == agent)
  | .inbox => direct
  | .channel id => m.channelId == some id

theorem Window.shows_eq (auth : AuthCtx) (scope : Scope) (allSessions : Bool) :
    (scope.window auth allSessions).shows auth.agentId auth.teamId = scope.visible auth allSessions := by
  cases scope <;> rfl

theorem Window.shows_same (w : Window) (agent team : Uuid) {m m' : Message} (h : m.Same m') :
    w.shows agent team m' = w.shows agent team m := by
  rw [h]
  rfl

section
variable [Platform]

/-! ### The feed -/

/-- The ids that an event hands the agent in the window. -/
def Pg.hands (pg : Pg) (agent : Uuid) (w : Window) : Event → List Int
  | .call auth pid (.readMessages input) =>
    match ((resolveScope auth input.scope).exec pg).1, (pg.call auth pid (.readMessages input)).1 with
    | .ok scope, .ok (.messages r) =>
      if auth.agentId = agent ∧ input.onlyNew = true ∧ scope.window auth input.allSessions = w then r.messages.map (·.id)
      else []
    | _, _ => []
  | _ => []

/-- The server, and what the agent was given in the window so far. -/
structure Feed where
  pg : Pg
  given : List Int

/-- What a run hands the agent. -/
def Feed.next (agent : Uuid) (w : Window) (f : Feed) (e : Event) : Feed :=
  ⟨f.pg.next e, f.given ++ f.pg.hands agent w e⟩

/-- The messages of the window above its cursor. -/
def Pg.backlog (pg : Pg) (agent team : Uuid) (w : Window) : List Message :=
  pg.db.messages.filter fun m => w.shows agent team m && decide (pg.db.lastRead agent w.key < m.id)

/-- The event reads what is new in the window. -/
def Pg.Drains (pg : Pg) (agent : Uuid) (w : Window) (e : Event) (limit : Int) : Prop :=
  ∃ auth pid input scope, e = .call auth pid (.readMessages input) ∧ auth.authentic pg.db = true ∧ auth.agentId = agent ∧
    ((resolveScope auth input.scope).exec pg).1 = .ok scope ∧ scope.window auth input.allSessions = w ∧
    input.onlyNew = true ∧ input.limit = limit

/-- Where the event reads what is new in the window, it has room for all of it. -/
def Pg.Fits (agent team : Uuid) (w : Window) (pg : Pg) (e : Event) : Prop :=
  ∀ limit, pg.Drains agent w e limit → (pg.backlog agent team w).length ≤ rowLimit limit

namespace Feed
variable {agent team : Uuid} {w : Window}

/-- The agent as a reader of the messages of the window. -/
def reader (f : Feed) (agent : Uuid) (w : Window) : Reader Int := ⟨f.pg.db.lastRead agent w.key, f.given⟩

def log (f : Feed) (agent team : Uuid) (w : Window) : List Int := (f.pg.db.messages.filter (w.shows agent team)).map (·.id)

omit [Platform] in
theorem log_nodup {f : Feed} (hv : f.pg.Valid) (agent team : Uuid) (w : Window) : (f.log agent team w).Nodup :=
  hv.keys.messages.sublist (List.filter_sublist.map _)

theorem backlog_eq (f : Feed) (agent team : Uuid) (w : Window) :
    (f.reader agent w).backlog (f.log agent team w) = (f.pg.backlog agent team w).map (·.id) := by
  rw [Reader.backlog, log, List.filter_map, List.filter_filter, Pg.backlog]
  refine congrArg (List.map _) (List.filter_congr fun m _ => ?_)
  exact Bool.and_comm _ _

end Feed

/-! ### What one event does -/

theorem Pg.next_agentIn {pg : Pg} (hv : pg.Valid) (e : Event) {agent team : Uuid} (h : pg.db.agentIn agent team = true) :
    (pg.next e).db.agentIn agent team = true :=
  Pg.next_lift (R := fun a b => a.agentIn agent team = true → b.agentIn agent team = true) hv e (fun _ => id)
    (fun h h' => h' ∘ h) (fun _ _ _ _ _ hw _ => hw.agentIn) h

/-- Where the cursor stands after a read of what is new. -/
theorem lastRead_read {pg : Pg} (hpg : pg.Reachable) {auth : AuthCtx} (hauth : auth.authentic pg.db = true) (pid : Nat)
    {input : ReadInput} {scope : Scope} (hscope : ((resolveScope auth input.scope).exec pg).1 = .ok scope)
    (hnew : input.onlyNew = true) :
    (pg.next (.call auth pid (.readMessages input))).db.lastRead auth.agentId (scope.cursorKeyFor auth input.allSessions) =
      (pg.db.readList auth scope input).cursor := by
  have hfrom : pg.db.readFrom auth scope input = pg.db.lastRead auth.agentId (scope.cursorKeyFor auth input.allSessions) :=
    if_pos hnew
  have hle : pg.db.readFrom auth scope input ≤ (pg.db.readList auth scope input).cursor := readFrom_le_cursor
  rw [Pg.next, call_read hauth pid hscope]
  by_cases hmoved : pg.db.readFrom auth scope input < (pg.db.readList auth scope input).cursor
  · have hagent : pg.db.agentExists auth.agentId := Db.agentExists_iff.2 ⟨_, AuthCtx.authentic.caller hauth⟩
    have hcursor : 0 ≤ (pg.db.readList auth scope input).cursor := by
      rw [hfrom] at hle
      exact (hpg.lastRead_nonneg ..).trans hle
    rw [if_pos ⟨hnew, hmoved⟩, lastRead_upsertCursor hpg.valid.keys.cursors hagent hcursor, if_pos ⟨rfl, rfl⟩, ← hfrom]
    exact max_eq_right hle
  · rw [if_neg fun h => hmoved h.2, ← hfrom]
    exact le_antisymm hle (not_lt.1 hmoved)

/-- What a read of what is new hands the agent. -/
theorem Pg.hands_read {pg : Pg} {auth : AuthCtx} (hauth : auth.authentic pg.db = true) (pid : Nat) {input : ReadInput}
    {scope : Scope} (hscope : ((resolveScope auth input.scope).exec pg).1 = .ok scope) (hnew : input.onlyNew = true) :
    pg.hands auth.agentId (scope.window auth input.allSessions) (.call auth pid (.readMessages input)) =
      (pg.db.readList auth scope input).messages.map (·.id) := by
  simp only [hands, hscope, call_read hauth pid hscope, hnew, and_self, if_true]

/-- A read of what is new in the window hands the agent the last of its backlog. -/
theorem Feed.next_drains {f : Feed} (hpg : f.pg.Reachable) {agent team : Uuid} {w : Window}
    (hin : f.pg.db.agentIn agent team = true) {e : Event} {limit : Int} (he : f.pg.Drains agent w e limit) :
    (f.reader agent w).Reads (rowLimit limit) (f.log agent team w) ((f.next agent w e).reader agent w)
      (f.pg.hands agent w e) := by
  obtain ⟨auth, pid, input, scope, rfl, hauth, rfl, hscope, rfl, hnew, rfl⟩ := he
  obtain rfl : auth.teamId = team := hpg.valid.keys.agentIn_eq hin (AuthCtx.authentic.caller hauth)
  have hfrom : f.pg.db.readFrom auth scope input = f.pg.db.lastRead auth.agentId (scope.window auth input.allSessions).key := by
    rw [Db.readFrom, if_pos hnew, scope.window_key]
  have hhands := Pg.hands_read hauth pid hscope hnew
  have hmark : ((f.next auth.agentId (scope.window auth input.allSessions) (.call auth pid (.readMessages input))).reader
      auth.agentId (scope.window auth input.allSessions)).mark = (f.pg.db.readList auth scope input).cursor := by
    rw [reader, scope.window_key]
    exact lastRead_read hpg hauth pid hscope hnew
  rw [hhands]
  constructor
  · have hhighest := newest_highest hpg.valid (fun m => scope.visible auth input.allSessions m &&
      decide (f.pg.db.readFrom auth scope input < m.id)) (clamp input.limit 1 maxLimit)
    rw [backlog_eq, Pg.backlog, Window.shows_eq, ← hfrom]
    exact hhighest
  · exact congrArg (f.given ++ ·) hhands
  · intro x hx
    obtain ⟨info, hinfo, rfl⟩ := List.mem_map.1 hx
    rw [hmark]
    exact le_maxId hinfo
  · rw [hmark, reader, ← hfrom]
    rcases maxId_mem (f.pg.db.readFrom auth scope input) (f.pg.db.readList auth scope input).messages with h | ⟨info, hinfo, h⟩
    · exact .inl h
    · exact .inr (List.mem_map.2 ⟨info, hinfo, h⟩)

theorem Feed.log_drains [Platform.LawfulUuid] {f : Feed} (hpg : f.pg.Reachable) {agent team : Uuid} {w : Window} {e : Event}
    {limit : Int} (he : f.pg.Drains agent w e limit) : (f.next agent w e).log agent team w = f.log agent team w := by
  obtain ⟨auth, pid, input, scope, rfl, -, -, -, -, -, -⟩ := he
  obtain ⟨cursors, hnext, -⟩ := Pg.read_cursors hpg auth pid input
  rw [log, Feed.next, hnext]
  rfl

/-- Any other event hands the agent nothing, and leaves the cursor. -/
theorem Pg.next_idle [Platform.LawfulUuid] {pg : Pg} (hpg : pg.Reachable) {agent : Uuid} {w : Window} {e : Event}
    (he : ∀ limit, ¬ pg.Drains agent w e limit) :
    pg.hands agent w e = [] ∧ (pg.next e).db.lastRead agent w.key = pg.db.lastRead agent w.key := by
  constructor
  · cases e with
    | call auth pid c =>
      cases c with
      | readMessages input =>
        simp only [hands]
        split
        · next scope r hscope hcall =>
          split
          · next h =>
            obtain ⟨hagent, hnew, hw⟩ := h
            by_cases hauth : auth.authentic pg.db = true
            · exact absurd ⟨auth, pid, input, scope, rfl, hauth, hagent, hscope, hw, hnew, rfl⟩ (he input.limit)
            · rw [call, if_neg hauth] at hcall
              cases hcall
          · rfl
        · rfl
      | _ => rfl
    | _ => rfl
  · by_cases hapart : Pg.Apart agent w pg e
    · exact next_lastRead_of_not hpg hapart
    · rw [Pg.Apart] at hapart
      push Not at hapart
      obtain ⟨auth, pid, input, rfl, hagent, scope, hscope, hw⟩ := hapart
      by_cases hauth : auth.authentic pg.db = true
      · have hold : ¬ input.onlyNew = true := fun hnew =>
          he input.limit ⟨auth, pid, input, scope, rfl, hauth, hagent, hscope, hw, hnew, rfl⟩
        rw [Pg.next, call_read hauth pid hscope, if_neg fun h => hold h.1]
      · rw [Pg.next, call, if_neg hauth]

theorem lastRead_le_messages {pg : Pg} (hpg : pg.Reachable) (agent : Uuid) (key : String) :
    pg.db.lastRead agent key ≤ pg.seqs.messages := by
  rw [Db.lastRead]
  cases hfind : pg.db.cursors.find? fun c => c.agentId == agent && c.scope == key with
  | none => exact hpg.inOrder.1
  | some c => exact hpg.valid.keys.cursorsBelow c (List.mem_of_find?_eq_some hfind)

/-- A message that comes in stands above the cursor. -/
theorem Feed.log_next {f : Feed} (hpg : f.pg.Reachable) (agent team : Uuid) (w : Window) (e : Event) :
    ∀ x ∈ (f.next agent w e).log agent team w, x ∈ f.log agent team w ∨ (f.reader agent w).mark < x := by
  intro x hx
  obtain ⟨m', hm', rfl⟩ := List.mem_map.1 hx
  obtain ⟨hmem, hshows⟩ := List.mem_filter.1 hm'
  rcases Pg.next_ids hpg.valid e m' hmem with ⟨m, hm, hsame⟩ | habove
  · refine .inl (List.mem_map.2 ⟨m, List.mem_filter.2 ⟨hm, ?_⟩, ?_⟩)
    · rw [← w.shows_same agent team hsame]
      exact hshows
    · rw [hsame]
  · exact .inr ((lastRead_le_messages hpg agent w.key).trans_lt habove)

/-! ### Runs -/

/-- What every event keeps, from a run that began with the cursor at `start`. -/
structure Feed.Inv (agent team : Uuid) (w : Window) (start : Int) (f : Feed) : Prop where
  reachable : f.pg.Reachable
  member : f.pg.db.agentIn agent team = true
  from_start : start ≤ f.pg.db.lastRead agent w.key
  sound : (f.reader agent w).Sound

/-- The agent has been given all that the window shows between the start and the cursor. -/
def Feed.Lossless (agent team : Uuid) (w : Window) (start : Int) (f : Feed) : Prop :=
  ∀ m ∈ f.pg.db.messages, w.shows agent team m = true → start < m.id → m.id ≤ f.pg.db.lastRead agent w.key → m.id ∈ f.given

namespace Feed
variable [Platform.LawfulUuid] {f : Feed} {agent team : Uuid} {w : Window} {start : Int}

omit [Platform.LawfulUuid] in
theorem lossless_reader :
    f.Lossless agent team w start ↔ (f.reader agent w).Lossless ((f.log agent team w).filter (start < ·)) := by
  simp only [Lossless, Reader.Lossless, reader, log, List.mem_map, List.mem_filter, decide_eq_true_eq]
  constructor
  · rintro h _ ⟨⟨m, ⟨hm, hshows⟩, rfl⟩, hstart⟩
    exact h m hm hshows hstart
  · exact fun h m hm hshows hstart => h m.id ⟨⟨m, ⟨hm, hshows⟩, rfl⟩, hstart⟩

theorem Inv.next (h : f.Inv agent team w start) (e : Event) : (f.next agent w e).Inv agent team w start := by
  refine ⟨h.reachable.next e, Pg.next_agentIn h.reachable.valid e h.member,
    h.from_start.trans (Pg.next_lastRead h.reachable.valid e agent w.key), ?_⟩
  by_cases hdrains : ∃ limit, f.pg.Drains agent w e limit
  · obtain ⟨limit, he⟩ := hdrains
    exact (next_drains h.reachable h.member he).sound h.sound
  · obtain ⟨hhands, hlast⟩ := Pg.next_idle h.reachable fun limit he => hdrains ⟨limit, he⟩
    have hsame : (f.next agent w e).reader agent w = f.reader agent w := by
      rw [reader, reader, Feed.next, hhands, hlast, List.append_nil]
    exact hsame ▸ h.sound

/-- An event loses nothing if and only if it has room for what it reads. -/
theorem Inv.lossless_iff (h : f.Inv agent team w start) (hl : f.Lossless agent team w start) (e : Event) :
    (f.next agent w e).Lossless agent team w start ↔ Pg.Fits agent team w f.pg e := by
  rw [lossless_reader] at hl ⊢
  by_cases hdrains : ∃ limit, f.pg.Drains agent w e limit
  · obtain ⟨limit, he⟩ := hdrains
    have hreads := (next_drains h.reachable h.member he).from_start h.from_start
    rw [log_drains h.reachable he, hreads.looks.lossless_iff ((log_nodup h.reachable.valid agent team w).filter _)
      (rowLimit_pos limit) h.sound.upTo hl, Reader.backlog_above h.from_start, backlog_eq, List.length_map]
    refine ⟨fun hroom limit' he' => ?_, fun hfits => hfits limit he⟩
    obtain ⟨_, _, _, _, rfl, -, -, -, -, -, rfl⟩ := he
    obtain ⟨_, _, _, _, heq, -, -, -, -, -, rfl⟩ := he'
    cases heq
    exact hroom
  · obtain ⟨hhands, hlast⟩ := Pg.next_idle h.reachable fun limit he => hdrains ⟨limit, he⟩
    have hsame : (f.next agent w e).reader agent w = f.reader agent w := by
      rw [reader, reader, Feed.next, hhands, hlast, List.append_nil]
    rw [hsame]
    refine iff_of_true (hl.grow fun x hx => ?_) fun limit he => absurd ⟨limit, he⟩ hdrains
    obtain ⟨hx, habove⟩ := List.mem_filter.1 hx
    exact (log_next h.reachable agent team w e x hx).imp_left fun hold => List.mem_filter.2 ⟨hold, habove⟩

end Feed

theorem Feed.Inv.start {pg : Pg} (hpg : pg.Reachable) {agent team : Uuid} (hin : pg.db.agentIn agent team = true)
    (w : Window) : Feed.Inv agent team w (pg.db.lastRead agent w.key) ⟨pg, []⟩ :=
  ⟨hpg, hin, le_rfl, .nil, fun x hx => by cases hx⟩

/-- A run loses nothing if and only if every read of what is new had room. -/
theorem Feed.lossless_along_iff [Platform.LawfulUuid] {pg : Pg} (hpg : pg.Reachable) {agent team : Uuid}
    (hin : pg.db.agentIn agent team = true) (w : Window) (es : List Event) :
    (∀ es', es' <+: es → (Runs.after (Feed.next agent w) ⟨pg, []⟩ es').Lossless agent team w (pg.db.lastRead agent w.key)) ↔
      Runs.Along (Feed.next agent w) (fun f => Pg.Fits agent team w f.pg) ⟨pg, []⟩ es := by
  refine Runs.along_iff (Inv.start hpg hin w) (fun m _ _ habove hle => ?_) (fun e _ f h => h.next e)
    fun e _ f h hl => h.lossless_iff hl e
  exact absurd hle (not_le_of_gt habove)

/-- The feed of a window. In every run the agent is given messages in the order of their ids and none twice, and after a
    read of what is new nothing that the window shows is left above the cursor; and nothing is ever lost below the cursor
    if and only if every such read had room for all that was unread. -/
theorem feed_exact [Platform.LawfulUuid] {pg : Pg} (hpg : pg.Reachable) {agent team : Uuid}
    (hin : pg.db.agentIn agent team = true) (w : Window) (es : List Event) :
    let run := Runs.after (Feed.next agent w) ⟨pg, []⟩
    (run es).given.Pairwise (· < ·) ∧
      (∀ e limit, (run es).pg.Drains agent w e limit → ∀ m ∈ (run (es ++ [e])).pg.db.messages,
        w.shows agent team m = true → m.id ≤ (run (es ++ [e])).pg.db.lastRead agent w.key) ∧
      ((∀ es', es' <+: es → (run es').Lossless agent team w (pg.db.lastRead agent w.key)) ↔
        Runs.Along (Feed.next agent w) (fun f => Pg.Fits agent team w f.pg) ⟨pg, []⟩ es) := by
  intro run
  have hrun : (run es).Inv agent team w (pg.db.lastRead agent w.key) :=
    Runs.invariant (fun _ e h => h.next e) (Feed.Inv.start hpg hin w) es
  refine ⟨hrun.sound.ordered, fun e limit he m hm hshows => ?_, Feed.lossless_along_iff hpg hin w es⟩
  · have hnext : run (es ++ [e]) = (run es).next agent w e := Runs.after_append ..
    rw [hnext] at hm ⊢
    have hlog : m.id ∈ (run es).log agent team w := by
      rw [← Feed.log_drains hrun.reachable he]
      exact List.mem_map.2 ⟨m, List.mem_filter.2 ⟨hm, hshows⟩, rfl⟩
    exact (Feed.next_drains hrun.reachable hrun.member he).caught_up (rowLimit_pos limit) hlog

/-- What a run hands the agent stood above its cursor. -/
theorem Feed.Inv.after_given [Platform.LawfulUuid] {f : Feed} {agent team : Uuid} {w : Window} {start : Int}
    (h : f.Inv agent team w start) (es : List Event) {x : Int} (hx : x ∈ (Runs.after (Feed.next agent w) f es).given) :
    x ∈ f.given ∨ (f.reader agent w).mark < x := by
  induction es generalizing f with
  | nil => exact .inl hx
  | cons e es ih =>
    have hmark : (f.reader agent w).mark ≤ ((f.next agent w e).reader agent w).mark :=
      Pg.next_lastRead h.reachable.valid e agent w.key
    rcases ih (h.next e) hx with hgiven | habove
    · rcases List.mem_append.1 hgiven with hold | hnew
      · exact .inl hold
      · by_cases hdrains : ∃ limit, f.pg.Drains agent w e limit
        · obtain ⟨limit, he⟩ := hdrains
          exact .inr ((next_drains h.reachable h.member he).above hnew).2
        · rw [(Pg.next_idle h.reachable fun limit he => hdrains ⟨limit, he⟩).1] at hnew
          cases hnew
    · exact .inr (hmark.trans_lt habove)

/-- The next batches. In every run nothing that the window shows is passed by its cursor without being given if and only if
    every read of what is new had room for all that was unread; and the reads that follow such a read give the rest of what
    was unread if and only if there was none: what it leaves out no later run gives. -/
theorem feed_resumes_iff [Platform.LawfulUuid] {pg : Pg} (hpg : pg.Reachable) {agent team : Uuid}
    (hin : pg.db.agentIn agent team = true) (w : Window) (es : List Event) :
    let run := Runs.after (Feed.next agent w) ⟨pg, []⟩
    ((∀ es', es' <+: es → (run es').Lossless agent team w (pg.db.lastRead agent w.key)) ↔
      Runs.Along (Feed.next agent w) (fun f => Pg.Fits agent team w f.pg) ⟨pg, []⟩ es) ∧
    ∀ e limit, (run es).pg.Drains agent w e limit →
      ((∀ m ∈ (run es).pg.backlog agent team w, ∃ es', m.id ∈ (run (es ++ e :: es')).given) ↔
        ((run es).pg.backlog agent team w).length ≤ rowLimit limit) := by
  intro run
  have hrun : (run es).Inv agent team w (pg.db.lastRead agent w.key) :=
    Runs.invariant (fun _ e h => h.next e) (Feed.Inv.start hpg hin w) es
  refine ⟨Feed.lossless_along_iff hpg hin w es, fun e limit he => ?_⟩
  have hreads := Feed.next_drains hrun.reachable hrun.member he
  have hafter (es' : List Event) : run (es ++ e :: es') = Runs.after (Feed.next agent w) ((run es).next agent w e) es' :=
    Runs.after_append ..
  have hmem {m : Message} (hm : m ∈ (run es).pg.backlog agent team w) :
      m.id ∈ ((run es).reader agent w).backlog ((run es).log agent team w) := by
    rw [Feed.backlog_eq]
    exact List.mem_map_of_mem hm
  constructor
  · intro hall
    -- What is given later was given by this read, which leaves nothing above the cursor.
    have hnow : ∀ x ∈ ((run es).reader agent w).backlog ((run es).log agent team w),
        x ∈ (run es).pg.hands agent w e := by
      intro x hx
      obtain ⟨hlog, habove⟩ := Reader.mem_backlog.1 hx
      rw [Feed.backlog_eq] at hx
      obtain ⟨m, hm, rfl⟩ := List.mem_map.1 hx
      obtain ⟨es', hgiven⟩ := hall m hm
      rw [hafter] at hgiven
      rcases (hrun.next e).after_given es' hgiven with hgiven | hlater
      · rcases List.mem_append.1 hgiven with hold | hnew
        · exact absurd (hrun.sound.upTo m.id hold) (not_le_of_gt habove)
        · exact hnew
      · exact absurd (hreads.caught_up (rowLimit_pos limit) hlog) (not_le_of_gt hlater)
    have hnodup := (Feed.log_nodup hrun.reachable.valid agent team w).filter (((run es).reader agent w).mark < ·)
    have hle := (List.subperm_of_subset hnodup hnow).length_le
    have hlength := hreads.last.length
    rw [Reader.backlog] at hlength
    rw [← List.length_map, ← Feed.backlog_eq, Reader.backlog]
    omega
  · intro hroom m hm
    refine ⟨[], ?_⟩
    rw [hafter]
    refine List.mem_append_right _ (hreads.last.mem_of_le ?_ (hmem hm))
    rw [Feed.backlog_eq, List.length_map]
    exact hroom

end
end CrewSync

namespace CrewSync.Sample
attribute [local instance] Platform.ascii

/-- Bob posts once more, and ann reads with room for one. -/
def crowded : List Event :=
  [.call bob 0 (.postMessage ⟨some "ops", none, false, "the tests pass", none, none, []⟩),
   .call ann 0 (.readMessages ⟨"all", true, 1, false⟩)]

/-- She is given the second message alone, and the first is lost. -/
theorem crowded_out :
    let run := Runs.after (Feed.next 1 ⟨.all, "", false⟩) ⟨onePost, []⟩
    (run crowded).given = [2] ∧ ∃ es', es' <+: crowded ∧ ¬ (run es').Lossless 1 0 ⟨.all, "", false⟩ 0 := by
  intro run
  refine ⟨by decide, ?_⟩
  have hexact := (@feed_exact Platform.ascii Platform.ascii_lawfulUuid onePost onePost_reachable 1 0 (by decide)
    ⟨.all, "", false⟩ crowded).2.2
  by_contra hall
  push Not at hall
  have hfits := (hexact.1 hall).2.1
  exact absurd (hfits 1 ⟨ann, 0, ⟨"all", true, 1, false⟩, .all, rfl, by decide, rfl, rfl, rfl, rfl, rfl⟩) (by decide)

/-- The cursor has passed bob's first message, and reading again does not give it. -/
theorem crowded_passed :
    let run := Runs.after (Feed.next 1 ⟨.all, "", false⟩) ⟨onePost, []⟩
    (∃ m ∈ (run crowded).pg.db.messages, m.id = 1 ∧ (Window.mk .all "" false).shows 1 0 m = true ∧
      m.id ≤ (run crowded).pg.db.lastRead 1 (Window.mk .all "" false).key ∧ m.id ∉ (run crowded).given) ∧
    onePost.db.lastRead 1 (Window.mk .all "" false).key = 0 ∧
    (run (crowded ++ [.call ann 0 (.readMessages ⟨"all", true, 1, false⟩)])).given = [2] := by
  decide

/-- Ann reads with room for both. -/
def roomy : List Event := crowded.take 1 ++ [.call ann 0 (.readMessages ⟨"all", true, 2, false⟩)]

theorem roomy_resumes :
    let run := Runs.after (Feed.next 1 ⟨.all, "", false⟩) ⟨onePost, []⟩
    (∀ es', es' <+: roomy → (run es').Lossless 1 0 ⟨.all, "", false⟩ 0) ∧
    ∀ m ∈ (run (crowded.take 1)).pg.backlog 1 0 ⟨.all, "", false⟩,
      ∃ es', m.id ∈ (run (crowded.take 1 ++ .call ann 0 (.readMessages ⟨"all", true, 2, false⟩) :: es')).given := by
  intro run
  have hroom : ((run (crowded.take 1)).pg.backlog 1 0 ⟨.all, "", false⟩).length ≤ rowLimit 2 := by decide
  constructor
  · refine (@feed_resumes_iff Platform.ascii Platform.ascii_lawfulUuid onePost onePost_reachable 1 0 (by decide)
      ⟨.all, "", false⟩ roomy).1.2 ⟨?_, ?_, trivial⟩
    · rintro limit ⟨_, _, _, _, h, -⟩
      cases h
    · rintro limit ⟨_, _, _, _, h, -, -, -, -, -, rfl⟩
      cases h
      exact hroom
  · have hauth : ann.authentic (run (crowded.take 1)).pg.db = true := by decide
    exact ((@feed_resumes_iff Platform.ascii Platform.ascii_lawfulUuid onePost onePost_reachable 1 0 (by decide)
      ⟨.all, "", false⟩ (crowded.take 1)).2 (.call ann 0 (.readMessages ⟨"all", true, 2, false⟩)) 2
      ⟨ann, 0, _, .all, rfl, hauth, rfl, rfl, rfl, rfl, rfl⟩).2 hroom

end CrewSync.Sample
