import CrewSync.Theorems.InterleavedReads

/-! The feed of a window while reads and posts interleave, a statement at a time. What is lost is exactly what is
    committed below an id that a read has found already, and what a read had no room for. -/

namespace CrewSync
open Threads
variable [Platform]

/-- The window of a read, if its scope is found. -/
def windowOf (pg : Pg) (auth : AuthCtx) (input : ReadInput) : Option Window :=
  match ((resolveScope auth input.scope).exec pg).1 with
  | .ok scope => some (scope.window auth input.allSessions)
  | .error _ => none

omit [Platform] in
/-- A call that starts as a read of what is new is one. -/
theorem Call.talkPhase_reading [Platform] {base pg : Pg} {auth : AuthCtx} {c : Call} {key : String} {floor position : Int}
    (h : c.talkPhase base pg auth = .reading key floor position) :
    ∃ input, c = .readMessages input ∧ input.onlyNew = true ∧ cursorKeyOf base auth input = some key := by
  cases c with
  | readMessages input =>
    rw [Call.talkPhase] at h
    split at h
    · next hnew =>
      split at h
      · next key' hkey =>
        obtain ⟨rfl, -, -⟩ := TalkPhase.reading.inj h
        exact ⟨input, rfl, hnew, hkey⟩
      · cases h
    · cases h
  | _ => cases h

theorem scope_of_cursorKeyOf {pg : Pg} {auth : AuthCtx} {input : ReadInput} {key : String} (h : cursorKeyOf pg auth input = some key) :
    ∃ scope, ((resolveScope auth input.scope).exec pg).1 = .ok scope ∧ scope.cursorKeyFor auth input.allSessions = key := by
  rw [cursorKeyOf] at h
  split at h
  · next scope hscope => exact ⟨scope, hscope, Option.some.inj h⟩
  · cases h

namespace Concurrent

/-- The call reads what is new in the window, and so many messages at most. -/
def feeds (base : Pg) (agent : Uuid) (w : Window) : AuthCtx × Call → Option Nat
  | (auth, .readMessages input) =>
    if auth.agentId = agent ∧ input.onlyNew = true ∧ windowOf base auth input = some w then some (rowLimit input.limit)
    else none
  | _ => none

/-- What the call has found, if it reads what is new in the window. -/
def share (base : Pg) (agent : Uuid) (w : Window) (pg : Pg) (t : (AuthCtx × Call) × Prog Stmt Pg (Except BusError Reply)) :
    List Int :=
  if (feeds base agent w t.1).isSome then foundBy pg t.2 else []

/-- What the reads of what is new in the window have found. -/
def given (base : Pg) (agent : Uuid) (w : Window) (s : State) : List Int :=
  s.threads.flatMap (share base agent w s.shared)

/-- The agent as a reader of the window, from a start in `base`. -/
def reader (base : Pg) (agent : Uuid) (w : Window) (s : State) : Reader Int :=
  .upTo (base.db.lastRead agent w.key) (given base agent w s)

/-- All that the window shows up to the last message found has been found, but for what the cursor had passed in `base`. -/
def Lossless (base : Pg) (agent team : Uuid) (w : Window) (s : State) : Prop :=
  ∀ m ∈ s.shared.db.messages, w.shows agent team m = true → m.id ≤ (reader base agent w s).mark →
    m.id ∈ given base agent w s ∨ m.id ∈ base.db.messageIds ∧ m.id ≤ base.db.lastRead agent w.key

/-- What is committed comes after all that has been found, and a read that looks has room for all that comes after it. -/
def Orderly (base : Pg) (agent team : Uuid) (w : Window) (s : State) (step : Step) : Prop :=
  (∀ m ∈ (next s step).shared.db.messages, w.shows agent team m = true → m.id ∉ s.shared.db.messageIds →
    (reader base agent w s).mark < m.id) ∧
  ∀ i who limit, step = .turn i → s.who? i = some who → feeds base agent w who = some limit →
    s.next? i = some (.select .messages) →
      (s.shared.db.messages.filter fun m => w.shows agent team m && decide ((reader base agent w s).mark < m.id)).length ≤ limit

/-- So many messages at most can the step find, if it is the look of a read of what is new in the window. -/
def looksFor (base : Pg) (agent : Uuid) (w : Window) (s : State) : Step → Option Nat
  | .turn i => if s.next? i = some (.select .messages) then (s.who? i).bind (feeds base agent w) else none
  | _ => none

/-- A read that looks has room for all that is unread. -/
def Uncrowded (base : Pg) (agent team : Uuid) (w : Window) (s : State) (step : Step) : Prop :=
  ∀ limit ∈ looksFor base agent w s step, (s.shared.backlog agent team w).length ≤ limit

/-- What is committed comes after all that has been found. -/
def CommitsAbove (base : Pg) (agent team : Uuid) (w : Window) (s : State) (step : Step) : Prop :=
  ∀ m ∈ (next s step).shared.db.messages, w.shows agent team m = true → m.id ∉ s.shared.db.messageIds →
    (reader base agent w s).mark < m.id

instance (base : Pg) (agent team : Uuid) (w : Window) (s : State) (step : Step) :
    Decidable (Uncrowded base agent team w s step) :=
  inferInstanceAs (Decidable (∀ limit ∈ looksFor base agent w s step, (s.shared.backlog agent team w).length ≤ limit))

instance (base : Pg) (agent team : Uuid) (w : Window) (s : State) (step : Step) :
    Decidable (CommitsAbove base agent team w s step) :=
  inferInstanceAs (Decidable (∀ m ∈ (next s step).shared.db.messages, w.shows agent team m = true →
    m.id ∉ s.shared.db.messageIds → (reader base agent w s).mark < m.id))

/-! ### What has been found -/

section
variable {base : Pg} {agent : Uuid} {w : Window} {s s' : State}

/-- The call reads what is new in the window. -/
structure Feeds (base : Pg) (agent : Uuid) (w : Window) (auth : AuthCtx) (input : ReadInput) (scope : Scope) : Prop where
  reader : auth.agentId = agent
  new : input.onlyNew = true
  found : ((resolveScope auth input.scope).exec base).1 = .ok scope
  window : scope.window auth input.allSessions = w

theorem feeds_iff {who : AuthCtx × Call} {n : Nat} : feeds base agent w who = some n ↔
    ∃ auth input scope, who = (auth, .readMessages input) ∧ Feeds base agent w auth input scope ∧ rowLimit input.limit = n := by
  have hwindow : ∀ auth input, windowOf base auth input = some w ↔
      ∃ scope, ((resolveScope auth input.scope).exec base).1 = .ok scope ∧ scope.window auth input.allSessions = w := by
    intro auth input
    rw [windowOf]
    cases ((resolveScope auth input.scope).exec base).1 with
    | ok scope => simp
    | error e => simp
  constructor
  · intro h
    obtain ⟨auth, c⟩ := who
    cases c with
    | readMessages input =>
      rw [feeds] at h
      split at h
      · next hfeeds =>
        obtain ⟨hreader, hnew, hw⟩ := hfeeds
        obtain ⟨scope, hfound, hw⟩ := (hwindow auth input).1 hw
        exact ⟨auth, input, scope, rfl, ⟨hreader, hnew, hfound, hw⟩, Option.some.inj h⟩
      · cases h
    | _ => cases h
  · rintro ⟨auth, input, scope, rfl, h, rfl⟩
    rw [feeds, if_pos ⟨h.reader, h.new, (hwindow auth input).2 ⟨scope, h.found, h.window⟩⟩]

theorem Feeds.isSome {auth : AuthCtx} {input : ReadInput} {scope : Scope} (h : Feeds base agent w auth input scope) :
    (feeds base agent w (auth, .readMessages input)).isSome = true := by
  rw [feeds_iff.2 ⟨auth, input, scope, rfl, h, rfl⟩]
  rfl

theorem share_none {pg : Pg} {who : AuthCtx × Call} {p : Prog Stmt Pg (Except BusError Reply)}
    (h : feeds base agent w who = none) : share base agent w pg (who, p) = [] := by
  simp [share, h]

theorem share_feeds {pg : Pg} {auth : AuthCtx} {input : ReadInput} {scope : Scope} {p : Prog Stmt Pg (Except BusError Reply)}
    (h : Feeds base agent w auth input scope) :
    share base agent w pg ((auth, .readMessages input), p) = foundBy pg p := by
  simp [share, h.isSome]

theorem mem_given {id : Int} :
    id ∈ given base agent w s ↔ ∃ (i : Nat) (t : _ × _), s.threads[i]? = some t ∧ id ∈ share base agent w s.shared t := by
  rw [given, List.mem_flatMap]
  constructor
  · rintro ⟨t, ht, hid⟩
    obtain ⟨i, hi⟩ := List.mem_iff_getElem?.1 ht
    exact ⟨i, t, hi, hid⟩
  · rintro ⟨i, t, hi, hid⟩
    exact ⟨t, List.mem_of_getElem? hi, hid⟩

theorem given_congr (h : ∀ i : Nat, (s'.threads[i]?).map (share base agent w s'.shared) = (s.threads[i]?).map (share base agent w s.shared)) :
    given base agent w s' = given base agent w s := by
  rw [given, given, List.flatMap_def, List.flatMap_def]
  refine congrArg List.flatten (List.ext_getElem? fun i => ?_)
  rw [List.getElem?_map, List.getElem?_map]
  exact h i

/-- The start of a run. -/
theorem mark_le (base : Pg) (agent : Uuid) (w : Window) (s : State) :
    base.db.lastRead agent w.key ≤ (reader base agent w s).mark :=
  Reader.start_le ..

theorem le_mark {id : Int} (h : id ∈ given base agent w s) : id ≤ (reader base agent w s).mark :=
  Reader.le_upTo h

end

/-! ### What the window shows -/

/-- The ids of what the window shows, but for what the cursor had passed in `base`. -/
def shownIds (base : Pg) (agent team : Uuid) (w : Window) (db : Db) : List Int :=
  ((db.messages.filter (w.shows agent team)).map (·.id)).filter
    fun id => !(decide (id ∈ base.db.messageIds) && decide (id ≤ base.db.lastRead agent w.key))

section
variable {base : Pg} {agent team : Uuid} {w : Window} {s : State}

theorem mem_shownIds {db : Db} {id : Int} : id ∈ shownIds base agent team w db ↔
    (∃ m ∈ db.messages, w.shows agent team m = true ∧ m.id = id) ∧
      ¬ (id ∈ base.db.messageIds ∧ id ≤ base.db.lastRead agent w.key) := by
  simp only [shownIds, List.mem_filter, List.mem_map, Bool.not_eq_true', Bool.and_eq_false_iff, decide_eq_false_iff_not,
    not_and_or, and_assoc]

theorem lossless_iff : Lossless base agent team w s ↔
    (reader base agent w s).Lossless (shownIds base agent team w s.shared.db) := by
  constructor
  · intro h id hid hle
    obtain ⟨⟨m, hm, hshows, rfl⟩, hnew⟩ := mem_shownIds.1 hid
    exact (h m hm hshows hle).resolve_right hnew
  · intro h m hm hshows hle
    by_cases hold : m.id ∈ base.db.messageIds ∧ m.id ≤ base.db.lastRead agent w.key
    · exact .inr hold
    · exact .inl (h m.id (mem_shownIds.2 ⟨⟨m, hm, hshows, rfl⟩, hold⟩) hle)

/-- Above the start of the run, these are all the messages of the window. -/
theorem shownIds_above {since : Int} (h : base.db.lastRead agent w.key ≤ since) (db : Db) :
    (shownIds base agent team w db).filter (since < ·) =
      (db.messages.filter fun m => w.shows agent team m && decide (since < m.id)).map (·.id) := by
  rw [shownIds, List.filter_filter, List.filter_map, List.filter_filter]
  refine congrArg (List.map _) (List.filter_congr fun m _ => ?_)
  by_cases habove : since < m.id
  · have hnew : ¬ m.id ≤ base.db.lastRead agent w.key := not_le_of_gt (h.trans_lt habove)
    simp [habove, hnew]
  · simp [habove]

end

/-! ### Steps -/

/-- What every step keeps. -/
structure Feeding (base : Pg) (agent : Uuid) (w : Window) (s : State) (phase : Nat → TalkPhase) : Prop
    extends Talk base s phase where
  start : base.db.lastRead agent w.key ≤ s.shared.db.lastRead agent w.key
  stages : ∀ (i : Nat) auth input scope p, s.threads[i]? = some ((auth, .readMessages input), p) →
    Feeds base agent w auth input scope →
    Stage base auth input scope (base.db.lastRead agent w.key) (s.shared.db.lastRead agent w.key) p
  /-- Nobody else moves the cursor. -/
  others : ∀ (i : Nat) who p, s.threads[i]? = some (who, p) → feeds base agent w who = none → who.1.agentId = agent →
    ∀ floor position, phase i ≠ .reading w.key floor position
  given : ∀ id ∈ given base agent w s, id ∈ s.shared.db.messageIds
  cursor : s.shared.db.lastRead agent w.key ≤ (reader base agent w s).mark

namespace Feeding
variable {base : Pg} {agent team : Uuid} {w : Window} {s : State} {phase : Nat → TalkPhase}

theorem start_of {pg : Pg} (hpg : pg.Reachable) : Feeding pg agent w (Concurrent.start pg) fun _ => .posting [] where
  toTalk := .start hpg
  start := le_rfl
  stages i _ _ _ _ hi := by simp [Concurrent.start] at hi
  others i _ _ hi := by simp [Concurrent.start] at hi
  given id hid := by cases hid
  cursor := le_rfl

omit [Platform] in
theorem agent_exists [Platform] (h : Feeding base agent w s phase) {i : Nat} {who : AuthCtx × Call}
    {p : Prog Stmt Pg (Except BusError Reply)} (hi : s.threads[i]? = some (who, p)) {pg : Pg}
    (hagents : pg.db.agents = base.db.agents) : pg.db.agentExists who.1.agentId = true := by
  have hcaller := Db.agentExists_iff.2 ⟨_, (h.sure i who p hi).2.1⟩
  rwa [Db.agentExists, hagents]

/-- What a call has found stays what it is while others have their turns. -/
theorem share_eq (h : Feeding base agent w s phase) {i : Nat} {t : (AuthCtx × Call) × Prog Stmt Pg (Except BusError Reply)}
    (hi : s.threads[i]? = some t) {pg : Pg} (hagents : pg.db.agents = base.db.agents) :
    share base agent w pg t = share base agent w s.shared t := by
  obtain ⟨who, p⟩ := t
  cases hfeeds : feeds base agent w who with
  | none => rw [share_none hfeeds, share_none hfeeds]
  | some n =>
    obtain ⟨auth, input, scope, rfl, hread, -⟩ := feeds_iff.1 hfeeds
    rw [share_feeds hread, share_feeds hread]
    exact (h.stages i auth input scope p hi hread).found hread.new (h.agent_exists hi h.talking.posting.agents)
      (h.agent_exists hi hagents)

theorem given_eq {s' : State} (h : Feeding base agent w s phase) (hagents : s'.shared.db.agents = base.db.agents)
    (hsame : ∀ i : Nat, s'.threads[i]? = s.threads[i]? ∨
      (s'.threads[i]?).map (share base agent w s'.shared) = (s.threads[i]?).map (share base agent w s.shared)) :
    Concurrent.given base agent w s' = Concurrent.given base agent w s := by
  refine given_congr fun i => ?_
  rcases hsame i with heq | heq
  · rw [heq]
    cases hi : s.threads[i]? with
    | none => rfl
    | some t => exact congrArg some (h.share_eq hi hagents)
  · exact heq

theorem tick (h : Feeding base agent w s phase) (d : Nat) : Feeding base agent w (next s (.server (.tick d))) phase ∧
    Concurrent.given base agent w (next s (.server (.tick d))) = Concurrent.given base agent w s := by
  have hgiven : Concurrent.given base agent w (next s (.server (.tick d))) = Concurrent.given base agent w s :=
    h.given_eq h.talking.posting.agents fun _ => .inl rfl
  have hmark : (reader base agent w (next s (.server (.tick d)))).mark = (reader base agent w s).mark := by
    rw [reader, reader, hgiven]
  exact ⟨⟨h.toTalk.tick d, h.start, h.stages, h.others, hgiven ▸ h.given, hmark ▸ h.cursor⟩, hgiven⟩

theorem call [Platform.LawfulUuid] (h : Feeding base agent w s phase) (auth : AuthCtx) {c : Call} (hc : c.talks = true) :
    ∃ phase', Feeding base agent w (next s (.call auth c)) phase' ∧ (next s (.call auth c)).shared = s.shared ∧
      Concurrent.given base agent w (next s (.call auth c)) = Concurrent.given base agent w s := by
  obtain ⟨phase', htalk, -, hold, hnew⟩ := h.toTalk.call auth hc
  by_cases hauth : auth.authentic s.shared.db = true
  case neg =>
    rw [show next s (.call auth c) = s from if_neg hauth]
    exact ⟨phase, h, rfl, rfl⟩
  rw [show next s (.call auth c) = s.spawn (auth, c) (c.run auth s.threads.length).run from if_pos hauth] at htalk hnew ⊢
  have hnew : phase' s.threads.length = c.talkPhase base s.shared auth :=
    hnew.resolve_left (by simp [Conf.spawn])
  have hnone : share base agent w s.shared ((auth, c), (c.run auth s.threads.length).run) = [] := by
    cases hfeeds : feeds base agent w (auth, c) with
    | none => exact share_none hfeeds
    | some n =>
      obtain ⟨auth, input, scope, heq, hread, -⟩ := feeds_iff.1 hfeeds
      obtain ⟨rfl, rfl⟩ := Prod.mk.inj heq
      rw [share_feeds hread]
      exact Stage.foundBy_readMessages hread.new
  have hgiven : Concurrent.given base agent w (s.spawn (auth, c) (c.run auth s.threads.length).run) =
      Concurrent.given base agent w s := by
    simp only [Concurrent.given, Conf.spawn, List.flatMap_append, List.flatMap_singleton, hnone, List.append_nil]
  have hmark : (reader base agent w (s.spawn (auth, c) (c.run auth s.threads.length).run)).mark =
      (reader base agent w s).mark := by
    rw [reader, reader, hgiven]
  refine ⟨phase', ⟨htalk, h.start, fun i auth' input scope p hi hread => ?_, fun i who p hi hfeeds hagent floor position hphase => ?_,
    hgiven ▸ h.given, hmark ▸ h.cursor⟩, rfl, hgiven⟩
  · rcases Conf.spawn_threads hi with hi | ⟨rfl, heq, rfl⟩
    · exact h.stages i auth' input scope p hi hread
    · obtain ⟨rfl, rfl⟩ := Prod.mk.inj heq
      exact .begin hread.found
  · rcases Conf.spawn_threads hi with hi | ⟨rfl, rfl, rfl⟩
    · rw [hold i (List.getElem?_eq_some_iff.1 hi).1] at hphase
      exact h.others i who p hi hfeeds hagent floor position hphase
    · -- A read of the same cursor is one of the same window.
      rw [hnew] at hphase
      obtain ⟨input, rfl, honly, hkey⟩ := Call.talkPhase_reading hphase
      obtain ⟨scope, hfound, hkey⟩ := scope_of_cursorKeyOf hkey
      rw [← scope.window_key] at hkey
      rw [feeds_iff.2 ⟨auth, input, scope, rfl, ⟨hagent, honly, hfound, Window.key_injective hkey⟩, rfl⟩] at hfeeds
      cases hfeeds

/-- A turn leaves what is not a read of the window one that is not. -/
theorem others_turn (h : Feeding base agent w s phase) {i : Nat} {phase' : Nat → TalkPhase}
    (hreads : ∀ j key floor position, phase' j = .reading key floor position → ∃ position', phase j = .reading key floor position') :
    ∀ (j : Nat) who p, (s.sched i).threads[j]? = some (who, p) → feeds base agent w who = none → who.1.agentId = agent →
      ∀ floor position, phase' j ≠ .reading w.key floor position := by
  intro j who p hj hfeeds hagent floor position hphase
  obtain ⟨q, hq, -⟩ := Conf.sched_threads hj
  obtain ⟨position', hphase⟩ := hreads j w.key floor position hphase
  exact h.others j who q hq hfeeds hagent floor position' hphase

omit [Platform] in
theorem kept_sched [Platform] (h : Feeding base agent w s phase) (i : Nat) :
    s.shared.db.messages ⊆ (s.sched i).shared.db.messages := by
  rcases h.obeys.sched h.sure i with heq | ⟨who, p, l, g', hi, -, -, ⟨hposting, -⟩, -⟩
  · rw [heq]
    exact List.Subset.refl _
  · exact hposting.messages

/-- A turn of a call that does not read the window finds nothing in it, and leaves its cursor. -/
theorem turn_other (h : Feeding base agent w s phase) {i : Nat} (hother : ∀ who, s.who? i = some who → feeds base agent w who = none) :
    ∃ phase', Feeding base agent w (s.sched i) phase' ∧
      Concurrent.given base agent w (s.sched i) = Concurrent.given base agent w s := by
  obtain ⟨phase', htalk, hcursors, -, hreads, -⟩ := h.toTalk.turn i
  have hgiven : Concurrent.given base agent w (s.sched i) = Concurrent.given base agent w s := by
    refine h.given_eq htalk.talking.posting.agents fun j => ?_
    by_cases hij : i = j
    · subst hij
      have hnone : ∀ c : State, c.who? i = s.who? i → ∀ pg,
          (c.threads[i]?).map (share base agent w pg) = (s.who? i).map fun _ => [] := by
        intro c hc pg
        rw [← hc, Conf.who?, Option.map_map]
        cases hi : c.threads[i]? with
        | none => rfl
        | some t => exact congrArg some (share_none (hother t.1 (hc ▸ Conf.who?_of hi)))
      right
      rw [hnone _ (Conf.who?_sched s i i), hnone s rfl]
    · exact .inl (Conf.sched_threads_ne hij)
  have hcursor : (s.sched i).shared.db.lastRead agent w.key = s.shared.db.lastRead agent w.key := by
    rcases h.obeys.sched h.sure i with heq | ⟨who, p, l, g', hi, -, -, ⟨-, hstep⟩, -⟩
    · rw [heq]
    · generalize hphase : phase i = g at hstep
      generalize (s.sched i).shared = pg' at hstep
      cases hstep with
      | still _ hcursors | draw _ hcursors | commit _ hcursors => rw [Db.lastRead, Db.lastRead, hcursors]
      | advance hagent hlast =>
        rw [lastRead_upsertCursor h.talking.cursors hagent hlast, if_neg]
        rintro ⟨hagent, rfl⟩
        exact h.others i who p hi (hother who (Conf.who?_of hi)) hagent _ _ hphase
  have hmark : (reader base agent w (s.sched i)).mark = (reader base agent w s).mark := by
    rw [reader, reader, hgiven]
  refine ⟨phase', ⟨htalk, hcursor ▸ h.start, fun j auth input scope p hj hread => ?_, h.others_turn hreads, fun id hid => ?_, ?_⟩, hgiven⟩
  · obtain ⟨q, hq, hsame⟩ := Conf.sched_threads hj
    have hne : i ≠ j := by
      rintro rfl
      have := hother _ (Conf.who?_of hq)
      rw [← Option.not_isSome_iff_eq_none] at this
      exact this hread.isSome
    rw [hcursor, ← hsame hne]
    exact h.stages j auth input scope q hq hread
  · rw [hgiven] at hid
    exact List.map_subset _ (h.kept_sched i) (h.given id hid)
  · rw [hcursor, hmark]
    exact h.cursor

/-- What a read finds is added to what the others have found. -/
theorem mem_given_turn (h : Feeding base agent w s phase) {i : Nat} {auth : AuthCtx} {input : ReadInput} {scope : Scope}
    {p p' : Prog Stmt Pg (Except BusError Reply)} (hi : s.threads[i]? = some ((auth, .readMessages input), p))
    (hread : Feeds base agent w auth input scope) {pg : Pg} (hagents : pg.db.agents = base.db.agents)
    (hgrow : foundBy s.shared p ⊆ foundBy pg p') {id : Int} :
    id ∈ Concurrent.given base agent w ⟨pg, s.threads.set i ((auth, .readMessages input), p')⟩ ↔
      id ∈ Concurrent.given base agent w s ∨ id ∈ foundBy pg p' := by
  have hlt := (List.getElem?_eq_some_iff.1 hi).1
  have hself : share base agent w pg ((auth, .readMessages input), p') = foundBy pg p' := share_feeds hread
  rw [mem_given, mem_given]
  constructor
  · rintro ⟨j, t, hj, hid⟩
    by_cases hij : i = j
    · subst hij
      rw [List.getElem?_set_self hlt] at hj
      obtain rfl := Option.some.inj hj
      exact .inr (hself ▸ hid)
    · rw [List.getElem?_set_ne hij] at hj
      exact .inl ⟨j, t, hj, h.share_eq hj hagents ▸ hid⟩
  · rintro (⟨j, t, hj, hid⟩ | hid)
    · by_cases hij : i = j
      · subst hij
        rw [hi] at hj
        obtain rfl := Option.some.inj hj
        rw [share_feeds hread] at hid
        exact ⟨i, _, List.getElem?_set_self hlt, hself.symm ▸ hgrow hid⟩
      · refine ⟨j, t, ?_, (h.share_eq hj hagents).symm ▸ hid⟩
        rw [List.getElem?_set_ne hij]
        exact hj
    · exact ⟨i, _, List.getElem?_set_self hlt, hself.symm ▸ hid⟩

/-- A turn of a read of the window. -/
theorem turn_reader (h : Feeding base agent w s phase) (hbase : base.Reachable) {i : Nat} {auth : AuthCtx} {input : ReadInput}
    {scope : Scope} {p : Prog Stmt Pg (Except BusError Reply)} (hi : s.threads[i]? = some ((auth, .readMessages input), p))
    (hread : Feeds base agent w auth input scope) :
    ∃ phase', Feeding base agent w (s.sched i) phase' ∧ (s.sched i).shared.db.messages = s.shared.db.messages ∧
      ((s.next? i ≠ some (.select .messages) ∧
          ∀ id, id ∈ Concurrent.given base agent w (s.sched i) ↔ id ∈ Concurrent.given base agent w s) ∨
        s.next? i = some (.select .messages) ∧ ∃ since batch, base.db.lastRead agent w.key ≤ since ∧
          since ≤ s.shared.db.lastRead agent w.key ∧
          Highest (rowLimit input.limit) ((s.shared.db.unread auth scope input.allSessions since).map (·.id)) batch ∧
          ∀ id, id ∈ Concurrent.given base agent w (s.sched i) ↔ id ∈ Concurrent.given base agent w s ∨ id ∈ batch) := by
  have hkey : w.key = scope.cursorKeyFor auth input.allSessions := hread.window ▸ scope.window_key auth input.allSessions
  have hagent := h.agent_exists hi h.talking.posting.agents
  have hpos := hbase.lastRead_nonneg agent w.key
  have hstage := h.stages i auth input scope p hi hread
  rw [← hread.reader, hkey] at hstage
  have hturn := hstage.turn hread.new hbase.valid h.talking hagent (by rw [hread.reader, ← hkey]; exact hpos)
    (by rw [hread.reader, ← hkey]; exact h.start)
  rw [← hkey, hread.reader] at hturn
  obtain ⟨phase', htalk, hcursors, -, hreads, -⟩ := h.toTalk.turn i
  rcases hturn with ⟨a, rfl⟩ | ⟨l, eff, rest, rfl, hstage', hstep⟩
  · have hstill : s.sched i = s := by simp only [Conf.sched, hi]
    rw [hstill]
    exact ⟨phase, h, rfl, .inl ⟨by simp [Conf.next?, hi, Prog.next?], fun id => Iff.rfl⟩⟩
  · have hsched : s.sched i = _ := Conf.sched_act hi rfl
    have hnext : s.next? i = some l := by simp [Conf.next?, hi, Prog.next?]
    have hagents : (eff s.shared).db.agents = base.db.agents := by
      have := htalk.talking.posting.agents
      rwa [hsched] at this
    have hgiven : ∀ id, id ∈ Concurrent.given base agent w (s.sched i) ↔ id ∈ Concurrent.given base agent w s ∨
        id ∈ foundBy (eff s.shared) (rest s.shared) := by
      intro id
      rw [hsched]
      exact h.mem_given_turn hi hread hagents hstep.grows
    have hfound : ∀ id ∈ foundBy s.shared (.act l (fun _ => true) eff rest), id ∈ Concurrent.given base agent w s :=
      fun id hid => mem_given.2 ⟨i, _, hi, (share_feeds hread).symm ▸ hid⟩
    have hmessages : (s.sched i).shared.db.messages = s.shared.db.messages := by
      rw [hsched]
      exact hstep.messages
    refine ⟨phase', ⟨htalk, h.start.trans (hcursors agent w.key), fun j auth' input' scope' p' hj hread' => ?_, h.others_turn hreads,
      fun id hid => ?_, ?_⟩, hmessages, ?_⟩
    · by_cases hij : i = j
      · subst hij
        rw [hsched, List.getElem?_set_self (List.getElem?_eq_some_iff.1 hi).1] at hj
        obtain ⟨hwho, rfl⟩ := Prod.mk.inj (Option.some.inj hj)
        obtain ⟨rfl, hinput⟩ := Prod.mk.inj hwho
        obtain rfl := Call.readMessages.inj hinput
        obtain rfl := Except.ok.inj (hread.found.symm.trans hread'.found)
        rw [hsched]
        exact hstage'
      · obtain ⟨q, hq, hsame⟩ := Conf.sched_threads hj
        rw [← hsame hij]
        exact (h.stages j auth' input' scope' q hq hread').mono (hcursors agent w.key)
    · rw [Db.messageIds, hmessages]
      rcases (hgiven id).1 hid with hold | hnew
      · exact h.given id hold
      · rcases hstep.subset hnew with hold | hnew
        · exact h.given id (hfound id hold)
        · exact hnew
    · have hshared : (s.sched i).shared = eff s.shared := congrArg Conf.shared hsched
      have hcursor := hstep.cursor h.talking hagent hpos hkey
      rw [hread.reader, ← hshared] at hcursor
      rcases hcursor with heq | hmem
      · rw [heq]
        exact h.cursor.trans (Reader.upTo_mono fun id hid => (hgiven id).2 (.inl hid))
      · exact le_mark ((hgiven _).2 (.inr (hshared ▸ hmem)))
    · generalize foundBy s.shared _ = batch at hstep hfound
      generalize foundBy _ _ = batch' at hstep hgiven
      generalize eff s.shared = pg' at hstep
      cases hstep with
      | still hl =>
        refine .inl ⟨by rw [hnext]; simpa using hl, fun id => (hgiven id).trans ?_⟩
        simp
      | look hstart hsince hlast =>
        rw [hread.reader, ← hkey] at hsince
        exact .inr ⟨hnext, _, batch', hstart, hsince, hlast, hgiven⟩
      | store hlast hle =>
        refine .inl ⟨by rw [hnext]; simp, fun id => (hgiven id).trans ⟨fun h => ?_, .inl⟩⟩
        exact h.elim (fun hold => hold) (hfound id)

/-- A step that finds nothing loses nothing if and only if what it commits comes after all that has been found. -/
theorem lossless_idle {s' : State} {phase' : Nat → TalkPhase} (h : Feeding base agent w s phase) (h' : Feeding base agent w s' phase')
    (hgiven : ∀ id, id ∈ Concurrent.given base agent w s' ↔ id ∈ Concurrent.given base agent w s)
    (hkept : s.shared.db.messages ⊆ s'.shared.db.messages) (hl : Lossless base agent team w s) :
    Lossless base agent team w s' ↔ ∀ m ∈ s'.shared.db.messages, w.shows agent team m = true →
      m.id ∉ s.shared.db.messageIds → (reader base agent w s).mark < m.id := by
  have hmark : (reader base agent w s').mark = (reader base agent w s).mark :=
    le_antisymm (Reader.upTo_mono fun id hid => (hgiven id).1 hid) (Reader.upTo_mono fun id hid => (hgiven id).2 hid)
  -- What the window shows now, and showed not, is new.
  have hnew : ∀ id ∈ shownIds base agent team w s'.shared.db, id ∉ shownIds base agent team w s.shared.db →
      id ∉ s.shared.db.messageIds := by
    intro id hid hout hold
    obtain ⟨⟨m', hm', hshows, rfl⟩, hpassed⟩ := mem_shownIds.1 hid
    obtain ⟨m, hm, heq⟩ := List.mem_map.1 hold
    have hsame : m = m' := Rows.Keyed.eq h'.talking.ids (hkept hm) hm' heq
    exact hout (mem_shownIds.2 ⟨⟨m, hm, hsame ▸ hshows, heq⟩, hpassed⟩)
  rw [lossless_iff] at hl
  have hgrow : (reader base agent w s).Lossless (shownIds base agent team w s'.shared.db) ↔
      ∀ id ∈ shownIds base agent team w s'.shared.db, id ∉ shownIds base agent team w s.shared.db → (reader base agent w s).mark < id :=
    hl.grow_iff fun id hid hout hold => hnew id hid hout (h.given id hold)
  have hsame : Lossless base agent team w s' ↔ (reader base agent w s).Lossless (shownIds base agent team w s'.shared.db) := by
    rw [lossless_iff, Reader.Lossless, Reader.Lossless, hmark]
    exact forall₃_congr fun id _ _ => hgiven id
  rw [hsame, hgrow]
  constructor
  · intro habove m hm hshows hout
    have hbase : m.id ∉ base.db.messageIds := fun hold => hout (List.map_subset _ h.talking.posting.messages hold)
    refine habove m.id (mem_shownIds.2 ⟨⟨m, hm, hshows, rfl⟩, fun hpassed => hbase hpassed.1⟩) fun hold => ?_
    obtain ⟨⟨m', hm', -, heq⟩, -⟩ := mem_shownIds.1 hold
    exact hout (List.mem_map.2 ⟨m', hm', heq⟩)
  · intro habove id hid hout
    obtain ⟨⟨m, hm, hshows, rfl⟩, -⟩ := mem_shownIds.1 hid
    exact habove m hm hshows (hnew m.id hid hout)

/-- A read that looks loses nothing if and only if it has room for all above the last message found. -/
theorem lossless_look {s' : State} (h : Feeding base agent w s phase) (hmessages : s'.shared.db.messages = s.shared.db.messages)
    {since : Int} {limit : Nat} {batch : List Int} (hlimit : 0 < limit) (hstart : base.db.lastRead agent w.key ≤ since)
    (hsince : since ≤ s.shared.db.lastRead agent w.key)
    (hlast : Highest limit ((s.shared.db.messages.filter fun m => w.shows agent team m && decide (since < m.id)).map (·.id)) batch)
    (hgiven : ∀ id, id ∈ Concurrent.given base agent w s' ↔ id ∈ Concurrent.given base agent w s ∨ id ∈ batch)
    (hl : Lossless base agent team w s) :
    Lossless base agent team w s' ↔
      (s.shared.db.messages.filter fun m => w.shows agent team m && decide ((reader base agent w s).mark < m.id)).length ≤ limit := by
  rw [lossless_iff] at hl
  have hlog : shownIds base agent team w s'.shared.db = shownIds base agent team w s.shared.db := by
    rw [shownIds, shownIds, hmessages]
  have hnodup : (shownIds base agent team w s.shared.db).Nodup :=
    (h.talking.ids.sublist (List.filter_sublist.map _)).filter _
  have hlooks : (reader base agent w s).Looks limit (shownIds base agent team w s.shared.db) since (reader base agent w s') batch := by
    refine Reader.looks_upTo ?_ (hsince.trans h.cursor) hgiven
    rw [shownIds_above hstart]
    exact hlast
  rw [lossless_iff, hlog, hlooks.lossless_iff hnodup hlimit (fun id hid => le_mark hid) hl, Reader.backlog,
    shownIds_above (mark_le base agent w s), List.length_map]

/-- What one step keeps, and when it loses nothing. -/
theorem next [Platform.LawfulUuid] (h : Feeding base agent w s phase) (hbase : base.Reachable) (hin : base.db.agentIn agent team = true)
    {step : Step} (hstep : step.talks) :
    ∃ phase', Feeding base agent w (Concurrent.next s step) phase' ∧
      (Lossless base agent team w s →
        (Lossless base agent team w (Concurrent.next s step) ↔ Orderly base agent team w s step)) := by
  cases step with
  | call auth c =>
    obtain ⟨phase', h', hshared, hgiven⟩ := h.call auth hstep
    refine ⟨phase', h', fun hl => ?_⟩
    rw [h.lossless_idle h' (fun id => by rw [hgiven]) (by rw [hshared]; exact List.Subset.refl _) hl, Orderly]
    exact (and_iff_left fun i who limit heq => by cases heq).symm
  | server e =>
    cases e with
    | tick d =>
      obtain ⟨h', hgiven⟩ := h.tick d
      refine ⟨phase, h', fun hl => ?_⟩
      rw [h.lossless_idle h' (fun id => by rw [hgiven]) (List.Subset.refl _) hl, Orderly]
      exact (and_iff_left fun i who limit heq => by cases heq).symm
    | _ => exact hstep.elim
  | turn i =>
    change ∃ phase', Feeding base agent w (s.sched i) phase' ∧ (Lossless base agent team w s →
      (Lossless base agent team w (s.sched i) ↔ Orderly base agent team w s (.turn i)))
    by_cases hother : ∀ who, s.who? i = some who → feeds base agent w who = none
    · obtain ⟨phase', h', hgiven⟩ := h.turn_other hother
      refine ⟨phase', h', fun hl => ?_⟩
      rw [h.lossless_idle h' (fun id => by rw [hgiven]) (h.kept_sched i) hl, Orderly]
      refine (and_iff_left fun j who limit heq hwho hfeeds => ?_).symm
      obtain rfl := Step.turn.inj heq
      rw [hother who hwho] at hfeeds
      cases hfeeds
    · push Not at hother
      obtain ⟨who, hwho, hfeeds⟩ := hother
      obtain ⟨n, hfeeds⟩ := Option.ne_none_iff_exists'.1 hfeeds
      obtain ⟨auth, input, scope, rfl, hread, rfl⟩ := feeds_iff.1 hfeeds
      obtain ⟨p, hi⟩ := Conf.exists_of_who? hwho
      obtain ⟨phase', h', hmessages, ⟨hnext, hgiven⟩ | ⟨hnext, since, batch, hstart, hsince, hlast, hgiven⟩⟩ :=
        h.turn_reader hbase hi hread
      · refine ⟨phase', h', fun hl => ?_⟩
        rw [h.lossless_idle h' hgiven (hmessages ▸ List.Subset.refl _) hl, Orderly]
        refine (and_iff_left fun j who limit heq _ _ hlooks => ?_).symm
        obtain rfl := Step.turn.inj heq
        exact absurd hlooks hnext
      · refine ⟨phase', h', fun hl => ?_⟩
        have hteam : auth.teamId = team := by
          obtain rfl := hread.reader
          exact hbase.valid.keys.agentIn_eq hin (h.sure i _ _ hi).2.1
        have hshows : w.shows agent team = scope.visible auth input.allSessions := by
          rw [← hread.window, ← hread.reader, ← hteam, Window.shows_eq]
        rw [Db.unread, ← hshows] at hlast
        rw [h.lossless_look hmessages (rowLimit_pos input.limit) hstart hsince hlast hgiven hl, Orderly]
        constructor
        · intro hroom
          refine ⟨fun m hm hshown hout => absurd ?_ hout, fun j who limit heq hwho' hfeeds' _ => ?_⟩
          · change m ∈ (s.sched i).shared.db.messages at hm
            rw [hmessages] at hm
            exact List.mem_map_of_mem hm
          · obtain rfl := Step.turn.inj heq
            obtain rfl := Option.some.inj (hwho.symm.trans hwho')
            obtain rfl := Option.some.inj (hfeeds.symm.trans hfeeds')
            exact hroom
        · exact fun horderly => horderly.2 i _ _ rfl hwho hfeeds hnext

/-- Once every call has returned, the cursor stands at the last message found. -/
theorem finished (h : Feeding base agent w s phase) (hdone : s.Finished) :
    s.shared.db.lastRead agent w.key = (reader base agent w s).mark := by
  refine le_antisymm h.cursor ?_
  rcases Reader.upTo_mem (base.db.lastRead agent w.key) (Concurrent.given base agent w s) with heq | hmem
  · rw [reader, heq]
    exact h.start
  · obtain ⟨i, ⟨who, p⟩, hi, hid⟩ := mem_given.1 hmem
    have hret : p.next? = none := by
      have hsome : p.result?.isSome = true := hdone _ (List.mem_of_getElem? hi)
      cases p with
      | ret a => rfl
      | act => cases hsome
    cases hfeeds : feeds base agent w who with
    | none =>
      rw [share_none hfeeds] at hid
      cases hid
    | some n =>
      obtain ⟨auth, input, scope, rfl, hread, -⟩ := feeds_iff.1 hfeeds
      rw [share_feeds hread] at hid
      exact (h.stages i auth input scope p hi hread).le_cursor hread.new hret hid

theorem after [Platform.LawfulUuid] (h : Feeding base agent w s phase) (hbase : base.Reachable)
    (hin : base.db.agentIn agent team = true) {steps : List Step} (hsteps : ∀ step ∈ steps, step.talks) :
    ∃ phase', Feeding base agent w (Concurrent.after s steps) phase' := by
  induction steps generalizing s phase with
  | nil => exact ⟨phase, h⟩
  | cons step steps ih =>
    obtain ⟨phase₁, h₁, -⟩ := h.next hbase hin (hsteps step List.mem_cons_self)
    exact ih h₁ fun step' hs => hsteps step' (List.mem_cons_of_mem _ hs)

/-- Nothing up to the last message found is ever lost if and only if every step is in order. -/
theorem lossless_along_iff [Platform.LawfulUuid] (hbase : base.Reachable) (hin : base.db.agentIn agent team = true)
    {steps : List Step} (hsteps : ∀ step ∈ steps, step.talks) :
    (∀ steps', steps' <+: steps → Lossless base agent team w (Concurrent.after (Concurrent.start base) steps')) ↔
      Runs.Along Concurrent.next (Orderly base agent team w) (Concurrent.start base) steps := by
  refine Runs.along_iff (I := fun s => ∃ phase, Feeding base agent w s phase) ⟨_, start_of hbase⟩
    (fun m hm hshows hle => .inr ⟨List.mem_map_of_mem hm, hle⟩) ?_ ?_
  · rintro step hs s ⟨phase, h⟩
    obtain ⟨phase', h', -⟩ := h.next hbase hin (hsteps step hs)
    exact ⟨phase', h'⟩
  · rintro step hs s ⟨phase, h⟩ hl
    obtain ⟨phase', -, hlossless⟩ := h.next hbase hin (hsteps step hs)
    exact hlossless hl

/-- What stands above the last message found stands above the cursor. -/
theorem orderly (h : Feeding base agent w s phase) {step : Step} (hroom : Uncrowded base agent team w s step)
    (habove : CommitsAbove base agent team w s step) : Orderly base agent team w s step := by
  refine ⟨habove, fun i who limit hturn hwho hfeeds hlook => ?_⟩
  have hlimit : limit ∈ looksFor base agent w s step := by
    rw [hturn, looksFor, if_pos hlook, hwho]
    exact hfeeds
  refine le_trans (List.Sublist.length_le ?_) (hroom limit hlimit)
  refine List.monotone_filter_right _ fun m hm => ?_
  rw [Bool.and_eq_true, decide_eq_true_eq] at hm ⊢
  exact ⟨hm.1, h.cursor.trans_lt hm.2⟩

theorem orderly_along [Platform.LawfulUuid] (h : Feeding base agent w s phase) (hbase : base.Reachable)
    (hin : base.db.agentIn agent team = true) {steps : List Step} (hsteps : ∀ step ∈ steps, step.talks)
    (hroom : Runs.Along Concurrent.next (Uncrowded base agent team w) s steps)
    (habove : Runs.Along Concurrent.next (CommitsAbove base agent team w) s steps) :
    Runs.Along Concurrent.next (Orderly base agent team w) s steps := by
  induction steps generalizing s phase with
  | nil => trivial
  | cons step steps ih =>
    obtain ⟨phase', h', -⟩ := h.next hbase hin (hsteps step List.mem_cons_self)
    exact ⟨h.orderly hroom.1 habove.1, ih h' (fun step' hs => hsteps step' (List.mem_cons_of_mem _ hs)) hroom.2 habove.2⟩

/-- A read with room for it gives all that stands above the cursor. -/
theorem hands_backlog (h : Feeding base agent w s phase) (hbase : base.Reachable) (hin : base.db.agentIn agent team = true)
    {e : Event} {limit : Int} (he : s.shared.Drains agent w e limit)
    (hroom : (s.shared.backlog agent team w).length ≤ rowLimit limit) :
    ∀ m ∈ s.shared.backlog agent team w, m.id ∈ s.shared.hands agent w e := by
  obtain ⟨auth, pid, input, scope, rfl, hauth, rfl, hscope, rfl, hnew, rfl⟩ := he
  have hteam : auth.teamId = team := by
    have hcaller := AuthCtx.authentic.caller hauth
    rw [Caller, Db.agentIn, h.talking.posting.agents] at hcaller
    exact hbase.valid.keys.agentIn_eq hin hcaller
  intro m hm
  have hlast := newest_last h.talking.ids (fun m => h.talking.shown hbase.valid)
    (fun m => scope.visible auth input.allSessions m && decide (s.shared.db.readFrom auth scope input < m.id))
    (clamp input.limit 1 maxLimit)
  have hbacklog : s.shared.backlog auth.agentId team (scope.window auth input.allSessions) =
      s.shared.db.messages.filter fun m => scope.visible auth input.allSessions m &&
        decide (s.shared.db.readFrom auth scope input < m.id) := by
    rw [Pg.backlog, ← hteam, Window.shows_eq, Scope.window_key, Db.readFrom, if_pos hnew]
  rw [Pg.hands_read hauth pid hscope hnew]
  rw [hbacklog] at hm hroom
  exact hlast.mem_of_le (by rw [List.length_map]; exact hroom) (List.mem_map_of_mem hm)

end Feeding

/-- What overlapping posts do to the feed of a window. In every run of reads and posts in which each read that looks has
    room for all that is unread, and whatever is committed comes after all that has been found, one more read of what is new,
    with room as well, has all that the window shows given: by this read or by an earlier one, but for what the cursor had
    passed at the start. -/
theorem committed_given [Platform.LawfulUuid] {pg : Pg} (hpg : pg.Reachable) {agent team : Uuid}
    (hin : pg.db.agentIn agent team = true) (w : Window) {steps : List Step} (hsteps : ∀ step ∈ steps, step.talks)
    (hroom : Runs.Along next (Uncrowded pg agent team w) (start pg) steps)
    (habove : Runs.Along next (CommitsAbove pg agent team w) (start pg) steps) :
    let s := after (start pg) steps
    ∀ e limit, s.shared.Drains agent w e limit → (s.shared.backlog agent team w).length ≤ rowLimit limit →
      ∀ m ∈ s.shared.db.messages, w.shows agent team m = true →
        m.id ∈ given pg agent w s ∨ m.id ∈ s.shared.hands agent w e ∨
          m.id ∈ pg.db.messageIds ∧ m.id ≤ pg.db.lastRead agent w.key := by
  intro s e limit he hfits m hm hshows
  have hstart : Feeding pg agent w (start pg) fun _ => .posting [] := .start_of hpg
  obtain ⟨phase, h⟩ := hstart.after hpg hin hsteps
  by_cases hunread : s.shared.db.lastRead agent w.key < m.id
  · refine .inr (.inl (h.hands_backlog hpg hin he hfits m (List.mem_filter.2 ⟨hm, ?_⟩)))
    rw [hshows, Bool.true_and, decide_eq_true_eq]
    exact hunread
  · have horderly := hstart.orderly_along hpg hin hsteps hroom habove
    have hlossless := (Feeding.lossless_along_iff hpg hin hsteps).2 horderly steps (List.prefix_refl _)
    exact (hlossless m hm hshows ((not_lt.1 hunread).trans h.cursor)).imp_right .inr

/-- The feed of a window while reads and posts fall between each other's statements. The cursor never stands above the
    last message that the reads of what is new have found, and at it once every call has returned; and nothing up to it is
    ever lost if and only if whatever is committed comes after all that has been found, and every read that looks has room
    for all that comes after. -/
theorem interleaved_exact [Platform.LawfulUuid] {pg : Pg} (hpg : pg.Reachable) {agent team : Uuid}
    (hin : pg.db.agentIn agent team = true) (w : Window) {steps : List Step} (hsteps : ∀ step ∈ steps, step.talks) :
    let s := after (start pg) steps
    s.shared.db.lastRead agent w.key ≤ (reader pg agent w s).mark ∧
      (s.Finished → s.shared.db.lastRead agent w.key = (reader pg agent w s).mark) ∧
      ((∀ steps', steps' <+: steps → Lossless pg agent team w (after (start pg) steps')) ↔
        Runs.Along next (Orderly pg agent team w) (start pg) steps) := by
  intro s
  obtain ⟨phase, h⟩ := (Feeding.start_of hpg).after (w := w) hpg hin hsteps
  exact ⟨h.cursor, h.finished, Feeding.lossless_along_iff hpg hin hsteps⟩

end Concurrent
end CrewSync

namespace CrewSync.Concurrent
open Sample Threads
attribute [local instance] Platform.ascii

/-- The post of a message to the channel `ops`. -/
def toOps (body : String) : Call := .postMessage ⟨some "ops", none, false, body, none, none, []⟩

/-- Bob posts twice. The second post commits while the first is still open, ann reads, and the first commits. -/
def overtaking : List Step :=
  [.call bob (toOps "the build is red"), .turn 0, .turn 0, .turn 0, .turn 0, .call bob (toOps "the build is green")] ++
    List.replicate 8 (.turn 1) ++ [.call ann (.readMessages ⟨"all", true, 5, false⟩), .turn 2, .turn 2, .turn 2] ++
      List.replicate 3 (.turn 0)

/-- Everybody is done, the first post has been passed over, and its commit is the step out of order. -/
theorem overtaken :
    let w : Window := ⟨.all, "", false⟩
    let s := after (start onePost) overtaking
    s.shared.db.lastRead 1 w.key = 3 ∧ given onePost 1 w s = [1, 3] ∧ 2 ∈ s.shared.db.messageIds ∧
      ¬ Runs.Along next (Orderly onePost 1 0 w) (start onePost) overtaking := by
  intro w s
  have hgiven : given onePost 1 w s = [1, 3] := by decide +kernel
  have hdone : s.Finished := List.all_eq_true.1 (by decide +kernel : (s.threads.all fun t => t.2.result?.isSome) = true)
  have hshown : 2 ∈ (s.shared.db.messages.filter (w.shows 1 0)).map (·.id) := by decide +kernel
  have hs : after (start onePost) overtaking = s := rfl
  clear_value s
  obtain ⟨-, hcursor, hexact⟩ := @interleaved_exact Platform.ascii Platform.ascii_lawfulUuid onePost onePost_reachable 1 0
    (by decide) w overtaking (by simp [overtaking, Step.talks, Call.talks, toOps])
  rw [hs] at hcursor
  have hmark : (reader onePost 1 w s).mark = 3 := by
    rw [reader, hgiven]
    rfl
  obtain ⟨m, hm, hid⟩ := List.mem_map.1 hshown
  obtain ⟨hm, hshows⟩ := List.mem_filter.1 hm
  refine ⟨(hcursor hdone).trans hmark, hgiven, List.mem_map.2 ⟨m, hm, hid⟩, fun horderly => ?_⟩
  have hlossless := hexact.2 horderly overtaking (List.prefix_refl _)
  rw [hs] at hlossless
  rcases hlossless m hm hshows (by rw [hid, hmark]; decide) with hfound | hpassed
  · rw [hid, hgiven] at hfound
    exact absurd hfound (by decide)
  · rw [hid] at hpassed
    exact absurd hpassed.1 (by decide)

/-- Each read has room, everybody is done, and no read has given the first post, nor does one more. -/
theorem overtaking_loses :
    let w : Window := ⟨.all, "", false⟩
    let s := after (start onePost) overtaking
    Runs.Along next (Uncrowded onePost 1 0 w) (start onePost) overtaking ∧ s.Finished ∧
      (∃ m ∈ s.shared.db.messages, m.id = 2 ∧ w.shows 1 0 m = true) ∧ onePost.db.lastRead 1 w.key = 0 ∧
      given onePost 1 w s = [1, 3] ∧ s.shared.hands 1 w (.call ann 0 (.readMessages ⟨"all", true, 5, false⟩)) = [] := by
  intro w s
  refine ⟨by decide +kernel, ?_, by decide +kernel⟩
  exact List.all_eq_true.1 (by decide +kernel : (s.threads.all fun t => t.2.result?.isSome) = true)

/-- The second post begins while the first one is open; the first commits, ann reads, and the second commits. -/
def overlapping : List Step :=
  [.call bob (toOps "the build is red"), .turn 0, .turn 0, .turn 0, .turn 0, .call bob (toOps "the build is green"),
    .turn 1, .turn 1, .turn 1, .turn 1, .turn 0, .turn 0, .turn 0, .call ann (.readMessages ⟨"all", true, 5, false⟩),
    .turn 2, .turn 2, .turn 2] ++ List.replicate 4 (.turn 1)

/-- Her next read has the rest. -/
theorem overlapping_given :
    let w : Window := ⟨.all, "", false⟩
    let s := after (start onePost) overlapping
    s.shared.db.messageIds = [1, 2, 3] ∧ given onePost 1 w s = [1, 2] ∧
      ∀ m ∈ s.shared.db.messages, w.shows 1 0 m = true → m.id ∈ given onePost 1 w s ∨
        m.id ∈ s.shared.hands 1 w (.call ann 0 (.readMessages ⟨"all", true, 5, false⟩)) ∨
          m.id ∈ onePost.db.messageIds ∧ m.id ≤ onePost.db.lastRead 1 w.key := by
  intro w s
  have hauth : ann.authentic s.shared.db = true := by decide +kernel
  have hids : s.shared.db.messageIds = [1, 2, 3] := by decide +kernel
  have hgiven : given onePost 1 w s = [1, 2] := by decide +kernel
  have hfits : (s.shared.backlog 1 0 w).length ≤ rowLimit 5 := by decide +kernel
  have hroom : Runs.Along next (Uncrowded onePost 1 0 w) (start onePost) overlapping := by decide +kernel
  have habove : Runs.Along next (CommitsAbove onePost 1 0 w) (start onePost) overlapping := by decide +kernel
  have hs : after (start onePost) overlapping = s := rfl
  clear_value s
  have hall := @committed_given Platform.ascii Platform.ascii_lawfulUuid onePost onePost_reachable 1 0 (by decide) w overlapping
    (by simp [overlapping, Step.talks, Call.talks, toOps]) hroom habove
  rw [hs] at hall
  exact ⟨hids, hgiven, hall (.call ann 0 (.readMessages ⟨"all", true, 5, false⟩)) 5
    ⟨ann, 0, _, .all, rfl, hauth, rfl, rfl, rfl, rfl, rfl⟩ hfits⟩

end CrewSync.Concurrent
