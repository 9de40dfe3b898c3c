import CrewSync.Theorems.Batches
import CrewSync.Theorems.Feed

/-! The statements of a read while posts and other reads interleave with it: what it has found at each of its stages, and
    what a statement of it does to the messages and to the cursor. -/

namespace CrewSync
open Threads
variable [Platform]

def idsOf : Except BusError Reply → List Int
  | .ok (.messages r) => r.messages.map (·.id)
  | _ => []

omit [Platform] in
/-- Every message has a sender, so each is shown. -/
theorem Pg.Talking.shown {base pg : Pg} (h : base.Talking pg) (hv : base.Valid) {m : Message} (hm : m ∈ pg.db.messages) :
    ∃ info, pg.db.messageInfo? m = some info := by
  have hagent : ∃ team, base.db.agentIn m.senderAgentId team = true := by
    rcases h.posting.senders m hm with hold | hnew
    · exact ⟨_, (hv.refs.senders m hold).2⟩
    · exact Db.agentExists_iff.1 hnew
  obtain ⟨team, hagent⟩ := hagent
  obtain ⟨name, hname⟩ := Db.agentName_of_agentIn hagent
  exact ⟨_, by rw [Db.messageInfo?, Db.agentName, h.posting.agents, ← Db.agentName, hname, Option.map_some]⟩

namespace Concurrent

/-- What a call has found: what it answers, once it has no query left. -/
def foundBy (pg : Pg) (p : Prog Stmt Pg (Except BusError Reply)) : List Int :=
  if p.next? = none ∨ p.next? = some (.insert .readCursors) then idsOf (p.run pg).1 else []

/-! ### The statements of a read -/

/-- What a read does with its rows. -/
def answerWith (auth : AuthCtx) (input : ReadInput) (scope : Scope) (since : Int) (rows : List MessageInfo) :
    Bus MessageList := do
  if input.onlyNew && decide (since < maxId since rows.reverse) then
    execute (.insert .readCursors) (upsertCursor auth.agentId (scope.cursorKeyFor auth input.allSessions) (maxId since rows.reverse))
  return { messages := rows.reverse, scope := scope.label, cursor := maxId since rows.reverse
           truncated := (rows.length : Int) == clamp input.limit 1 maxLimit }

/-- What it does from where it starts. -/
def lookFrom (auth : AuthCtx) (input : ReadInput) (scope : Scope) (since : Int) : Bus MessageList := do
  let rows ← select .messages fun pg =>
    pg.db.newest (fun m => scope.visible auth input.allSessions m && decide (since < m.id)) (clamp input.limit 1 maxLimit)
  answerWith auth input scope since rows

/-- What it does once its scope is found. -/
def readOn (auth : AuthCtx) (input : ReadInput) (scope : Scope) : Bus MessageList := do
  lookFrom auth input scope (← readSince auth (scope.cursorKeyFor auth input.allSessions) input.onlyNew)

/-- What it does with the channel that its scope names. -/
def readChannel (auth : AuthCtx) (input : ReadInput) (name : String) : Option Uuid → Bus MessageList
  | some id => readOn auth input (.channel id name)
  | none => throw (.notFound s!"no channel named '{normalizeChannel name}'; call list_channels or create it with create_channel")

/-- The rest of a call that reads. -/
def rest (x : Bus MessageList) : Prog Stmt Pg (Except BusError Reply) := (Reply.messages <$> x : Bus Reply).run

omit [Platform] in
theorem rest_select {β : Type} (t : Table) (q : Pg → β) (f : β → Bus MessageList) :
    rest (select t q >>= f) = .act (.select t) (fun _ => true) id fun pg => rest (f (q pg)) := rfl

def channelOf (auth : AuthCtx) (name : String) (pg : Pg) : Option Uuid :=
  (pg.db.findChannel auth.teamId (normalizeChannel name)).map (·.id)

theorem rest_readMessages (auth : AuthCtx) (input : ReadInput) :
    rest (readMessages auth input) = match parseScope input.scope with
      | .inl scope => rest (readOn auth input scope)
      | .inr name => rest (select .channels (channelOf auth name) >>= readChannel auth input name) := by
  rw [show readMessages auth input = resolveScope auth input.scope >>= readOn auth input from rfl, resolveScope]
  cases parseScope input.scope with
  | inl scope => rfl
  | inr name =>
    simp only [channelIdByName, bind_assoc]
    refine congrArg rest (congrArg (select .channels (channelOf auth name) >>= ·) (funext fun row => ?_))
    cases row <;> rfl

/-- How far a read of what is new has come that started at `start` or later, while the cursor stands at `cursor`. -/
inductive Stage (base : Pg) (auth : AuthCtx) (input : ReadInput) (scope : Scope) (start cursor : Int) :
    Prog Stmt Pg (Except BusError Reply) → Prop
  | asking {id : Uuid} {name : String} (hscope : scope = .channel id name) (hfind : channelOf auth name base = some id) :
      Stage base auth input scope start cursor
        (rest (select .channels (channelOf auth name) >>= readChannel auth input name))
  | asked : Stage base auth input scope start cursor (rest (readOn auth input scope))
  | placed {since : Int} (hstart : start ≤ since) (hcursor : since ≤ cursor) :
      Stage base auth input scope start cursor (rest (lookFrom auth input scope since))
  | looked {since : Int} (rows : List MessageInfo) (hstart : start ≤ since) (hcursor : since ≤ cursor) :
      Stage base auth input scope start cursor (rest (answerWith auth input scope since rows))
  | answered {r : MessageList} (hcursor : ∀ m ∈ r.messages, m.id ≤ cursor) :
      Stage base auth input scope start cursor (.ret (.ok (.messages r)))

/-- What the statement of a read of the window does. -/
inductive ReadStep (base : Pg) (auth : AuthCtx) (input : ReadInput) (scope : Scope) (start : Int) (pg : Pg) :
    Stmt → List Int → Pg → List Int → Prop
  | still {l : Stmt} (hl : l ≠ .select .messages) : ReadStep base auth input scope start pg l [] pg []
  /-- It finds the last messages above where it starts. -/
  | look {since : Int} {batch : List Int} (hstart : start ≤ since)
      (hsince : since ≤ pg.db.lastRead auth.agentId (scope.cursorKeyFor auth input.allSessions))
      (hlast : Highest (rowLimit input.limit) ((pg.db.unread auth scope input.allSessions since).map (·.id)) batch) :
      ReadStep base auth input scope start pg (.select .messages) [] pg batch
  /-- It moves the cursor to the last one that it has found. -/
  | store {batch : List Int} {last : Int} (hlast : last ∈ batch) (hpos : start ≤ last) :
      ReadStep base auth input scope start pg (.insert .readCursors) batch
        ((upsertCursor auth.agentId (scope.cursorKeyFor auth input.allSessions) last).effect pg) batch

namespace ReadStep
variable {base pg pg' : Pg} {auth : AuthCtx} {input : ReadInput} {scope : Scope} {start : Int} {l : Stmt} {batch batch' : List Int}

theorem messages (h : ReadStep base auth input scope start pg l batch pg' batch') : pg'.db.messages = pg.db.messages := by
  cases h with
  | still | look => rfl
  | store =>
    simp only [Sql.effect, upsertCursor]
    split
    · next heq =>
      split at heq
      · cases heq
        rfl
      · cases heq
    · rfl

theorem grows (h : ReadStep base auth input scope start pg l batch pg' batch') : batch ⊆ batch' := by
  cases h with
  | still | store => exact List.Subset.refl _
  | look => exact List.nil_subset _

theorem subset (h : ReadStep base auth input scope start pg l batch pg' batch') {id : Int} (hid : id ∈ batch') :
    id ∈ batch ∨ id ∈ pg.db.messageIds := by
  cases h with
  | still | store => exact .inl hid
  | look hstart hsince hlast => exact .inr ((List.filter_sublist.map _).subset (hlast.subset hid))

/-- The cursor only ever moves to what has been found. -/
theorem cursor (h : ReadStep base auth input scope start pg l batch pg' batch') (hpg : base.Talking pg)
    (hagent : pg.db.agentExists auth.agentId) (hpos : 0 ≤ start) {key : String}
    (hkey : key = scope.cursorKeyFor auth input.allSessions) :
    pg'.db.lastRead auth.agentId key = pg.db.lastRead auth.agentId key ∨ pg'.db.lastRead auth.agentId key ∈ batch' := by
  cases h with
  | still | look => exact .inl rfl
  | store hlast hle =>
    rw [lastRead_upsertCursor hpg.cursors hagent (hpos.trans hle), if_pos ⟨rfl, hkey.symm⟩]
    rcases le_total (pg.db.lastRead auth.agentId key) _ with hmove | hstay
    · rw [max_eq_right hmove]
      exact .inr hlast
    · exact .inl (max_eq_left hstay)

end ReadStep

namespace Stage
variable {base pg : Pg} {auth : AuthCtx} {input : ReadInput} {scope : Scope} {start cursor cursor' : Int}
  {p : Prog Stmt Pg (Except BusError Reply)}

theorem mono (h : Stage base auth input scope start cursor p) (hle : cursor ≤ cursor') :
    Stage base auth input scope start cursor' p := by
  cases h with
  | asking hscope hfind => exact .asking hscope hfind
  | asked => exact .asked
  | placed hstart hcursor => exact .placed hstart (hcursor.trans hle)
  | looked rows hstart hcursor => exact .looked rows hstart (hcursor.trans hle)
  | answered hcursor => exact .answered fun m hm => (hcursor m hm).trans hle

/-- A read has found what its rows are. -/
theorem foundBy_answerWith (hagent : pg.db.agentExists auth.agentId) (since : Int) (rows : List MessageInfo) :
    foundBy pg (rest (answerWith auth input scope since rows)) = rows.reverse.map (·.id) := by
  unfold answerWith
  by_cases hmove : (input.onlyNew && decide (since < maxId since rows.reverse)) = true
  · rw [if_pos hmove, foundBy, if_pos (.inr rfl)]
    have hstore : (execute (.insert .readCursors) (upsertCursor auth.agentId (scope.cursorKeyFor auth input.allSessions)
        (maxId since rows.reverse))).exec pg = (.ok (), (upsertCursor auth.agentId
          (scope.cursorKeyFor auth input.allSessions) (maxId since rows.reverse)).effect pg) := by
      rw [Bus.exec_execute]
      simp only [Sql.answer, upsertCursor, hagent, if_true]
      rfl
    rw [show ∀ x : Bus MessageList, (rest x).run pg = (Reply.messages <$> x : Bus Reply).exec pg from fun _ => rfl,
      Bus.exec_map, Bus.exec_bind_ok hstore]
    rfl
  · rw [if_neg hmove]
    rfl

theorem readOn_eq (hnew : input.onlyNew = true) : readOn auth input scope =
    select .readCursors (fun pg => pg.db.lastRead auth.agentId (scope.cursorKeyFor auth input.allSessions)) >>=
      lookFrom auth input scope := by
  rw [readOn, readSince, if_pos hnew]

/-- A read that has not looked yet has found nothing. -/
theorem foundBy_readOn (hnew : input.onlyNew = true) : foundBy pg (rest (readOn auth input scope)) = [] := by
  rw [readOn_eq hnew]
  rfl

/-- What a read has found does not depend on the server. -/
theorem found (h : Stage base auth input scope start cursor p) (hnew : input.onlyNew = true) {pg' : Pg}
    (hagent : pg.db.agentExists auth.agentId) (hagent' : pg'.db.agentExists auth.agentId) :
    foundBy pg' p = foundBy pg p := by
  cases h with
  | looked rows => rw [foundBy_answerWith hagent, foundBy_answerWith hagent']
  | asked => rw [foundBy_readOn hnew, foundBy_readOn hnew]
  | _ => rfl

/-- The next statement of a read of what is new. -/
theorem turn (h : Stage base auth input scope start (pg.db.lastRead auth.agentId (scope.cursorKeyFor auth input.allSessions)) p)
    (hnew : input.onlyNew = true) (hbase : base.Valid) (hpg : base.Talking pg) (hagent : pg.db.agentExists auth.agentId)
    (hpos : 0 ≤ start) (hstart : start ≤ pg.db.lastRead auth.agentId (scope.cursorKeyFor auth input.allSessions)) :
    (∃ a, p = .ret a) ∨ ∃ l eff next, p = .act l (fun _ => true) eff next ∧
      Stage base auth input scope start
        ((eff pg).db.lastRead auth.agentId (scope.cursorKeyFor auth input.allSessions)) (next pg) ∧
      ReadStep base auth input scope start pg l (foundBy pg p) (eff pg) (foundBy (eff pg) (next pg)) := by
  cases h with
  | answered => exact .inl ⟨_, rfl⟩
  | @asking channel name hscope hfind =>
    right
    have hfind' : channelOf auth name pg = some channel := by
      rw [← hfind, channelOf, channelOf, Db.findChannel, Db.findChannel, hpg.posting.channels]
    subst hscope
    refine ⟨_, _, _, rest_select .., ?_, ?_⟩
    · rw [hfind']
      exact .asked
    · have hasked : foundBy (id pg) (rest (readChannel auth input name (some channel))) = [] := foundBy_readOn hnew
      rw [hfind', hasked]
      exact .still (by simp)
  | asked =>
    right
    rw [foundBy_readOn hnew, readOn_eq hnew]
    exact ⟨_, _, _, rest_select .., .placed hstart le_rfl, .still (by simp)⟩
  | placed hstart hcursor =>
    right
    refine ⟨_, _, _, rest_select .., .looked _ hstart hcursor, ?_⟩
    rw [foundBy_answerWith (by exact hagent)]
    exact .look hstart hcursor (newest_last hpg.ids (fun m => hpg.shown hbase) _ _)
  | @looked since rows hstart hcursor =>
    rw [foundBy_answerWith hagent, answerWith]
    split
    · next hmove =>
      right
      have hlast : start < maxId since rows.reverse := hstart.trans_lt (of_decide_eq_true (Bool.and_eq_true_iff.1 hmove).2)
      have hbatch : maxId since rows.reverse ∈ rows.reverse.map (·.id) := by
        rcases maxId_mem since rows.reverse with heq | ⟨info, hinfo, heq⟩
        · exact absurd (of_decide_eq_true (Bool.and_eq_true_iff.1 hmove).2) (not_lt_of_ge heq.le)
        · exact List.mem_map.2 ⟨info, hinfo, heq⟩
      have hstored : (upsertCursor auth.agentId (scope.cursorKeyFor auth input.allSessions) (maxId since rows.reverse)).answer pg =
          .ok () := by
        simp only [Sql.answer, upsertCursor, hagent, if_true]
        rfl
      refine ⟨_, _, _, rfl, ?_, ?_⟩
      · simp only [hstored]
        refine .answered fun info hinfo => ?_
        rw [lastRead_upsertCursor hpg.cursors hagent (hpos.trans hlast.le), if_pos ⟨rfl, rfl⟩]
        exact (le_maxId hinfo).trans (le_max_right _ _)
      · simp only [hstored]
        exact .store hbatch hlast.le
    · exact .inl ⟨_, rfl⟩

/-- What a read that has returned has found is at most where the cursor stands. -/
theorem le_cursor (h : Stage base auth input scope start cursor p) (hnew : input.onlyNew = true) (hret : p.next? = none)
    {id : Int} (hid : id ∈ foundBy pg p) : id ≤ cursor := by
  cases h with
  | asking | placed => cases hret
  | asked =>
    rw [readOn_eq hnew] at hret
    cases hret
  | @looked since rows hstart hcursor =>
    rw [answerWith] at hret hid
    split at hret
    · cases hret
    · next hstay =>
      rw [if_neg hstay] at hid
      obtain ⟨info, hinfo, rfl⟩ := List.mem_map.1 hid
      rw [hnew, Bool.true_and, decide_eq_true_eq, not_lt] at hstay
      exact ((le_maxId hinfo).trans hstay).trans hcursor
  | answered hcursor =>
    obtain ⟨info, hinfo, rfl⟩ := List.mem_map.1 hid
    exact hcursor info hinfo

theorem foundBy_readMessages (hnew : input.onlyNew = true) : foundBy pg (rest (readMessages auth input)) = [] := by
  rw [rest_readMessages]
  cases parseScope input.scope with
  | inl scope =>
    dsimp only
    rw [readOn_eq hnew]
    rfl
  | inr name => rfl

/-- Where a read begins. -/
theorem begin (h : ((resolveScope auth input.scope).exec base).1 = .ok scope) :
    Stage base auth input scope start cursor (rest (readMessages auth input)) := by
  rw [rest_readMessages]
  rw [resolveScope] at h
  cases hparse : parseScope input.scope with
  | inl found =>
    rw [hparse] at h
    obtain rfl := Except.ok.inj h
    exact .asked
  | inr name =>
    rw [hparse] at h
    simp only [channelIdByName, Bus.exec_bind, Bus.exec_select] at h
    cases hfind : channelOf auth name base with
    | none =>
      rw [channelOf] at hfind
      rw [hfind] at h
      cases h
    | some id =>
      have hfind' := hfind
      rw [channelOf] at hfind'
      rw [hfind'] at h
      exact .asking (Except.ok.inj h).symm hfind

end Stage

end Concurrent
end CrewSync
