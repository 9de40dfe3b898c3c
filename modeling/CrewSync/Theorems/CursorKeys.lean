import CrewSync.Theorems.Addresses
import CrewSync.Theorems.ChannelNames
import CrewSync.Theorems.Cursors

/-! The windows of an agent, each with a read position of its own: a scope, a session, and a view of one session or of
    all of them. Their keys differ, so that a read moves its own position only. -/

namespace CrewSync
section
variable [Platform]
open Platform

/-- What the code relies on: the text of a `UUID` is hexadecimal digits and hyphens. -/
class Platform.LawfulUuid : Prop extends Platform.Lawful where
  slashless (u : Uuid) : '/' ∉ (uuidText u).toList

omit [Platform] in
theorem Platform.ascii_lawfulUuid : @Platform.LawfulUuid Platform.ascii := by
  refine @Platform.LawfulUuid.mk Platform.ascii Platform.ascii_lawful fun u hmem => ?_
  change '/' ∈ ("00000000-0000-4000-8000-" ++ String.ofList (List.replicate (12 - (Nat.toDigits 10 u).length) '0' ++
    Nat.toDigits 10 u)).toList at hmem
  simp only [String.toList_append, String.toList_ofList, List.mem_append] at hmem
  rcases hmem with hmem | hmem | hmem
  · exact absurd hmem (by decide)
  · cases List.eq_of_mem_replicate hmem
  · exact absurd (Nat.isDigit_of_mem_toDigits (by decide) (by decide) hmem) (by decide)

/-! ### Windows -/

/-- A scope, without the name that a channel is shown under. -/
inductive ReadScope where
  | all
  | inbox
  | channel (id : Uuid)
  deriving DecidableEq

def Scope.read : Scope → ReadScope
  | .all => .all
  | .inbox => .inbox
  | .channel id _ => .channel id

def ReadScope.base : ReadScope → String
  | .all => "all"
  | .inbox => "inbox"
  | .channel id => "channel:" ++ uuidText id

structure Window where
  scope : ReadScope
  session : String
  allSessions : Bool
  deriving DecidableEq

namespace Window

/-- The key of the window's cursor. -/
def key (w : Window) : String := cursorScopeFor w.scope.base w.session w.allSessions

/-- What the key says after its base. -/
def mark (w : Window) : Option String :=
  if w.session.isEmpty && !w.allSessions then none
  else some ((if w.allSessions then "a/" else "s/") ++ w.session)

end Window

/-- The window of a read. -/
def Scope.window (scope : Scope) (auth : AuthCtx) (allSessions : Bool) : Window := ⟨scope.read, auth.session, allSessions⟩

theorem Scope.window_key (scope : Scope) (auth : AuthCtx) (allSessions : Bool) :
    (scope.window auth allSessions).key = scope.cursorKeyFor auth allSessions := by
  cases scope <;> rfl

/-! ### Keys -/

/-- A key is written like an address: the base, a `/` and the mark. -/
theorem Window.key_eq (w : Window) : w.key = addressOf w.scope.base w.mark := by
  rcases w with ⟨scope, session, allSessions⟩
  have happend : ∀ mode : String, scope.base ++ ("/" ++ mode) ++ session = scope.base ++ "/" ++ (mode ++ session) := by
    intro mode
    rw [String.append_assoc, String.append_assoc, String.append_assoc]
  unfold Window.key Window.mark cursorScopeFor addressOf
  dsimp only
  cases session.isEmpty with
  | true =>
    cases allSessions with
    | false => rfl
    | true => exact happend "a/"
  | false =>
    cases allSessions with
    | false => exact happend "s/"
    | true => exact happend "a/"

omit [Platform] in
theorem Window.mark_inj {w w' : Window} (h : w.mark = w'.mark) : w.session = w'.session ∧ w.allSessions = w'.allSessions := by
  rcases w with ⟨scope, session, allSessions⟩
  rcases w' with ⟨scope', session', allSessions'⟩
  unfold Window.mark at h
  dsimp only at h ⊢
  by_cases hbare : (session.isEmpty && !allSessions) = true
  · rw [if_pos hbare] at h
    by_cases hbare' : (session'.isEmpty && !allSessions') = true
    · simp only [Bool.and_eq_true, String.isEmpty_iff, Bool.not_eq_true'] at hbare hbare'
      exact ⟨hbare.1.trans hbare'.1.symm, hbare.2.trans hbare'.2.symm⟩
    · rw [if_neg hbare'] at h
      cases h
  · rw [if_neg hbare] at h
    by_cases hbare' : (session'.isEmpty && !allSessions') = true
    · rw [if_pos hbare'] at h
      cases h
    · rw [if_neg hbare'] at h
      have htext := congrArg String.toList (Option.some.inj h)
      rw [String.toList_append, String.toList_append] at htext
      cases allSessions with
      | false =>
        cases allSessions' with
        | false => exact ⟨String.ext_iff.2 (List.append_cancel_left htext), rfl⟩
        | true => simp at htext
      | true =>
        cases allSessions' with
        | false => simp at htext
        | true => exact ⟨String.ext_iff.2 (List.append_cancel_left htext), rfl⟩

section
variable [Platform.LawfulUuid]

theorem ReadScope.base_slashless (scope : ReadScope) : '/' ∉ scope.base.toList := by
  cases scope with
  | all => simp [ReadScope.base]
  | inbox => simp [ReadScope.base]
  | channel id => simpa [ReadScope.base, String.toList_append] using LawfulUuid.slashless id

theorem ReadScope.base_inj {scope scope' : ReadScope} (h : scope.base = scope'.base) : scope = scope' := by
  have hhead := congrArg (fun s : String => s.toList.head?) h
  cases scope with
  | all =>
    cases scope' with
    | all => rfl
    | inbox => simp [ReadScope.base] at hhead
    | channel id => simp [ReadScope.base, String.toList_append] at hhead
  | inbox =>
    cases scope' with
    | all => simp [ReadScope.base] at hhead
    | inbox => rfl
    | channel id => simp [ReadScope.base, String.toList_append] at hhead
  | channel id =>
    cases scope' with
    | all => simp [ReadScope.base, String.toList_append] at hhead
    | inbox => simp [ReadScope.base, String.toList_append] at hhead
    | channel id' =>
      have htext := congrArg String.toList h
      simp only [ReadScope.base, String.toList_append] at htext
      have hparse := congrArg parseUuid (String.ext_iff.2 (List.append_cancel_left htext))
      rw [Lawful.parse_text, Lawful.parse_text] at hparse
      rw [Option.some.inj hparse]

/-- Every window has a key of its own. -/
theorem Window.key_injective : Function.Injective Window.key := by
  intro w w' h
  rw [Window.key_eq, Window.key_eq] at h
  obtain ⟨hbase, hmark⟩ := addressOf_inj (ReadScope.base_slashless _) (ReadScope.base_slashless _) h
  obtain ⟨hsession, hall⟩ := Window.mark_inj hmark
  rcases w with ⟨scope, session, allSessions⟩
  obtain rfl := ReadScope.base_inj hbase
  obtain rfl := hsession
  obtain rfl := hall
  rfl

/-! ### Reads -/

section
variable {pg : Pg}

/-- The read is one of the window. -/
def Pg.ReadsIn (pg : Pg) (auth : AuthCtx) (input : ReadInput) (w : Window) : Prop :=
  ∃ scope, ((resolveScope auth input.scope).exec pg).1 = .ok scope ∧ scope.window auth input.allSessions = w

omit [Platform.LawfulUuid] in
/-- The server with other cursors. -/
def Pg.withCursors (pg : Pg) (cursors : List ReadCursor) : Pg := { pg with db := { pg.db with cursors } }

omit [Platform] [Platform.LawfulUuid] in
theorem upsertCursor_effect {agent : Uuid} (hagent : pg.db.agentExists agent) (key : String) (last : Int) :
    ∃ cursors, (upsertCursor agent key last).effect pg = pg.withCursors cursors := by
  simp only [Sql.effect, upsertCursor, hagent, if_true]
  exact ⟨_, rfl⟩

omit [Platform.LawfulUuid] in
theorem channelIdByName_exec (team : Uuid) (raw : String) : (channelIdByName team raw).exec pg =
    (((pg.db.findChannel team (normalizeChannel raw)).map (·.id)).elim (.error (noChannel (normalizeChannel raw))) .ok, pg) := by
  unfold channelIdByName
  rw [Bus.exec_bind_ok (Bus.exec_select _ _)]
  cases (pg.db.findChannel team (normalizeChannel raw)).map (·.id) <;> rfl

omit [Platform.LawfulUuid] in
theorem resolveScope_withCursors (auth : AuthCtx) (raw : String) (cursors : List ReadCursor) :
    ((resolveScope auth raw).exec (pg.withCursors cursors)).1 = ((resolveScope auth raw).exec pg).1 := by
  unfold resolveScope
  cases parseScope raw with
  | inl scope => rfl
  | inr name =>
    have hsame : (pg.withCursors cursors).db.findChannel auth.teamId (normalizeChannel name) =
        pg.db.findChannel auth.teamId (normalizeChannel name) := rfl
    dsimp only
    rw [Bus.exec_bind, Bus.exec_bind, channelIdByName_exec, channelIdByName_exec, hsame]
    cases (pg.db.findChannel auth.teamId (normalizeChannel name)).map (·.id) <;> rfl

omit [Platform.LawfulUuid] in
/-- A read of a channel that is not there. -/
theorem call_unresolved {auth : AuthCtx} (hauth : auth.authentic pg.db = true) (pid : Nat) {input : ReadInput} {e : BusError}
    (hscope : ((resolveScope auth input.scope).exec pg).1 = .error e) :
    pg.call auth pid (.readMessages input) = (.error e, pg) := by
  have hresolve : (resolveScope auth input.scope).exec pg = (.error e, pg) := Prod.ext hscope (resolveScope_readOnly pg)
  rw [Pg.call, if_pos hauth, Call.run, Bus.exec_map, readMessages, Bus.exec_bind_error hresolve]
  rfl

omit [Platform.LawfulUuid] in
/-- A read changes cursors only, and of these the one of its window. -/
theorem Pg.read_cursors (hpg : pg.Reachable) (auth : AuthCtx) (pid : Nat) (input : ReadInput) :
    ∃ cursors, pg.next (.call auth pid (.readMessages input)) = pg.withCursors cursors ∧
      ∀ agent key, (pg.next (.call auth pid (.readMessages input))).db.lastRead agent key = pg.db.lastRead agent key ∨
        auth.agentId = agent ∧ ∃ w, pg.ReadsIn auth input w ∧ w.key = key := by
  have same : pg.next (.call auth pid (.readMessages input)) = pg →
      ∃ cursors, pg.next (.call auth pid (.readMessages input)) = pg.withCursors cursors ∧
        ∀ agent key, (pg.next (.call auth pid (.readMessages input))).db.lastRead agent key = pg.db.lastRead agent key ∨
          auth.agentId = agent ∧ ∃ w, pg.ReadsIn auth input w ∧ w.key = key := by
    intro h
    rw [h]
    exact ⟨pg.db.cursors, rfl, fun _ _ => .inl rfl⟩
  by_cases hauth : auth.authentic pg.db = true
  · cases hscope : ((resolveScope auth input.scope).exec pg).1 with
    | error e => exact same (congrArg Prod.snd (call_unresolved hauth pid hscope))
    | ok scope =>
      have hagent : pg.db.agentExists auth.agentId := Db.agentExists_iff.2 ⟨_, AuthCtx.authentic.caller hauth⟩
      have hread : pg.next (.call auth pid (.readMessages input)) = _ := congrArg Prod.snd (call_read hauth pid hscope)
      by_cases hmoved : input.onlyNew = true ∧ pg.db.readFrom auth scope input < (pg.db.readList auth scope input).cursor
      · rw [if_pos hmoved] at hread
        have hlast : 0 ≤ (pg.db.readList auth scope input).cursor := by
          rw [Db.readFrom, if_pos hmoved.1] at hmoved
          exact (hpg.lastRead_nonneg ..).trans hmoved.2.le
        rw [hread]
        obtain ⟨cursors, hcursors⟩ := upsertCursor_effect hagent (scope.cursorKeyFor auth input.allSessions)
          (pg.db.readList auth scope input).cursor
        refine ⟨cursors, hcursors, fun agent key => ?_⟩
        rw [lastRead_upsertCursor hpg.valid.keys.cursors hagent hlast]
        split
        · next hown => exact .inr ⟨hown.1, _, ⟨scope, hscope, rfl⟩, (scope.window_key ..).trans hown.2⟩
        · exact .inl rfl
      · rw [if_neg hmoved] at hread
        exact same hread
  · exact same (by rw [Pg.next, Pg.call, if_neg hauth])

/-- A read in one window leaves the cursors of the others. -/
theorem Pg.read_lastRead (hpg : pg.Reachable) {auth : AuthCtx} (pid : Nat) {input : ReadInput} {agent : Uuid} {w : Window}
    (hother : auth.agentId = agent → ¬ pg.ReadsIn auth input w) :
    (pg.next (.call auth pid (.readMessages input))).db.lastRead agent w.key = pg.db.lastRead agent w.key := by
  obtain ⟨-, -, hcursors⟩ := read_cursors hpg auth pid input
  rcases hcursors agent w.key with h | ⟨rfl, w', hreads, hkey⟩
  · exact h
  · obtain rfl := Window.key_injective hkey
    exact absurd hreads (hother rfl)

/-- What it answers to a read in another window is the same. -/
theorem Pg.read_answer (hpg : pg.Reachable) {auth auth' : AuthCtx} (pid pid' : Nat) {input input' : ReadInput}
    (hother : ∀ w, auth.agentId = auth'.agentId → pg.ReadsIn auth input w → ¬ pg.ReadsIn auth' input' w) :
    ((pg.next (.call auth pid (.readMessages input))).call auth' pid' (.readMessages input')).1 =
      (pg.call auth' pid' (.readMessages input')).1 := by
  have hlast : ∀ w, pg.ReadsIn auth' input' w →
      (pg.next (.call auth pid (.readMessages input))).db.lastRead auth'.agentId w.key = pg.db.lastRead auth'.agentId w.key :=
    fun w hw => read_lastRead hpg pid fun hagent hreads => hother w hagent hreads hw
  obtain ⟨cursors, hnext, -⟩ := read_cursors hpg auth pid input
  rw [hnext] at hlast ⊢
  by_cases hauth : auth'.authentic pg.db = true
  · have hauth' : auth'.authentic (pg.withCursors cursors).db = true := hauth
    have hresolve : ((resolveScope auth' input'.scope).exec (pg.withCursors cursors)).1 = _ :=
      resolveScope_withCursors auth' input'.scope cursors
    cases hscope : ((resolveScope auth' input'.scope).exec pg).1 with
    | error e => rw [call_unresolved hauth pid' hscope, call_unresolved hauth' pid' (hresolve.trans hscope)]
    | ok scope =>
      rw [call_read hauth pid' hscope, call_read hauth' pid' (hresolve.trans hscope)]
      have hfrom : (pg.withCursors cursors).db.readFrom auth' scope input' = pg.db.readFrom auth' scope input' := by
        unfold Db.readFrom
        rw [← scope.window_key, hlast _ ⟨scope, hscope, rfl⟩]
      have hlist : (pg.withCursors cursors).db.readList auth' scope input' = pg.db.readList auth' scope input' := by
        unfold Db.readList
        rw [hfrom]
        rfl
      rw [hlist]
  · rw [call, call, if_neg hauth, if_neg]
    exact hauth

/-- The event is no read of the agent in the window. -/
def Pg.Apart (agent : Uuid) (w : Window) (pg : Pg) (e : Event) : Prop :=
  ∀ auth pid input, e = .call auth pid (.readMessages input) → auth.agentId = agent → ¬ pg.ReadsIn auth input w

/-- Only a read of the agent in the window moves its cursor. -/
theorem Pg.next_lastRead_of_not (hpg : pg.Reachable) {e : Event} {agent : Uuid} {w : Window}
    (hother : Pg.Apart agent w pg e) : (pg.next e).db.lastRead agent w.key = pg.db.lastRead agent w.key := by
  have frame : Table.readCursors ∉ e.writes → (pg.next e).db.lastRead agent w.key = pg.db.lastRead agent w.key :=
    fun hn => next_frame hpg.valid e (fun db => db.lastRead agent w.key) fun db w hw => by
      cases w <;> first | rfl | exact absurd (hw List.mem_cons_self) hn
  cases e with
  | call auth pid c =>
    cases c with
    | readMessages input => exact read_lastRead hpg pid (hother auth pid input rfl)
    | _ => exact frame (by simp [Event.writes, Call.writes])
  | command pid c => exact frame (by cases c <;> simp [Event.writes, Command.writes])
  | _ => exact frame (by simp [Event.writes])

/-- Windows that differ have keys that differ, and the shared session keeps the bare key of the scope; so a read in one
    window moves no cursor and changes no answer of another one, and a run moves the cursor of a window by its reads
    only. -/
theorem windows_apart :
    Function.Injective Window.key ∧ (∀ scope : ReadScope, (Window.mk scope "" false).key = scope.base) ∧
      (∀ pg : Pg, pg.Reachable → ∀ auth pid input, (∀ w, ¬ pg.ReadsIn auth input w →
        (pg.next (.call auth pid (.readMessages input))).db.lastRead auth.agentId w.key = pg.db.lastRead auth.agentId w.key) ∧
        ∀ auth' pid' input', auth'.agentId = auth.agentId →
          (∀ w, pg.ReadsIn auth input w → ¬ pg.ReadsIn auth' input' w) →
            ((pg.next (.call auth pid (.readMessages input))).call auth' pid' (.readMessages input')).1 =
              (pg.call auth' pid' (.readMessages input')).1) ∧
      ∀ pg : Pg, pg.Reachable → ∀ agent w es, Runs.Along Pg.next (Pg.Apart agent w) pg es →
        (pg.after es).db.lastRead agent w.key = pg.db.lastRead agent w.key := by
  refine ⟨Window.key_injective, fun scope => rfl, fun pg hpg auth pid input => ⟨fun w hother => ?_, ?_⟩, ?_⟩
  · exact Pg.read_lastRead hpg pid fun _ => hother
  · intro auth' pid' input' _ hother
    exact Pg.read_answer hpg pid pid' fun w _ => hother w
  · intro pg hpg agent w es halong
    have hrun := halong.invariant (I := fun pg' : Pg => pg'.Reachable ∧ pg'.db.lastRead agent w.key = pg.db.lastRead agent w.key)
      ⟨hpg, rfl⟩ fun pg' e hother h => ⟨h.1.next e, (Pg.next_lastRead_of_not h.1 hother).trans h.2⟩
    exact hrun.2

end

end

end

section
attribute [local instance] Platform.ascii

/-- The key of a session named after a view, and that of the view. -/
theorem view_named_apart : (Window.mk .inbox "api+all-sessions" false).key ≠ (Window.mk .inbox "api" true).key :=
  fun h => absurd ((@windows_apart Platform.ascii Platform.ascii_lawfulUuid).1 h) (by decide)

end
end CrewSync
