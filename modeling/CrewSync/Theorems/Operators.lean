import CrewSync.Theorems.Addresses

/-! The names that operators give. `team_create` and `agent_add` store the trimmed name in lower case, while the
    commands and the addresses look a name up as it is given, trimmed at most. -/

namespace CrewSync
open Rows Platform

section
variable {pg : Pg} {team agent id : Uuid} {raw slug name : String}

/-! ### Teams keep their slugs -/

/-- The team `id` has the slug. -/
def Db.SlugOf (db : Db) (id : Uuid) (slug : String) : Prop := ∃ t ∈ db.teams, t.id = id ∧ t.slug = slug

/-- The agent `id` of the team has the name. -/
def Db.NameOf (db : Db) (team id : Uuid) (name : String) : Prop :=
  ∃ a ∈ db.agents, a.id = id ∧ a.teamId = team ∧ a.name = name

/-- Slugs stay unique, and teams keep theirs. -/
structure SlugsKept (db db' : Db) : Prop where
  unique : Keyed (·.slug) db'.teams
  kept : ∀ id slug, db.SlugOf id slug → db'.SlugOf id slug

theorem SlugsKept.refl {db : Db} (h : Keyed (·.slug) db.teams) : SlugsKept db db := ⟨h, fun _ _ h => h⟩

/-- A row with a new id and slug, or with those of one row. -/
theorem SlugsKept.put {db : Db} (h : Keyed (·.slug) db.teams) {r : Team}
    (hr : ∀ t ∈ db.teams, t.id = r.id ↔ t.slug = r.slug) : SlugsKept db ((Write.putTeam r).apply db) := by
  refine ⟨h.put_of_iff fun t ht => (hr t ht).symm, ?_⟩
  rintro id slug ⟨t, ht, rfl, rfl⟩
  by_cases hid : t.id = r.id
  · exact ⟨r, mem_put.2 (.inl rfl), hid.symm, ((hr t ht).1 hid).symm⟩
  · exact ⟨t, mem_put.2 (.inr ⟨ht, hid⟩), rfl, rfl⟩

section
variable [Platform]

/-- What an event keeps of the slugs, in a state with the keys. -/
def KeepsSlugs (pg pg' : Pg) : Prop :=
  Keyed (·.id) pg.db.teams → Keyed (·.slug) pg.db.teams → SlugsKept pg.db pg'.db

omit [Platform] in
theorem KeepsSlugs.refl (pg : Pg) : KeepsSlugs pg pg := fun _ h => .refl h

theorem teamCreate_slugs (raw : String) (name : Option String) : Bus.Moves KeepsSlugs (Admin.teamCreate raw name) := by
  unfold Admin.teamCreate
  dsimp only
  by_cases hempty : (toLowercase (trim raw)).isEmpty = true
  · rw [if_pos hempty]
    exact .throw_bind KeepsSlugs.refl
  rw [if_neg hempty]
  intro pg _ hslugs
  rw [Bus.exec_execute]
  dsimp only [Sql.effect, Admin.insertTeam]
  split
  · next b seqs ws hs =>
    split at hs
    · obtain ⟨-, rfl, rfl⟩ := Prod.mk.inj (Except.ok.inj hs) |>.imp_right Prod.mk.inj
      exact .refl hslugs
    next hslug =>
    split at hs
    · cases hs
    next hfresh =>
    obtain ⟨-, rfl, rfl⟩ := Prod.mk.inj (Except.ok.inj hs) |>.imp_right Prod.mk.inj
    refine .put hslugs fun t ht => ⟨fun hid => absurd (List.any_eq_true.2 ⟨t, ht, ?_⟩) hfresh,
      fun hsame => absurd (List.any_eq_true.2 ⟨t, ht, ?_⟩) hslug⟩
    · simpa using hid
    · simpa using hsame
  · exact .refl hslugs

omit [Platform] in
theorem teamQuota_slugs (team : String) (bytes : Option Int) : Bus.Moves KeepsSlugs (Admin.teamQuota team bytes) := by
  refine .reads KeepsSlugs.refl teamId_readOnly fun id => ?_
  by_cases hbytes : bytes.any (fun b => decide (b ≤ 0)) = true
  · rw [if_pos hbytes]
    exact .throw_bind KeepsSlugs.refl
  rw [if_neg hbytes]
  intro pg hids hslugs
  rw [Bus.exec_execute]
  dsimp only [Sql.effect, Admin.setQuota]
  cases hfind : pg.db.findTeam id with
  | none => exact .refl hslugs
  | some t =>
    have ht := List.mem_of_find?_eq_some hfind
    have hsame : ∀ b ∈ pg.db.teams, b.id = t.id ↔ b.slug = t.slug := fun b hb => hids.iff hslugs hb ht
    exact .put hslugs hsame

theorem Pg.next_slugs (hv : pg.Valid) (hslugs : Keyed (·.slug) pg.db.teams) (e : Event) :
    SlugsKept pg.db (pg.next e).db := by
  have frame : Table.teams ∉ e.writes → SlugsKept pg.db (pg.next e).db := by
    intro hn
    have hsame : (pg.next e).db.teams = pg.db.teams := Pg.next_frame hv e Db.teams fun db w hw => by
      cases w <;> first | rfl | exact absurd (hw List.mem_cons_self) hn
    refine ⟨hsame ▸ hslugs, fun id slug h => ?_⟩
    rw [Db.SlugOf, hsame]
    exact h
  cases e with
  | call auth pid c => exact frame (by cases c <;> simp [Event.writes, Call.writes])
  | command pid c =>
    cases c with
    | teamCreate slug name => exact teamCreate_slugs slug name pg hv.keys.teams hslugs
    | teamQuota team bytes => exact teamQuota_slugs team bytes pg hv.keys.teams hslugs
    | _ => exact frame (by simp [Event.writes, Command.writes])
  | _ => exact frame (by simp [Event.writes])

theorem Pg.Reachable.slugs (h : pg.Reachable) : Keyed (·.slug) pg.db.teams := by
  induction h with
  | init now => exact .nil
  | @next pg h e ih => exact (Pg.next_slugs h.valid ih e).unique

/-! ### Agents keep their names -/

theorem Pg.next_nameOf (hv : pg.Valid) (e : Event) (h : pg.db.NameOf team agent name) :
    (pg.next e).db.NameOf team agent name := by
  refine next_lift (R := fun a b => a.NameOf team agent name → b.NameOf team agent name) hv e (fun _ h => h)
    (fun h h' hn => h' (h hn)) (fun seqs db w _ _ hw _ => ?_) h
  rintro ⟨a, ha, rfl, rfl, rfl⟩
  cases w with
  | putAgent r =>
    by_cases hid : a.id = r.id
    · obtain ⟨hteam, hname⟩ := Prod.mk.inj ((hw.2 a ha).1 hid)
      exact ⟨r, mem_put.2 (.inl rfl), hid.symm, hteam.symm, hname.symm⟩
    · exact ⟨a, mem_put.2 (.inr ⟨ha, hid⟩), rfl, rfl, rfl⟩
  | _ => exact ⟨a, ha, rfl, rfl, rfl⟩

/-- The team and the agent have the slug and the name. -/
structure Pg.Stored (pg : Pg) (t a : Uuid) (slug name : String) : Prop where
  team : pg.db.SlugOf t slug
  agent : pg.db.NameOf t a name

theorem Pg.after_slugOf (hpg : pg.Reachable) (h : pg.db.SlugOf id slug) (es : List Event) : (pg.after es).db.SlugOf id slug :=
  (Runs.invariant (I := fun pg : Pg => pg.Reachable ∧ pg.db.SlugOf id slug)
    (fun _ e h => ⟨h.1.next e, (Pg.next_slugs h.1.valid h.1.slugs e).kept _ _ h.2⟩) ⟨hpg, h⟩ es).2

theorem Pg.Stored.after (hpg : pg.Reachable) (h : pg.Stored team agent slug name) (es : List Event) :
    (pg.after es).Stored team agent slug name :=
  (Runs.invariant (I := fun pg : Pg => pg.Reachable ∧ pg.Stored team agent slug name)
    (fun _ e h => ⟨h.1.next e, (Pg.next_slugs h.1.valid h.1.slugs e).kept _ _ h.2.team,
      Pg.next_nameOf h.1.valid e h.2.agent⟩) ⟨hpg, h⟩ es).2

/-! ### Looking up -/

omit [Platform] in
theorem teamId_ok (h : ((Admin.teamId slug).exec pg).1 = .ok id) : pg.db.SlugOf id slug := by
  unfold Admin.teamId at h
  rw [Bus.exec_bind_ok (Bus.exec_select _ _)] at h
  cases hfind : pg.db.teams.find? (·.slug == slug) with
  | none =>
    rw [hfind] at h
    cases h
  | some t =>
    rw [hfind] at h
    obtain rfl := Except.ok.inj h
    exact ⟨t, List.mem_of_find?_eq_some hfind, rfl, by simpa using List.find?_some hfind⟩

omit [Platform] in
theorem teamId_exec (hslugs : Keyed (·.slug) pg.db.teams) (h : pg.db.SlugOf id slug) :
    (Admin.teamId slug).exec pg = (.ok id, pg) := by
  obtain ⟨t, ht, rfl, rfl⟩ := h
  have hfind : pg.db.teams.find? (·.slug == t.slug) = some t :=
    hslugs.find?_eq_some ht (beq_self_eq_true _) fun r _ h => beq_iff_eq.1 h
  unfold Admin.teamId
  rw [Bus.exec_bind_ok (Bus.exec_select _ _), hfind]
  rfl

omit [Platform] in
theorem findAgent_of_nameOf (hv : pg.Valid) (h : pg.db.NameOf team agent name) :
    ∃ a, pg.db.findAgent team name = some a ∧ a.id = agent ∧ a.teamId = team ∧ a.name = name := by
  obtain ⟨a, ha, rfl, rfl, rfl⟩ := h
  refine ⟨a, hv.keys.agentNames.find?_eq_some ha (by simp) fun r _ h => ?_, rfl, rfl, rfl⟩
  simpa [Db.agentKey] using h

/-! ### Creation -/

theorem teamCreate_ok {display : Option String} (h : ((Admin.teamCreate raw display).exec pg).1 = .ok ()) :
    ∃ t, ((Admin.teamCreate raw display).exec pg).2.db.SlugOf t (toLowercase (trim raw)) := by
  unfold Admin.teamCreate at h ⊢
  dsimp only at h ⊢
  by_cases hempty : (toLowercase (trim raw)).isEmpty = true
  · rw [if_pos hempty] at h
    cases h
  rw [if_neg hempty, Bus.exec_execute] at h ⊢
  dsimp only [Sql.answer, Sql.effect, Admin.insertTeam] at h ⊢
  by_cases hslug : pg.db.teams.any (·.slug == toLowercase (trim raw)) = true
  · rw [if_pos hslug]
    obtain ⟨t, ht, hsame⟩ := List.any_eq_true.1 hslug
    exact ⟨t.id, t, ht, rfl, beq_iff_eq.1 hsame⟩
  rw [if_neg hslug] at h ⊢
  by_cases hfresh : pg.db.hasTeam (randomUuid pg.seqs.uuids) = true
  · rw [if_pos hfresh] at h
    cases h
  · rw [if_neg hfresh]
    exact ⟨_, _, mem_put.2 (.inl rfl), rfl, rfl⟩

theorem agentAdd_ok {display : Option String} (h : ((Admin.agentAdd slug raw display).exec pg).1 = .ok ()) :
    (toLowercase (trim raw)).isEmpty = false ∧ ∃ t a, pg.db.SlugOf t slug ∧
      ((Admin.agentAdd slug raw display).exec pg).2.db.NameOf t a (toLowercase (trim raw)) := by
  unfold Admin.agentAdd at h ⊢
  cases ht : ((Admin.teamId slug).exec pg).1 with
  | error e =>
    rw [Bus.exec_bind_error (Prod.ext ht rfl)] at h
    cases h
  | ok t =>
    rw [Bus.exec_bind_ok (Prod.ext ht (teamId_readOnly pg))] at h ⊢
    dsimp only at h ⊢
    by_cases hempty : (toLowercase (trim raw)).isEmpty = true
    · rw [if_pos hempty] at h
      cases h
    rw [if_neg hempty, Bus.exec_execute] at h ⊢
    refine ⟨by simpa using hempty, t, ?_⟩
    dsimp only [Sql.answer, Sql.effect, Admin.upsertAgent] at h ⊢
    cases hfind : pg.db.findAgent t (toLowercase (trim raw)) with
    | some a =>
      obtain ⟨ha, hteam, hname⟩ := Db.findAgent_some hfind
      exact ⟨a.id, teamId_ok ht, _, mem_put.2 (.inl rfl), rfl, hteam, hname⟩
    | none =>
      rw [hfind] at h
      dsimp only at h ⊢
      by_cases hok : (pg.db.hasTeam t && !pg.db.agentExists (randomUuid pg.seqs.uuids)) = true
      · rw [if_pos hok]
        exact ⟨_, teamId_ok ht, _, mem_put.2 (.inl rfl), rfl, rfl, rfl⟩
      · rw [if_neg hok] at h
        cases h

/-! ### Agreement -/

/-- The text of a lookup that finds no agent. -/
def noAgent (name : String) : BusError := .notFound s!"no agent named '{name}' in this team"

/-- The text of a lookup that finds no team. -/
def noTeam (slug : String) : BusError := .invalid s!"no team with slug '{slug}'"

/-- The error does not say that an agent is missing. -/
def FindsAgent (e : BusError) : Prop := ∀ name, e ≠ noAgent name

/-- The error does not say that a team is missing. -/
def FindsTeam (e : BusError) : Prop := ∀ slug, e ≠ noTeam slug

/-- Every command and every address finds the team and the agent by the raw names. -/
structure Pg.Agrees [Sha256] (pg : Pg) (t a : Uuid) (rawTeam rawName : String) : Prop where
  add : ∀ display, ((Admin.agentAdd rawTeam rawName display).exec pg).1 = .ok () ∧
    ∃ r, ((Admin.agentAdd rawTeam rawName display).exec pg).2.db = (Write.putAgent r).apply pg.db ∧
      r.id = a ∧ r.teamId = t ∧ r.disabledAt = none
  issue : ∀ raw label, ∃ row, (Admin.tokenIssue raw rawTeam rawName label).exec pg = (.ok row, pg) ∧ row.agentId = a
  disable : ((Admin.agentDisable rawTeam rawName).exec pg).1 = .ok () ∧
    ∃ r, ((Admin.agentDisable rawTeam rawName).exec pg).2.db = (Write.putAgent r).apply pg.db ∧
      r.id = a ∧ r.teamId = t ∧ r.disabledAt = some pg.now
  hook : ∀ url kind events channel,
    (((Admin.webhookAdd rawTeam url kind events channel).exec pg).1 = .ok () →
      ∃ w, ((Admin.webhookAdd rawTeam url kind events channel).exec pg).2.db.webhooks = pg.db.webhooks ++ [w] ∧
        w.teamId = t) ∧
      ∀ e, ((Admin.webhookAdd rawTeam url kind events channel).exec pg).1 = .error e → FindsTeam e
  quota : ∀ bytes : Option Int, (∀ b ∈ bytes, 0 < b) → ((Admin.teamQuota rawTeam bytes).exec pg).1 = .ok () ∧
    ∃ r, ((Admin.teamQuota rawTeam bytes).exec pg).2.db = (Write.putTeam r).apply pg.db ∧
      r.id = t ∧ r.attachmentBytesLimit = bytes
  post : '/' ∉ rawName.toList → ∀ auth pid input, auth.authentic pg.db = true → auth.teamId = t →
    input.channel = none → input.«to» = some rawName →
      (∀ r, (pg.call auth pid (.postMessage input)).1 = .ok r →
        ∃ m, (pg.next (.call auth pid (.postMessage input))).db.messages = pg.db.messages ++ [m] ∧
          m.recipientAgentId = some a ∧ m.recipientSession = none) ∧
        ∀ e, (pg.call auth pid (.postMessage input)).1 = .error e → FindsAgent e
  ask : '/' ∉ rawName.toList → ∀ auth pid input received, auth.authentic pg.db = true → auth.teamId = t →
    input.«to» = rawName →
      (∀ r, (pg.call auth pid (.askAgent input received)).1 = .ok r →
        ∃ m ∈ (pg.next (.call auth pid (.askAgent input received))).db.messages,
          m.recipientAgentId = some a ∧ m.recipientSession = none ∧
          ∃ answer, r = .asked answer ∧ answer.questionMessageId = m.id) ∧
        ∀ e, (pg.call auth pid (.askAgent input received)).1 = .error e → FindsAgent e

section
variable {auth : AuthCtx} {db : Db} {a : Agent}

omit [Platform] in
/-- No other text is the one about an agent. -/
theorem findsAgent_message (r : Int) : FindsAgent (.notFound s!"message {r}") := by
  intro name h
  have := congrArg (fun e : BusError => match e with | .notFound msg => msg.toList.head? | _ => none) h
  simp [noAgent, toString, String.toList_append] at this

omit [Platform] in
theorem agentIdByName_meets {t : Uuid} {E : BusError → Prop} (hfind : db.findAgent t (trim name) = some a) :
    Bus.Meets (·.db = db) (agentIdByName t name) (fun id pg => id = a.id ∧ pg.db = db) E := by
  refine .bind (Q := fun row pg => row = some a.id ∧ pg.db = db) (.select fun pg h => ⟨?_, h⟩) fun row => .lift fun hrow => ?_
  · rw [h, hfind, Option.map_some]
  · subst hrow
    exact .pure fun _ h => ⟨rfl, h⟩

/-- A name without a `/` is the address of an agent in any session. -/
theorem parseAddress_name (hslash : '/' ∉ raw.toList) : parseAddress raw = .ok (trim raw, none) := by
  have hnone : splitSlash (trim raw) = none := by
    refine splitSlash_none_iff.2 fun hmem => hslash ?_
    rw [trim_toList] at hmem
    exact (Strip.strip_infix _ _).subset hmem
  unfold parseAddress
  dsimp only
  rw [hnone]

/-- A direct message to the agent. -/
def Target.Reaches (target : Target) (a : Agent) : Prop :=
  target.channel = none ∧ target.recipient = some a.id ∧ target.recipientSession = none

theorem resolveTarget_reaches (hslash : '/' ∉ raw.toList) (hfind : db.findAgent auth.teamId (trim raw) = some a) :
    Bus.Meets (·.db = db) (resolveTarget auth none (some raw)) (fun target pg => target.Reaches a ∧ pg.db = db)
      FindsAgent := by
  have hfind' : db.findAgent auth.teamId (trim (trim raw)) = some a := by rwa [trim_trim]
  refine .bind (Q := fun r pg => r = (trim raw, none) ∧ pg.db = db) (.check (fun _ r h hr => ⟨?_, h⟩) fun e he => ?_)
    fun r => .lift fun hr => ?_
  · exact Except.ok.inj (hr.symm.trans (parseAddress_name hslash))
  · rw [parseAddress_name hslash] at he
    cases he
  · subst hr
    refine .bind (agentIdByName_meets hfind') fun id => .lift fun hid => ?_
    subst hid
    exact .guard (fun _ name h => by cases h) fun _ => .pure fun _ h => ⟨⟨rfl, rfl, rfl⟩, h⟩

theorem postMessage_direct (hslash : '/' ∉ raw.toList) (hfind : db.findAgent auth.teamId (trim raw) = some a) (pid : Nat)
    {input : PostInput} (hchannel : input.channel = none) (hto : input.«to» = some raw) :
    Bus.Meets (·.db = db) (postMessage auth pid input)
      (fun r pg => ∃ m, pg.db.messages = db.messages ++ [m] ∧ r.message.id = m.id ∧ m.recipientAgentId = some a.id ∧
        m.recipientSession = none) FindsAgent := by
  have hresolve : Bus.Meets (·.db = db) (resolveTarget auth input.channel input.«to»)
      (fun target pg => target.Reaches a ∧ pg.db = db) FindsAgent := by
    rw [hchannel, hto]
    exact resolveTarget_reaches hslash hfind
  have h := postMessage_posts (fun name h => by cases h) (fun msg name h => by cases h) findsAgent_message hresolve pid
  refine ⟨fun pg hP r hr => ?_, h.fails⟩
  obtain ⟨target, m, files, rows, ⟨-, hrecipient, hsession⟩, -, hid, ⟨⟨i, now, rfl⟩, -⟩, htables⟩ := h.answers pg hP r hr
  exact ⟨_, congrArg Db.messages htables, hid, hrecipient, hsession⟩

/-- Waiting for an answer changes nothing, and does not fail. -/
theorem awaitAnswer_meets {E : BusError → Prop} (target : Uuid) (session : Option String) (question : Int)
    (received : List Received) :
    Bus.Meets (·.db = db) (awaitAnswer auth target session question received) (fun _ pg => pg.db = db) E := by
  induction received with
  | nil => exact .select fun _ h => h
  | cons r rest ih =>
    refine .ite (fun _ => .bind (Q := fun _ pg => pg.db = db) (.select fun _ h => h) fun found => ?_) fun _ => ih
    cases found with
    | some answer => exact .pure fun _ h => h
    | none => exact ih

theorem lookForAnswer_meets {E : BusError → Prop} (target : Uuid) (session : Option String) (question : Int)
    (received : List Received) :
    Bus.Meets (·.db = db) (lookForAnswer auth target session question received) (fun _ pg => pg.db = db) E := by
  refine .bind (Q := fun _ pg => pg.db = db) (.select fun _ h => h) fun found => ?_
  cases found with
  | some answer => exact .pure fun _ h => h
  | none => exact awaitAnswer_meets _ _ _ _

/-- A question to the agent, a new one or one that was asked before. -/
def Db.Asks (db : Db) (a : Agent) (question : Int) : Prop :=
  ∃ m ∈ db.messages, m.recipientAgentId = some a.id ∧ m.recipientSession = none ∧ question = m.id

theorem questionOf_direct (hslash : '/' ∉ raw.toList) (hfind : db.findAgent auth.teamId (trim raw) = some a) (pid : Nat)
    {input : AskInput} (hto : input.«to» = raw) :
    Bus.Meets (·.db = db) (questionOf auth pid input a.id none) (fun question pg => pg.db.Asks a question) FindsAgent := by
  have hslash' : '/' ∉ (trim raw).toList := by
    rw [trim_toList]
    exact fun hmem => hslash ((Strip.strip_infix _ _).subset hmem)
  have hfind' : db.findAgent auth.teamId (trim (trim raw)) = some a := by rwa [trim_trim]
  unfold questionOf
  split
  · next id hid =>
    refine .bind (Q := fun _ pg => pg.db.Asks a id) ?_ fun _ => .pure fun _ h => h
    refine .bind (Q := fun found pg => (found = true → db.Asks a id) ∧ pg.db = db) (.select fun pg h => ⟨fun hany => ?_, h⟩)
      fun found => .lift fun hfound => ?_
    · obtain ⟨m, hm, hquestion⟩ := List.any_eq_true.1 hany
      simp only [isQuestion, Bool.and_eq_true, beq_iff_eq] at hquestion
      exact ⟨m, h ▸ hm, hquestion.1.1.2, hquestion.2, hquestion.1.1.1.1.symm⟩
    · cases found with
      | false => exact .throw fun _ _ name h => by cases h
      | true => exact .pure fun pg h => h ▸ hfound rfl
  · split
    · exact .throw fun _ _ name h => by cases h
    · refine .bind (postMessage_direct hslash' hfind' pid rfl (by rw [hto])) fun posted => .pure fun pg h => ?_
      obtain ⟨m, hmessages, hid, hrecipient, hsession⟩ := h
      exact ⟨m, hmessages ▸ List.mem_append_right _ (List.mem_singleton_self m), hrecipient, hsession, hid⟩

theorem askAgent_direct (hslash : '/' ∉ raw.toList) (hfind : db.findAgent auth.teamId (trim raw) = some a) (pid : Nat)
    {input : AskInput} (hto : input.«to» = raw) (received : List Received) :
    Bus.Meets (·.db = db) (askAgent auth pid input received) (fun r pg => pg.db.Asks a r.questionMessageId) FindsAgent := by
  have hslash' : '/' ∉ (trim raw).toList := by
    rw [trim_toList]
    exact fun hmem => hslash ((Strip.strip_infix _ _).subset hmem)
  have hparse := parseAddress_name hslash'
  rw [trim_trim] at hparse
  have hfind' : db.findAgent auth.teamId (trim (trim raw)) = some a := by
    rw [trim_trim]
    exact hfind
  unfold askAgent
  dsimp only
  rw [hto]
  refine .bind (Q := fun r pg => r = (trim raw, none) ∧ pg.db = db) (.check (fun _ r h hr => ⟨?_, h⟩) fun e he => ?_)
    fun r => .lift fun hr => ?_
  · exact Except.ok.inj (hr.symm.trans hparse)
  · rw [hparse] at he
    cases he
  subst hr
  refine .bind (agentIdByName_meets hfind') fun id => .lift fun hid => ?_
  subst hid
  refine .bind (Q := fun _ pg => pg.db = db) ?_ fun _ => ?_
  · refine .ite (fun _ => .bind (Q := fun _ pg => pg.db = db) ?_ fun onlyMe => ?_) fun _ => .pure fun _ h => h
    · exact .bind (Q := fun _ pg => pg.db = db) (.select fun _ h => h) fun _ => .pure fun _ h => h
    · exact .ite (fun _ => .throw fun _ _ name h => by cases h) fun _ => .pure fun _ h => h
  · refine .bind (questionOf_direct hslash hfind pid hto) fun question => ?_
    refine .bind (Q := fun _ pg => pg.db.Asks a question) ⟨fun pg h answer hr => ?_, fun pg h e he => ?_⟩
      fun answer => .pure fun _ h => h
    · rw [lookForAnswer_readOnly pg]
      exact h
    · exact (lookForAnswer_meets a.id none question received).fails pg rfl e he

end

/-! ### The commands -/

section
variable {t a : Uuid} {rawTeam rawName : String}

theorem agentAdd_exec (hv : pg.Valid) (hslugs : Keyed (·.slug) pg.db.teams) (hteam : pg.db.SlugOf t slug)
    (hempty : (toLowercase (trim raw)).isEmpty = false) (hagent : pg.db.NameOf t a (toLowercase (trim raw)))
    (display : Option String) : ∃ r, (Admin.agentAdd slug raw display).exec pg =
      (.ok (), { pg with db := (Write.putAgent r).apply pg.db }) ∧ r.id = a ∧ r.teamId = t ∧ r.disabledAt = none := by
  obtain ⟨row, hfind, hid, hrow, -⟩ := findAgent_of_nameOf hv hagent
  refine ⟨{ row with displayName := display.or row.displayName, disabledAt := none }, ?_, hid, hrow, rfl⟩
  unfold Admin.agentAdd
  rw [Bus.exec_bind_ok (teamId_exec hslugs hteam)]
  dsimp only
  rw [if_neg (by simp [hempty]), Bus.exec_execute]
  simp only [Sql.answer, Sql.effect, Admin.upsertAgent, hfind]
  rfl

omit [Platform] in
theorem tokenIssue_exec [Sha256] (hv : pg.Valid) (hslugs : Keyed (·.slug) pg.db.teams) (hteam : pg.db.SlugOf t slug)
    (hagent : pg.db.NameOf t a (trim raw)) (token : String) (label : Option String) :
    ∃ row, (Admin.tokenIssue token slug raw label).exec pg = (.ok row, pg) ∧ row.agentId = a := by
  obtain ⟨r, hfind, rfl, -, -⟩ := findAgent_of_nameOf hv hagent
  refine ⟨⟨r.id, Admin.hashToken token, Admin.tokenPrefix token, label⟩, ?_, rfl⟩
  unfold Admin.tokenIssue
  rw [Bus.exec_bind_ok (teamId_exec hslugs hteam), Bus.exec_bind_ok (Bus.exec_select _ _), hfind]
  rfl

omit [Platform] in
theorem agentDisable_exec (hv : pg.Valid) (hslugs : Keyed (·.slug) pg.db.teams) (hteam : pg.db.SlugOf t slug)
    (hagent : pg.db.NameOf t a (trim raw)) : ∃ r, (Admin.agentDisable slug raw).exec pg =
      (.ok (), { pg with db := (Write.putAgent r).apply pg.db }) ∧ r.id = a ∧ r.teamId = t ∧
        r.disabledAt = some pg.now := by
  obtain ⟨row, hfind, hid, hrow, -⟩ := findAgent_of_nameOf hv hagent
  refine ⟨{ row with disabledAt := some pg.now }, ?_, hid, hrow, rfl⟩
  have hrows : (execute (.update .agents) (Admin.disable t (trim raw))).exec pg =
      (.ok 1, { pg with db := (Write.putAgent { row with disabledAt := some pg.now }).apply pg.db }) := by
    rw [Bus.exec_execute]
    simp only [Sql.answer, Sql.effect, Admin.disable, hfind]
    rfl
  unfold Admin.agentDisable
  rw [Bus.exec_bind_ok (teamId_exec hslugs hteam), Bus.exec_bind_ok hrows]
  rfl

omit [Platform] in
theorem teamQuota_exec (hv : pg.Valid) (hslugs : Keyed (·.slug) pg.db.teams) (hteam : pg.db.SlugOf t slug)
    {bytes : Option Int} (hbytes : ∀ b ∈ bytes, 0 < b) : ∃ r, (Admin.teamQuota slug bytes).exec pg =
      (.ok (), { pg with db := (Write.putTeam r).apply pg.db }) ∧ r.id = t ∧ r.attachmentBytesLimit = bytes := by
  have hexec := teamId_exec hslugs hteam
  obtain ⟨row, hmem, rfl, -⟩ := hteam
  have hfind : pg.db.findTeam row.id = some row :=
    hv.keys.teams.find?_eq_some hmem (beq_self_eq_true _) fun r _ h => beq_iff_eq.1 h
  refine ⟨{ row with attachmentBytesLimit := bytes }, ?_, rfl, rfl⟩
  have hnone : ¬ bytes.any (fun b => decide (b ≤ 0)) = true := by
    cases bytes with
    | none => simp
    | some b => simpa using hbytes b rfl
  unfold Admin.teamQuota
  rw [Bus.exec_bind_ok hexec, if_neg hnone, Bus.exec_execute]
  simp only [Sql.answer, Sql.effect, Admin.setQuota, hfind]
  rfl

omit [Platform] in
/-- A text about something else is not the one about a team. -/
theorem findsTeam_of_head {msg : String} (h : msg.toList.head? ≠ some 'n') : FindsTeam (.invalid msg) := by
  intro slug he
  rw [BusError.invalid.inj he] at h
  simp [toString, String.toList_append] at h

omit [Platform] in
theorem eventKinds_error {es : List String} {e : BusError} (h : Admin.eventKinds es = .error e) : FindsTeam e := by
  induction es generalizing e with
  | nil => cases h
  | cons name es ih =>
    rw [Admin.eventKinds] at h
    split at h
    · obtain rfl := Except.error.inj h
      exact findsTeam_of_head (by simp [toString, String.toList_append])
    · cases hes : Admin.eventKinds es with
      | ok ks =>
        rw [hes] at h
        cases h
      | error e' =>
        rw [hes] at h
        obtain rfl := Except.error.inj h
        exact ih hes

theorem webhookAdd_meets (hslugs : Keyed (·.slug) pg.db.teams) (hteam : pg.db.SlugOf t slug) (url kind events : String)
    (channel : Option String) : Bus.Meets (· = pg) (Admin.webhookAdd slug url kind events channel)
      (fun _ pg' => ∃ w, pg'.db.webhooks = pg.db.webhooks ++ [w] ∧ w.teamId = t) FindsTeam := by
  unfold Admin.webhookAdd
  refine .guard (fun _ => findsTeam_of_head (by decide)) fun _ => ?_
  refine .bind (Q := fun _ pg' => pg' = pg) (.check (fun _ _ h _ => h) fun e he => eventKinds_error he) fun kinds => ?_
  refine .guard (fun _ => findsTeam_of_head (by decide)) fun _ => ?_
  refine .bind (Q := fun id pg' => id = t ∧ pg' = pg) ⟨fun pg' h id hid => ?_, fun pg' h e he => ?_⟩
    fun id => .lift fun hid => ?_
  · subst h
    rw [teamId_exec hslugs hteam] at hid ⊢
    exact ⟨(Except.ok.inj hid).symm, rfl⟩
  · subst h
    rw [teamId_exec hslugs hteam] at he
    cases he
  subst hid
  refine .execute (fun pg' _ h ha => ?_) fun pg' e h he => ?_
  · subst h
    simp only [Sql.answer, Sql.effect, Admin.insertWebhook] at ha ⊢
    split at ha
    · next hok =>
      rw [if_pos hok]
      exact ⟨_, rfl, rfl⟩
    · cases ha
  · simp only [Sql.answer, Admin.insertWebhook] at he
    split at he
    · cases he
    · obtain rfl := Except.error.inj he
      exact fun slug h => by cases h

/-- The raw names are found just when the slug is as it is stored and the name is, but for the spaces around it. -/
theorem agrees_iff [Sha256] (hpg : pg.Reachable) (hempty : (toLowercase (trim rawName)).isEmpty = false)
    (h : pg.Stored t a (toLowercase (trim rawTeam)) (toLowercase (trim rawName))) :
    pg.Agrees t a rawTeam rawName ↔ toLowercase (trim rawTeam) = rawTeam ∧ toLowercase (trim rawName) = trim rawName := by
  have hv := hpg.valid
  constructor
  · intro hagrees
    -- The agent for which a token is issued is the one under the trimmed name, in the team under the raw slug.
    obtain ⟨row, hexec, hrow⟩ := hagrees.issue "" none
    have hok : ((Admin.tokenIssue "" rawTeam rawName none).exec pg).1 = .ok row := congrArg Prod.fst hexec
    unfold Admin.tokenIssue at hok
    cases hid : ((Admin.teamId rawTeam).exec pg).1 with
    | error e =>
      rw [Bus.exec_bind_error (Prod.ext hid rfl)] at hok
      cases hok
    | ok t' =>
      rw [Bus.exec_bind_ok (Prod.ext hid (teamId_readOnly pg)), Bus.exec_bind_ok (Bus.exec_select _ _)] at hok
      cases hfind : pg.db.findAgent t' (trim rawName) with
      | none =>
        rw [hfind] at hok
        cases hok
      | some b =>
        rw [hfind] at hok
        obtain rfl := Except.ok.inj hok
        obtain ⟨hb, rfl, hname⟩ := Db.findAgent_some hfind
        obtain ⟨a', ha', haid, rfl, hanamed⟩ := h.agent
        obtain rfl := hv.keys.agents.eq hb ha' ((show b.id = a from hrow).trans haid.symm)
        obtain ⟨x, hx, hxid, hxslug⟩ := teamId_ok hid
        obtain ⟨y, hy, hyid, hyslug⟩ := h.team
        obtain rfl := hv.keys.teams.eq hx hy (hxid.trans hyid.symm)
        exact ⟨hyslug.symm.trans hxslug, hanamed.symm.trans hname⟩
  · rintro ⟨hslug, hname⟩
    obtain ⟨hteam, hagent⟩ := h
    rw [hslug] at hteam
    have hagent' := hname ▸ hagent
    refine ⟨fun display => ?_, fun raw label => tokenIssue_exec hv hpg.slugs hteam hagent' raw label, ?_,
      fun url kind events channel => ?_, fun bytes hbytes => ?_, fun hslash auth pid input hauth ht hchannel hto => ?_,
      fun hslash auth pid input received hauth ht hto => ?_⟩
    · obtain ⟨r, hexec, hr⟩ := agentAdd_exec hv hpg.slugs hteam hempty hagent display
      rw [hexec]
      exact ⟨rfl, r, rfl, hr⟩
    · obtain ⟨r, hexec, hr⟩ := agentDisable_exec hv hpg.slugs hteam hagent'
      rw [hexec]
      exact ⟨rfl, r, rfl, hr⟩
    · have hmeets := webhookAdd_meets hpg.slugs hteam url kind events channel
      exact ⟨fun hok => hmeets.answers pg rfl () hok, fun e he => hmeets.fails pg rfl e he⟩
    · obtain ⟨r, hexec, hr⟩ := teamQuota_exec hv hpg.slugs hteam hbytes
      rw [hexec]
      exact ⟨rfl, r, rfl, hr⟩
    · subst ht
      obtain ⟨row, hfind, rfl, -, -⟩ := findAgent_of_nameOf hv hagent'
      obtain ⟨hanswers, hfails⟩ := Pg.call_meets (c := .postMessage input) (g := .posted) pid hauth rfl
        (postMessage_direct hslash hfind pid hchannel hto) rfl
      refine ⟨fun r hr => ?_, hfails⟩
      obtain ⟨-, -, m, hmessages, -, hreaches⟩ := hanswers r hr
      exact ⟨m, hmessages, hreaches⟩
    · subst ht
      obtain ⟨row, hfind, rfl, -, -⟩ := findAgent_of_nameOf hv hagent'
      obtain ⟨hanswers, hfails⟩ := Pg.call_meets (c := .askAgent input received) (g := .asked) pid hauth rfl
        (askAgent_direct hslash hfind pid hto received) rfl
      refine ⟨fun r hr => ?_, hfails⟩
      obtain ⟨answer, rfl, m, hm, hrecipient, hsession, hid⟩ := hanswers r hr
      exact ⟨m, hm, hrecipient, hsession, answer, rfl, hid⟩

/-- A team and an agent that were created by raw names are there from then on, and everything finds them by these names
    just when the slug was given as it is stored and the name was, but for the spaces around it. -/
theorem names_agree_iff [Sha256] (hpg : pg.Reachable) {pid pid' : Nat} {rawTeam rawName : String}
    {display display' : Option String} (hcreate : (((Command.teamCreate rawTeam display).run pid).exec pg).1 = .ok ())
    {es es' : List Event} {pg₁ pg₂ pg₃ : Pg} (h₁ : pg₁ = (pg.next (.command pid (.teamCreate rawTeam display))).after es)
    (hadd : (((Command.agentAdd (toLowercase (trim rawTeam)) rawName display').run pid').exec pg₁).1 = .ok ())
    (h₂ : pg₂ = pg₁.next (.command pid' (.agentAdd (toLowercase (trim rawTeam)) rawName display')))
    (h₃ : pg₃ = pg₂.after es') :
    ∃ t a, pg₁.db.SlugOf t (toLowercase (trim rawTeam)) ∧
      pg₂.Stored t a (toLowercase (trim rawTeam)) (toLowercase (trim rawName)) ∧
      pg₃.Stored t a (toLowercase (trim rawTeam)) (toLowercase (trim rawName)) ∧
      (pg₃.Agrees t a rawTeam rawName ↔
        toLowercase (trim rawTeam) = rawTeam ∧ toLowercase (trim rawName) = trim rawName) := by
  obtain ⟨t, ht⟩ := teamCreate_ok hcreate
  have hpg₁ : pg₁.Reachable := h₁ ▸ (hpg.next _).after es
  have ht₁ : pg₁.db.SlugOf t (toLowercase (trim rawTeam)) := by
    rw [h₁]
    exact Pg.after_slugOf (hpg.next (.command pid (.teamCreate rawTeam display))) ht es
  obtain ⟨hempty, t', a, ht', ha⟩ := agentAdd_ok hadd
  have hpg₂ : pg₂.Reachable := h₂ ▸ hpg₁.next _
  -- The slug names one team.
  obtain ⟨x, hx, rfl, hxslug⟩ := ht₁
  obtain ⟨y, hy, rfl, hyslug⟩ := ht'
  obtain rfl := hpg₁.slugs.eq hx hy (hxslug.trans hyslug.symm)
  have hteam : pg₁.db.SlugOf x.id (toLowercase (trim rawTeam)) := ⟨x, hx, rfl, hxslug⟩
  have hstored : pg₂.Stored x.id a (toLowercase (trim rawTeam)) (toLowercase (trim rawName)) := by
    refine ⟨?_, ?_⟩
    · rw [h₂]
      exact (Pg.next_slugs hpg₁.valid hpg₁.slugs _).kept _ _ hteam
    · rw [h₂]
      exact ha
  have hlater : pg₃.Stored x.id a (toLowercase (trim rawTeam)) (toLowercase (trim rawName)) := h₃ ▸ hstored.after hpg₂ es'
  exact ⟨x.id, a, hteam, hstored, hlater, agrees_iff (h₃ ▸ hpg₂.after es') hempty hlater⟩

end

end
end

section
attribute [local instance] Platform.ascii Sha256.fips

/-- An operator has created the team `core`. -/
def coreTeam : Pg := ((Pg.init 0).next (.command 0 (.teamCreate "core" none))).after []

/-- The agent `ann` was added to it, under a name with a space before it. -/
def coreWithAnn : Pg := coreTeam.next (.command 0 (.agentAdd (toLowercase (trim "core")) " ann" none))

theorem ann_agrees :
    ∃ t a, coreTeam.db.SlugOf t (toLowercase (trim "core")) ∧
      coreWithAnn.Stored t a (toLowercase (trim "core")) (toLowercase (trim " ann")) ∧
      coreWithAnn.Stored t a (toLowercase (trim "core")) (toLowercase (trim " ann")) ∧
      (coreWithAnn.Agrees t a "core" " ann" ↔
        toLowercase (trim "core") = "core" ∧ toLowercase (trim " ann") = trim " ann") :=
  @names_agree_iff (Pg.init 0) Platform.ascii Sha256.fips (@Pg.Reachable.init Platform.ascii 0) 0 0 "core" " ann" none none
    (by decide) [] [] coreTeam coreWithAnn coreWithAnn rfl (by decide) rfl rfl

/-- The team `Core` and its agent `Ann`, as an operator set them up. -/
def coreAnn : Pg := (Pg.init 0).after [.command 0 (.teamCreate "Core" none), .command 0 (.agentAdd "core" "Ann" none)]

/-- The raw slug is found by no command, and the raw name neither by a command nor as an address. -/
theorem core_ann_missed :
    coreAnn.db.teams.map (·.slug) = ["core"] ∧ coreAnn.db.agents.map (·.name) = ["ann"] ∧
      ((Admin.agentAdd "Core" "Ann" none).exec coreAnn).1 = .error (noTeam "Core") ∧
      ((Admin.teamQuota "Core" none).exec coreAnn).1 = .error (noTeam "Core") ∧
      ((Admin.webhookAdd "Core" "https://hooks" "slack" "message" none).exec coreAnn).1 = .error (noTeam "Core") ∧
      ((Admin.agentDisable "core" "Ann").exec coreAnn).1 = .error (.invalid "no agent 'Ann' in team 'core'") ∧
      ((agentIdByName 0 "Ann").exec coreAnn).1 = .error (noAgent "Ann") ∧
      ∀ a, ¬ coreAnn.Agrees 0 a "core" "Ann" := by
  refine ⟨by decide, by decide, by decide, by decide, by decide, by decide, by decide, fun a h => ?_⟩
  exact absurd h.disable.1 (by decide)

end
end CrewSync
