import CrewSync.Theorems.Roster
import Mathlib.Data.List.Dedup

/-! Who is online: `list_agents`, the digest and the rows of the dashboard leave out the agents that are disabled, the
    tile of the dashboard counts them while their presence lasts. -/

namespace CrewSync
section
variable {now : Time} {db : Db} {team : Uuid}

/-- Two lists with the same keys, each once, are equally long. -/
theorem length_eq_of_keys {α β κ : Type} {l : List α} {l' : List β} {key : α → κ} {key' : β → κ} (h : (l.map key).Nodup)
    (h' : (l'.map key').Nodup) (hmem : ∀ k, k ∈ l.map key ↔ k ∈ l'.map key') : l.length = l'.length := by
  have hperm := (List.perm_ext_iff_of_nodup h h').2 hmem
  simpa only [List.length_map] using hperm.length_eq

/-- The teammates with a live session. -/
def Db.onlineNow (db : Db) (team : Uuid) (now : Time) : List Agent := (db.teammates team).filter (db.isLive now)

/-- The agents of the team that are disabled and have one. -/
def Db.ghosts (db : Db) (team : Uuid) (now : Time) : List Agent :=
  db.agents.filter fun a => a.teamId == team && a.disabledAt.isSome && db.isLive now a

theorem onlineNow_names (hnames : Rows.Keyed (·.name) (db.teammates team)) : ((db.onlineNow team now).map (·.name)).Nodup :=
  hnames.filter _

theorem isLive_iff {a : Agent} : db.isLive now a = true ↔ ∃ p ∈ db.presence, p.agentId = a.id ∧ live now p = true := by
  simp only [Db.isLive, List.any_eq_true, Bool.and_eq_true, beq_iff_eq]

/-! ### The four counts -/

theorem Entry.online_eq {onlineOnly : Bool} {a : Agent} {e : AgentInfo} (h : Entry now a (db.shown now onlineOnly a) e) :
    e.online = db.isLive now a := by
  rw [Bool.eq_iff_iff, h.online, isLive_iff]
  simp only [Db.shown, List.mem_filter, Bool.and_eq_true, beq_iff_eq, Bool.or_eq_true]
  constructor
  · rintro ⟨p, ⟨hp, hown, -⟩, hlive⟩
    exact ⟨p, hp, hown, hlive⟩
  · rintro ⟨p, hp, hown, hlive⟩
    exact ⟨p, ⟨hp, hown, .inr hlive⟩, hlive⟩

/-- `list_agents` counts the teammates that are online. -/
theorem Folded.count_eq {onlineOnly : Bool} {list : AgentList} (h : Folded db team now onlineOnly list)
    (hnames : Rows.Keyed (·.name) (db.teammates team)) : list.onlineCount = (db.onlineNow team now).length := by
  rw [h.count]
  refine length_eq_of_keys (h.once.sublist (List.filter_sublist.map _)) (onlineNow_names hnames) fun name => ?_
  simp only [List.mem_map, List.mem_filter, Db.onlineNow]
  constructor
  · rintro ⟨e, ⟨he, hon⟩, rfl⟩
    obtain ⟨a, ha, hentry⟩ := h.entries e he
    exact ⟨a, ⟨(List.mem_filter.1 ha).1, hentry.online_eq.symm.trans hon⟩, hentry.name.symm⟩
  · rintro ⟨a, ⟨ha, hlive⟩, rfl⟩
    obtain ⟨e, he, hentry⟩ := h.listed a (List.mem_filter.2 ⟨ha, by rw [hlive, Bool.or_true]⟩)
    exact ⟨e, ⟨he, hentry.online_eq.trans hlive⟩, hentry.name⟩

theorem orderBy_before (now : Time) (rows : List Presence) : (Rows.orderBy
    (fun p q => (live now p = true ∧ live now q = false) ∨ (live now p = live now q ∧ q.updatedAt ≤ p.updatedAt)) rows).Pairwise
      (Before now) := by
  refine (Rows.orderBy_sorted_key (fun p => liveKey (live now p) (some p.updatedAt)) ?_).imp before_iff.2
  exact fun _ _ => before_iff

/-- The row that stands for a teammate in the digest is live if any is. -/
theorem bestPresence_live (a : Agent) : (db.bestPresence now a.id).any (live now) = db.isLive now a := by
  rw [Db.bestPresence, head_live (orderBy_before now _), Bool.eq_iff_iff, isLive_iff, List.any_eq_true]
  simp only [Rows.mem_orderBy, List.mem_filter, beq_iff_eq, and_assoc]

/-- So does the digest. -/
theorem agentsSeen_count : ((db.agentsSeen team now).filter (·.online)).length = (db.onlineNow team now).length := by
  unfold Db.agentsSeen Db.onlineNow
  rw [List.filter_map, List.length_map, (Rows.orderBy_perm.filter _).length_eq, List.filter_map, List.length_map]
  refine congrArg List.length (List.filter_congr fun a _ => ?_)
  exact bestPresence_live a

theorem rowsOf_live (a : Agent) : (∃ r ∈ db.rowsOf a, r.online now = true) ↔ db.isLive now a = true := by
  have hkept := @rowsOf_kept_ne_nil now db true a
  simp only [Bool.not_true, Bool.false_or] at hkept
  rw [← hkept, ne_eq, List.filter_eq_nil_iff]
  push Not
  rfl

/-- The rows of the dashboard have their names. -/
theorem dashboard_names (hnames : Rows.Keyed (·.name) (db.teammates team)) {names : List String}
    (hrows : ∀ name, name ∈ names ↔ ∃ r ∈ db.roster team, r.online now = true ∧ r.name = name) :
    names.dedup.length = (db.onlineNow team now).length := by
  refine ((List.perm_ext_iff_of_nodup (List.nodup_dedup _) (onlineNow_names hnames)).2 fun name => ?_).length_eq.trans
    (List.length_map _)
  rw [List.mem_dedup, hrows]
  simp only [List.mem_map, List.mem_filter, Db.onlineNow]
  constructor
  · rintro ⟨r, hr, hlive, rfl⟩
    obtain ⟨a, ha, hr⟩ := List.mem_flatMap.1 (show r ∈ (db.teammates team).flatMap db.rowsOf from hr)
    exact ⟨a, ⟨ha, (rowsOf_live a).1 ⟨r, hr, hlive⟩⟩, congrArg Agent.name (mem_rowsOf hr).symm⟩
  · rintro ⟨a, ⟨ha, hlive⟩, rfl⟩
    obtain ⟨r, hr, hlive⟩ := (rowsOf_live a).2 hlive
    exact ⟨r, List.mem_flatMap.2 ⟨a, ha, hr⟩, hlive, congrArg Agent.name (mem_rowsOf hr)⟩

/-- The tile of the dashboard counts the disabled agents as well. -/
theorem tile_count (hids : Rows.Keyed (·.id) db.agents) :
    ((db.agents.filter fun a => a.teamId == team && db.isLive now a).map (·.id)).dedup.length =
      (db.onlineNow team now).length + (db.ghosts team now).length := by
  have hnodup : ((db.agents.filter fun a => a.teamId == team && db.isLive now a).map (·.id)).Nodup := hids.filter _
  rw [List.dedup_eq_self.2 hnodup, List.length_map, List.length_eq_length_filter_add (·.disabledAt.isNone)]
  simp only [List.filter_filter, Db.onlineNow, Db.teammates, Db.ghosts]
  congr 2
  · exact List.filter_congr fun a _ => by cases a.teamId == team <;> cases db.isLive now a <;> cases a.disabledAt <;> rfl
  · exact List.filter_congr fun a _ => by cases a.teamId == team <;> cases db.isLive now a <;> cases a.disabledAt <;> rfl

/-! ### What they say of one teammate -/

/-- The agent has no two presence rows of the same time. -/
def Db.Untied (db : Db) (a : Agent) : Prop :=
  ∀ p ∈ db.presence, ∀ q ∈ db.presence, p.agentId = a.id → q.agentId = a.id → p.updatedAt = q.updatedAt → p = q

theorem head_first {ps : List Presence} (h : ps.Pairwise (Before now)) {p : Presence} (hp : ps.head? = some p) :
    ∀ q ∈ ps, Before now p q := by
  obtain ⟨tail, rfl⟩ := List.head?_eq_some_iff.1 hp
  intro q hq
  rcases List.mem_cons.1 hq with rfl | hq
  · exact .inr ⟨rfl, le_rfl⟩
  · exact (List.pairwise_cons.1 h).1 q hq

/-- The first of the shown rows is the first of all. -/
theorem head_eq_best {onlineOnly : Bool} {a : Agent} {ps : List Presence} (huntied : db.Untied a)
    (hlisted : a ∈ db.listed team now onlineOnly) (hperm : ps.Perm (db.shown now onlineOnly a))
    (hsorted : ps.Pairwise (Before now)) : ps.head? = db.bestPresence now a.id := by
  have hshown : ∀ p, p ∈ ps ↔ p ∈ db.presence ∧ p.agentId = a.id ∧ (!onlineOnly || live now p) = true := by
    intro p
    rw [hperm.mem_iff, Db.shown, List.mem_filter, Bool.and_eq_true, beq_iff_eq]
  have hall := orderBy_before now (db.presence.filter (·.agentId == a.id))
  cases hbest : db.bestPresence now a.id with
  | none =>
    rw [List.head?_eq_none_iff, List.eq_nil_iff_forall_not_mem]
    intro p hp
    obtain ⟨hp, hown, -⟩ := (hshown p).1 hp
    have hnone := List.eq_nil_iff_forall_not_mem.1 (List.head?_eq_none_iff.1 hbest) p
    rw [Rows.mem_orderBy] at hnone
    exact hnone (List.mem_filter.2 ⟨hp, beq_iff_eq.2 hown⟩)
  | some q =>
    obtain ⟨hq, hqown⟩ := List.mem_filter.1 (Rows.mem_orderBy.1 (List.mem_of_head? hbest))
    rw [beq_iff_eq] at hqown
    have hfirst : ∀ p ∈ db.presence, p.agentId = a.id → Before now q p := fun p hp hown =>
      head_first hall hbest p (Rows.mem_orderBy.2 (List.mem_filter.2 ⟨hp, beq_iff_eq.2 hown⟩))
    have hqps : q ∈ ps := by
      refine (hshown q).2 ⟨hq, hqown, ?_⟩
      obtain ⟨-, honline⟩ := List.mem_filter.1 hlisted
      rw [Bool.or_eq_true] at honline ⊢
      refine honline.imp id fun hlive => ?_
      obtain ⟨p, hp, hown, hlive⟩ := isLive_iff.1 hlive
      rcases hfirst p hp hown with ⟨hl, -⟩ | ⟨hl, -⟩
      · exact hl
      · exact hl.trans hlive
    cases hhead : ps.head? with
    | none =>
      rw [List.head?_eq_none_iff.1 hhead] at hqps
      cases hqps
    | some p =>
      obtain ⟨hp, hown, -⟩ := (hshown p).1 (List.mem_of_head? hhead)
      rw [huntied p hp q hq hown hqown ?_]
      rcases hfirst p hp hown with ⟨hl, hl'⟩ | ⟨hl, hle⟩
      · rcases head_first hsorted hhead q hqps with ⟨hl'', -⟩ | ⟨hl'', -⟩
        · exact absurd (hl'.symm.trans hl'') Bool.false_ne_true
        · exact absurd (hl'.symm.trans (hl''.trans hl)) Bool.false_ne_true
      · rcases head_first hsorted hhead q hqps with ⟨hl', hl''⟩ | ⟨-, hle'⟩
        · exact absurd (hl''.symm.trans (hl.trans hl')) Bool.false_ne_true
        · exact le_antisymm hle hle'

/-- The row of a teammate in the digest. -/
theorem mem_agentsSeen {d : DigestAgent} : d ∈ db.agentsSeen team now ↔ ∃ a ∈ db.teammates team, d =
    { name := a.name, activity := (db.bestPresence now a.id).bind (·.activity)
      lastSeen := (db.bestPresence now a.id).map fun p => ts p.updatedAt
      online := (db.bestPresence now a.id).any (live now) } := by
  simp only [Db.agentsSeen, List.mem_map, Rows.mem_orderBy, Db.teammates]
  constructor
  · rintro ⟨r, ⟨a, ha, rfl⟩, rfl⟩
    exact ⟨a, ha, rfl⟩
  · rintro ⟨a, ha, rfl⟩
    exact ⟨_, ⟨a, ha, rfl⟩, rfl⟩

/-- The list and the digest are about the same teammates and say the same of each. -/
structure SameRoster (db : Db) (team : Uuid) (onlineOnly : Bool) (list : AgentList) (seen : List DigestAgent) : Prop where
  names : ∀ name, name ∈ list.agents.map (·.name) ↔ ∃ d ∈ seen, d.name = name ∧ (!onlineOnly || d.online) = true
  same : ∀ a ∈ db.teammates team, ∀ e ∈ list.agents, ∀ d ∈ seen, e.name = a.name → d.name = a.name →
    e.online = d.online ∧ (db.Untied a → e.activity = d.activity ∧ e.lastSeen = d.lastSeen)

theorem Folded.same {onlineOnly : Bool} {list : AgentList} (h : Folded db team now onlineOnly list)
    (hnames : Rows.Keyed (·.name) (db.teammates team)) : SameRoster db team onlineOnly list (db.agentsSeen team now) := by
  refine ⟨fun name => ?_, fun a ha e he d hd hname hname' => ?_⟩
  · rw [List.mem_map]
    constructor
    · rintro ⟨e, he, rfl⟩
      obtain ⟨a, ha, hentry⟩ := h.entries e he
      obtain ⟨ha, honline⟩ := List.mem_filter.1 ha
      exact ⟨_, mem_agentsSeen.2 ⟨a, ha, rfl⟩, hentry.name.symm, bestPresence_live a ▸ honline⟩
    · rintro ⟨d, hd, rfl, honline⟩
      obtain ⟨a, ha, rfl⟩ := mem_agentsSeen.1 hd
      rw [bestPresence_live] at honline
      obtain ⟨e, he, hentry⟩ := h.listed a (List.mem_filter.2 ⟨ha, honline⟩)
      exact ⟨e, he, hentry.name⟩
  · obtain ⟨b, hb, hentry⟩ := h.entries e he
    obtain rfl := hnames.eq (List.mem_filter.1 hb).1 ha (hentry.name.symm.trans hname)
    obtain ⟨c, hc, rfl⟩ := mem_agentsSeen.1 hd
    obtain rfl := hnames.eq hc ha hname'
    refine ⟨hentry.online_eq.trans (bestPresence_live c).symm, fun huntied => ?_⟩
    obtain ⟨ps, hperm, hsorted, -, htop⟩ := hentry.sessions
    rw [head_eq_best huntied hb hperm hsorted] at htop
    simp only [agentSession, AgentSession.mk.injEq] at htop
    exact ⟨htop.2.2.2.2.1, htop.2.2.2.2.2.1⟩

end

/-! ### The views -/

section
variable [Platform] {auth : AuthCtx} {pg : Pg}

/-- The list, the digest and the two queries of the dashboard count the same teammates online, and the list and the digest
    say the same of each. -/
structure ViewsAgree (db : Db) (team : Uuid) (onlineOnly : Bool) (list : AgentList) (digest : DigestResult)
    (totals : Dashboard.Totals) (rows : List Dashboard.AgentRow) : Prop where
  seen : (digest.agentsSeen.filter (·.online)).length = list.onlineCount
  tile : totals.agentsOnline = list.onlineCount
  named : ((rows.filter (·.online)).map (·.name)).dedup.length = list.onlineCount
  roster : SameRoster db team onlineOnly list digest.agentsSeen

/-- The views agree on who is online just when no disabled agent of the team has a live presence. -/
theorem views_agree_iff (hpg : pg.Reachable) (now : Time) (auth : AuthCtx) (onlineOnly : Bool) (hours : Int)
    (allChannels : Bool) : ∃ list digest totals rows,
      (listAgents auth onlineOnly).exec { pg with now } = (.ok list, { pg with now }) ∧
      (teamDigest auth hours allChannels).exec { pg with now } = (.ok digest, { pg with now }) ∧
      (Dashboard.loadTotals auth.teamId).exec { pg with now } = (.ok totals, { pg with now }) ∧
      (Dashboard.loadAgents auth.teamId).exec { pg with now } = (.ok rows, { pg with now }) ∧
      (ViewsAgree pg.db auth.teamId onlineOnly list digest totals rows ↔
        ∀ a ∈ pg.db.agents, a.teamId = auth.teamId → a.disabledAt.isSome = true → pg.db.isLive now a = false) := by
  have hkeys := hpg.valid.keys
  have hnames := teammates_named hkeys.agentNames auth.teamId
  have hfolded := @foldRoster_folded now pg.db auth.teamId onlineOnly hnames
  have hcount := hfolded.count_eq hnames
  obtain ⟨-, digest, -, hdigest, -, hseen, -⟩ := teamDigest_exec auth hours allChannels { pg with now }
  refine ⟨_, digest, _, _, listAgents_exec auth onlineOnly _, hdigest, rfl, rfl, ?_⟩
  have htile := @tile_count now pg.db auth.teamId hkeys.agents
  have hghosts : (pg.db.ghosts auth.teamId now).length = 0 ↔
      ∀ a ∈ pg.db.agents, a.teamId = auth.teamId → a.disabledAt.isSome = true → pg.db.isLive now a = false := by
    rw [List.length_eq_zero_iff, Db.ghosts, List.filter_eq_nil_iff]
    refine forall₂_congr fun a _ => ?_
    simp only [Bool.and_eq_true, beq_iff_eq, not_and, Bool.not_eq_true, and_imp]
  rw [← hghosts]
  constructor
  · intro h
    have hsum := htile.symm.trans (h.tile.trans hcount)
    omega
  · intro h
    refine ⟨?_, ?_, ?_, hseen ▸ hfolded.same hnames⟩
    · rw [hseen]
      exact agentsSeen_count.trans hcount.symm
    · refine htile.trans ?_
      rw [h]
      exact hcount.symm
    · refine (dashboard_names hnames fun name => ?_).trans hcount.symm
      simp only [List.mem_map, List.mem_filter]
      constructor
      · rintro ⟨row, ⟨⟨r, hr, rfl⟩, hlive⟩, rfl⟩
        exact ⟨r, Rows.mem_orderBy.1 hr, hlive, rfl⟩
      · rintro ⟨r, hr, hlive, rfl⟩
        exact ⟨_, ⟨⟨r, Rows.mem_orderBy.2 hr, rfl⟩, hlive⟩, rfl⟩

end

section
open Sample
attribute [local instance] Platform.ascii

/-- Ann is at work when she is disabled. -/
def disabled : Pg :=
  let input : HeartbeatInput := { status := none, repo := none, branch := none, activity := none, ttlSeconds := none }
  (Pg.init 0).after (crew ++ [.call ann 0 (.heartbeat input), .command 0 (.agentDisable "core" "ann")])

/-- While ann is enabled. -/
theorem moved_agree : ∃ list digest totals rows,
    (listAgents bob false).exec { moved with now := 1 } = (.ok list, { moved with now := 1 }) ∧
    (teamDigest bob 24 true).exec { moved with now := 1 } = (.ok digest, { moved with now := 1 }) ∧
    (Dashboard.loadTotals 0).exec { moved with now := 1 } = (.ok totals, { moved with now := 1 }) ∧
    (Dashboard.loadAgents 0).exec { moved with now := 1 } = (.ok rows, { moved with now := 1 }) ∧
    ViewsAgree moved.db 0 false list digest totals rows := by
  obtain ⟨list, digest, totals, rows, hlist, hdigest, htotals, hrows, hiff⟩ :=
    @views_agree_iff Platform.ascii moved ((Pg.Reachable.init 0).after _) 1 bob false 24 true
  exact ⟨list, digest, totals, rows, hlist, hdigest, htotals, hrows, hiff.2 (by decide)⟩

/-- The tile still counts her, the list does not. -/
theorem ghost_counted : disabled.Reachable ∧ ∃ list totals, (listAgents bob false).exec disabled = (.ok list, disabled) ∧
    (Dashboard.loadTotals 0).exec disabled = (.ok totals, disabled) ∧ list.onlineCount = 0 ∧ totals.agentsOnline = 1 := by
  have htotals : ∃ totals, (Dashboard.loadTotals 0).exec disabled = (.ok totals, disabled) ∧ totals.agentsOnline = 1 := by
    unfold Dashboard.loadTotals
    exact ⟨_, Bus.exec_select _ _, by decide⟩
  obtain ⟨totals, htotals, htile⟩ := htotals
  exact ⟨(Pg.Reachable.init 0).after _, _, totals, listAgents_exec bob false disabled, htotals, by decide, htile⟩

end
end CrewSync
