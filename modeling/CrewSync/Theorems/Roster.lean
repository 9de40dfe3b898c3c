import CrewSync.Lib.Grouped
import CrewSync.Lib.Sorted
import CrewSync.Footprint.Calls
import Mathlib.Data.Prod.Lex
import Mathlib.Data.String.Basic

/-! The roster of `list_agents`: one row for each presence of a teammate, folded in one pass to one entry for each
    teammate. -/

namespace CrewSync

/-! ### The orders as orders of keys -/

/-- `DESC NULLS LAST`. -/
def seenKey : Option Time → Bool ×ₗ Timeᵒᵈ
  | some t => toLex (false, OrderDual.toDual t)
  | none => toLex (true, OrderDual.toDual 0)

theorem descNullsLast_iff {a b : Option Time} : descNullsLast a b = true ↔ seenKey a ≤ seenKey b := by
  cases a <;> cases b <;> simp [descNullsLast, seenKey, Prod.Lex.toLex_le_toLex]

/-- Live rows first, then the most recent ones. -/
def liveKey (online : Bool) (seen : Option Time) : Boolᵒᵈ ×ₗ Bool ×ₗ Timeᵒᵈ :=
  toLex (OrderDual.toDual online, seenKey seen)

theorem liveKey_le_iff {online online' : Bool} {seen seen' : Option Time} :
    liveKey online seen ≤ liveKey online' seen' ↔
      (if online == online' then descNullsLast seen seen' else online) = true := by
  rw [liveKey, liveKey, Prod.Lex.toLex_le_toLex]
  cases online <;> cases online' <;> simp [descNullsLast_iff]

def RosterRow.key (now : Time) (r : RosterRow) : String ×ₗ Boolᵒᵈ ×ₗ Bool ×ₗ Timeᵒᵈ :=
  toLex (r.1.name, liveKey (r.online now) (r.2.map (·.updatedAt)))

theorem rosterOrder_iff {now : Time} {a b : RosterRow} : rosterOrder now a b = true ↔ a.key now ≤ b.key now := by
  rw [RosterRow.key, RosterRow.key, Prod.Lex.toLex_le_toLex, rosterOrder, liveKey_le_iff]
  by_cases h : a.1.name = b.1.name
  · simp [h]
  · simp [h, lt_iff_le_and_ne]

theorem agentOrder_iff {a b : AgentInfo} : agentOrder a b = true ↔
    toLex (OrderDual.toDual a.online, a.name) ≤ toLex (OrderDual.toDual b.online, b.name) := by
  rw [Prod.Lex.toLex_le_toLex, agentOrder]
  cases ha : a.online <;> cases hb : b.online <;> simp

section
variable {now : Time} {db : Db} {team : Uuid} {onlineOnly : Bool}

/-! ### The fold -/

/-- What the fold has made of the rows of one teammate. -/
def groupEntry (now : Time) : List RosterRow → AgentInfo
  | [] => { name := "", displayName := none, session := none, status := "", repo := none, branch := none, activity := none
            lastSeen := none, online := false, sessions := [] }
  | r :: rows =>
    let lead := agentSession now r
    { name := r.1.name, displayName := r.1.displayName, session := lead.session, status := lead.status, repo := lead.repo
      branch := lead.branch, activity := lead.activity, lastSeen := lead.lastSeen
      online := (r :: rows).any (·.online now), sessions := (r :: rows).map (agentSession now) }

def RosterRow.name (r : RosterRow) : String := r.1.name

/-- One pass over the sorted rows makes the entries of their groups. -/
theorem foldRow_groups (now : Time) {rows : List RosterRow} (h : rows.Pairwise fun a b => a.name ≤ b.name) :
    rows.foldl (foldRow now) [] = (rows.foldl (Grouped.join RosterRow.name) []).map (groupEntry now) := by
  refine Grouped.foldl_map (groupEntry now) (foldRow now) (fun r => ?_) (fun s g es r => ?_) h
  · simp [foldRow, groupEntry, agentSession]
  · by_cases hname : s.name = r.name
    · have hjoin : foldRow now (groupEntry now (s :: g) :: es) r =
          { groupEntry now (s :: g) with
            online := (groupEntry now (s :: g)).online || r.online now
            sessions := (groupEntry now (s :: g)).sessions ++ [agentSession now r] } :: es := if_pos (beq_iff_eq.2 hname)
      have hentry : groupEntry now (s :: g ++ [r]) =
          { groupEntry now (s :: g) with
            online := (groupEntry now (s :: g)).online || r.online now
            sessions := (groupEntry now (s :: g)).sessions ++ [agentSession now r] } := by
        simp [groupEntry, Bool.or_assoc]
      rw [if_pos hname, hjoin, hentry]
    · have hfresh : foldRow now (groupEntry now (s :: g) :: es) r =
          groupEntry now [r] :: groupEntry now (s :: g) :: es := by
        refine (if_neg (mt beq_iff_eq.1 hname)).trans ?_
        simp [groupEntry, agentSession]
      rw [if_neg hname, hfresh]

/-! ### The rows -/

/-- The teammates that are not disabled. -/
def Db.teammates (db : Db) (team : Uuid) : List Agent := db.agents.filter fun a => a.teamId == team && a.disabledAt.isNone

/-- The presence rows of the agent that the list is about. -/
def Db.shown (db : Db) (now : Time) (onlineOnly : Bool) (a : Agent) : List Presence :=
  db.presence.filter fun p => p.agentId == a.id && (!onlineOnly || live now p)

/-- The rows of one teammate, with one row for a teammate that has no presence. -/
def Db.rowsOf (db : Db) (a : Agent) : List RosterRow :=
  match db.presence.filter (·.agentId == a.id) with
  | [] => [(a, none)]
  | ps => ps.map fun p => (a, some p)

theorem mem_rowsOf {a : Agent} {r : RosterRow} (h : r ∈ db.rowsOf a) : r.1 = a := by
  unfold Db.rowsOf at h
  split at h
  · rw [List.mem_singleton.1 h]
  · obtain ⟨p, -, rfl⟩ := List.mem_map.1 h
    rfl

/-- The rows of a teammate that the query keeps: those of the presences, or the one that stands for none. -/
theorem rowsOf_kept (now : Time) (onlineOnly : Bool) (a : Agent) :
    (db.rowsOf a).filter (fun r => !onlineOnly || r.online now) =
      (if !onlineOnly && (db.presence.filter (·.agentId == a.id)).isEmpty then [(a, none)] else []) ++
        (db.shown now onlineOnly a).map fun p => (a, some p) := by
  have hshown : db.shown now onlineOnly a = (db.presence.filter (·.agentId == a.id)).filter fun p =>
      !onlineOnly || live now p := by
    rw [List.filter_filter]
    exact List.filter_congr fun p _ => Bool.and_comm _ _
  rw [hshown]
  unfold Db.rowsOf
  split
  · next hnone =>
    rw [hnone]
    cases onlineOnly <;> rfl
  · next hsome =>
    have hempty : (db.presence.filter (·.agentId == a.id)).isEmpty = false := by
      rw [List.isEmpty_eq_false_iff]
      exact hsome
    rw [hempty, Bool.and_false, if_neg Bool.false_ne_true, List.nil_append, List.filter_map]
    rfl

/-- The group of a teammate has the rows of its presences, in some order, or the one row that stands for none. -/
theorem group_cases {a : Agent} {g : List RosterRow}
    (hperm : g.Perm ((db.rowsOf a).filter fun r => !onlineOnly || r.online now)) :
    ∃ ps, ps.Perm (db.shown now onlineOnly a) ∧ (g = [(a, none)] ∧ ps = [] ∨ g = ps.map fun p => (a, some p)) := by
  rw [rowsOf_kept] at hperm
  split at hperm
  · next hnone =>
    have hempty : db.presence.filter (·.agentId == a.id) = [] := by
      rw [Bool.and_eq_true] at hnone
      exact List.isEmpty_iff.1 hnone.2
    have hshown : db.shown now onlineOnly a = [] := List.filter_eq_nil_iff.2 fun p hp hq => by
      rw [Bool.and_eq_true] at hq
      exact List.filter_eq_nil_iff.1 hempty p hp hq.1
    rw [hshown, List.map_nil, List.append_nil] at hperm
    exact ⟨[], hshown ▸ .nil, .inl ⟨List.perm_singleton.1 hperm, rfl⟩⟩
  · rw [List.nil_append] at hperm
    refine ⟨g.filterMap (·.2), ?_, .inr ?_⟩
    · refine (hperm.filterMap _).trans (.of_eq ?_)
      rw [List.filterMap_map]
      exact List.filterMap_some
    · rw [List.map_filterMap]
      refine (List.filterMap_some.symm.trans (List.filterMap_congr fun r hr => ?_))
      obtain ⟨p, -, rfl⟩ := List.mem_map.1 (hperm.mem_iff.1 hr)
      rfl

/-! ### The entries -/

/-- Live rows come before the others, and of two alike the more recent one. -/
def Before (now : Time) (p q : Presence) : Prop :=
  live now p = true ∧ live now q = false ∨ live now p = live now q ∧ q.updatedAt ≤ p.updatedAt

/-- The entry of a teammate: its presence rows in that order, each once, if there are two or more; the first of them on
    top; online if one of them is live. -/
structure Entry (now : Time) (a : Agent) (rows : List Presence) (e : AgentInfo) : Prop where
  name : e.name = a.name
  displayName : e.displayName = a.displayName
  sessions : ∃ ps : List Presence, ps.Perm rows ∧ ps.Pairwise (Before now) ∧
    e.sessions = (if ps.length < 2 then [] else ps.map fun p => agentSession now (a, some p)) ∧
    ({ session := e.session, status := e.status, repo := e.repo, branch := e.branch, activity := e.activity
       lastSeen := e.lastSeen, online := e.online } : AgentSession) = agentSession now (a, ps.head?)
  online : e.online = true ↔ ∃ p ∈ rows, live now p = true

theorem before_iff {p q : Presence} :
    Before now p q ↔ liveKey (live now p) (some p.updatedAt) ≤ liveKey (live now q) (some q.updatedAt) := by
  rw [liveKey_le_iff, Before]
  cases live now p <;> cases live now q <;> simp [descNullsLast]

theorem before_of_key {a : Agent} {p q : Presence} (h : RosterRow.key now (a, some p) ≤ RosterRow.key now (a, some q)) :
    Before now p q := by
  rw [RosterRow.key, RosterRow.key, Prod.Lex.toLex_le_toLex] at h
  exact before_iff.2 (h.resolve_left (lt_irrefl _)).2

/-- The first row is live if any is. -/
theorem head_live {ps : List Presence} (h : ps.Pairwise (Before now)) :
    (ps.head?).any (live now) = ps.any (live now) := by
  cases ps with
  | nil => rfl
  | cons p ps =>
    rw [List.head?_cons, Option.any_some, List.any_cons]
    cases hp : live now p with
    | true => rfl
    | false =>
      have hnone : ps.any (live now) = false := List.any_eq_false.2 fun q hq hlive => by
        rcases (List.pairwise_cons.1 h).1 q hq with ⟨hl, -⟩ | ⟨hl, -⟩
        · exact Bool.false_ne_true (hp.symm.trans hl)
        · exact Bool.false_ne_true ((hp.symm.trans hl).trans hlive)
      rw [hnone]
      rfl

theorem groupEntry_entry {a : Agent} {g : List RosterRow}
    (hperm : g.Perm ((db.rowsOf a).filter fun r => !onlineOnly || r.online now)) (hne : g ≠ [])
    (hsorted : g.Pairwise fun r s => r.key now ≤ s.key now) :
    Entry now a (db.shown now onlineOnly a) (dropSingle (groupEntry now g)) := by
  obtain ⟨ps, hps, ⟨rfl, rfl⟩ | rfl⟩ := group_cases hperm
  · refine ⟨rfl, rfl, ⟨[], hps, .nil, rfl, rfl⟩, iff_of_false Bool.false_ne_true ?_⟩
    rw [List.nil_perm.1 hps]
    simp
  · have hbefore : ps.Pairwise (Before now) := (List.pairwise_map.1 hsorted).imp before_of_key
    cases ps with
    | nil => exact absurd rfl hne
    | cons p ps =>
      have honline : (groupEntry now ((p :: ps).map fun p => (a, some p))).online = (p :: ps).any (live now) := by
        simp [groupEntry, RosterRow.online, Function.comp_def]
      have hdrop : ∀ e : AgentInfo, dropSingle e =
          { e with sessions := if e.sessions.length < 2 then [] else e.sessions } := by
        intro e
        unfold dropSingle
        split <;> rfl
      have hsessions : (groupEntry now ((p :: ps).map fun p => (a, some p))).sessions =
          (p :: ps).map fun p => agentSession now (a, some p) :=
        List.map_map (l := p :: ps) (f := fun p => (a, some p)) (g := agentSession now)
      rw [hdrop]
      refine ⟨rfl, rfl, ⟨p :: ps, hps, hbefore, ?_, ?_⟩, ?_⟩
      · simp only [hsessions, List.length_map]
      · refine AgentSession.mk.injEq .. ▸ ⟨rfl, rfl, rfl, rfl, rfl, rfl, ?_⟩
        exact honline.trans (head_live hbefore).symm
      · rw [honline, List.any_eq_true]
        exact exists_congr fun q => and_congr_left fun _ => hps.mem_iff

/-! ### The list -/

/-- Some session of the agent is live. -/
def Db.isLive (db : Db) (now : Time) (a : Agent) : Bool := db.presence.any fun p => p.agentId == a.id && live now p

/-- The teammates that the list is about: those with a live presence if it is asked for these only. -/
def Db.listed (db : Db) (team : Uuid) (now : Time) (onlineOnly : Bool) : List Agent :=
  (db.teammates team).filter fun a => !onlineOnly || db.isLive now a

/-- Each teammate has one entry, online ones first and then by name. -/
structure Folded (db : Db) (team : Uuid) (now : Time) (onlineOnly : Bool) (list : AgentList) : Prop where
  entries : ∀ e ∈ list.agents, ∃ a ∈ db.listed team now onlineOnly, Entry now a (db.shown now onlineOnly a) e
  listed : ∀ a ∈ db.listed team now onlineOnly, ∃ e ∈ list.agents, Entry now a (db.shown now onlineOnly a) e
  once : (list.agents.map (·.name)).Nodup
  sorted : list.agents.Pairwise fun e e' =>
    e.online = true ∧ e'.online = false ∨ e.online = e'.online ∧ e.name ≤ e'.name
  count : list.onlineCount = (list.agents.filter (·.online)).length

/-- The rows of one teammate among those of all. -/
theorem roster_filter (hnames : Rows.Keyed (·.name) (db.teammates team)) {a : Agent} (ha : a ∈ db.teammates team) :
    (db.roster team).filter (fun r => r.name == a.name) = db.rowsOf a := by
  have hroster : db.roster team = (db.teammates team).flatMap db.rowsOf := rfl
  have hone : (db.teammates team).filter (fun b => b.name == a.name) = [a] :=
    hnames.filter_eq_singleton ha (by simp) fun b _ hb => beq_iff_eq.1 hb
  have hrows : ∀ b, (db.rowsOf b).filter (fun r => r.name == a.name) = if b.name == a.name then db.rowsOf b else [] := by
    intro b
    split
    · next hb =>
      refine List.filter_eq_self.2 fun r hr => ?_
      rwa [RosterRow.name, mem_rowsOf hr]
    · next hb =>
      refine List.filter_eq_nil_iff.2 fun r hr => ?_
      rwa [RosterRow.name, mem_rowsOf hr]
  have hpick : ∀ l : List Agent, l.flatMap (fun b => if b.name == a.name then db.rowsOf b else []) =
      (l.filter fun b => b.name == a.name).flatMap db.rowsOf := by
    intro l
    induction l with
    | nil => rfl
    | cons b l ih =>
      rw [List.flatMap_cons, List.filter_cons, ih]
      split <;> rfl
  rw [hroster, List.filter_flatMap]
  simp only [hrows, hpick, hone, List.flatMap_singleton]

/-- The rows of the query, in its order. -/
def Db.rosterRows (db : Db) (team : Uuid) (now : Time) (onlineOnly : Bool) : List RosterRow :=
  Rows.orderBy (fun a b => rosterOrder now a b = true) ((db.roster team).filter fun r => !onlineOnly || r.online now)

theorem rosterRows_sorted (db : Db) (team : Uuid) (now : Time) (onlineOnly : Bool) :
    (db.rosterRows team now onlineOnly).Pairwise fun a b => a.key now ≤ b.key now :=
  Rows.orderBy_sorted_key (RosterRow.key now) fun _ _ => rosterOrder_iff

/-- The group of a teammate. -/
theorem rosterRows_filter (now : Time) (onlineOnly : Bool) (hnames : Rows.Keyed (·.name) (db.teammates team)) {a : Agent}
    (ha : a ∈ db.teammates team) :
    ((db.rosterRows team now onlineOnly).filter fun r => r.name == a.name).Perm
      ((db.rowsOf a).filter fun r => !onlineOnly || r.online now) := by
  refine (Rows.orderBy_perm.filter _).trans (.of_eq ?_)
  rw [List.filter_comm, roster_filter hnames ha]

/-- A teammate has a row if the list is about it. -/
theorem mem_rosterRows {r : RosterRow} (h : r ∈ db.rosterRows team now onlineOnly) :
    r.1 ∈ db.teammates team ∧ r ∈ db.rowsOf r.1 := by
  obtain ⟨hr, -⟩ := List.mem_filter.1 (Rows.mem_orderBy.1 h)
  obtain ⟨a, ha, hr⟩ := List.mem_flatMap.1 (show r ∈ (db.teammates team).flatMap db.rowsOf from hr)
  rw [mem_rowsOf hr]
  exact ⟨ha, hr⟩

theorem rowsOf_ne_nil (a : Agent) : db.rowsOf a ≠ [] := by
  unfold Db.rowsOf
  split
  · exact List.cons_ne_nil _ _
  · next hsome => exact fun h => hsome (List.map_eq_nil_iff.1 h)

theorem rowsOf_kept_ne_nil {a : Agent} : (db.rowsOf a).filter (fun r => !onlineOnly || r.online now) ≠ [] ↔
    (!onlineOnly || db.isLive now a) = true := by
  cases onlineOnly with
  | false =>
    simp only [Bool.not_false, Bool.true_or, iff_true, List.filter_true]
    exact rowsOf_ne_nil a
  | true =>
    rw [rowsOf_kept]
    simp only [Bool.not_true, Bool.false_and, Bool.false_eq_true, if_false, List.nil_append, Bool.false_or, ne_eq,
      List.map_eq_nil_iff, Db.shown, Db.isLive, List.filter_eq_nil_iff, List.any_eq_true]
    push Not
    rfl

/-- Each group that the fold makes is that of a teammate. -/
theorem group_entry (now : Time) (onlineOnly : Bool) (hnames : Rows.Keyed (·.name) (db.teammates team)) {g : List RosterRow}
    (hg : g ∈ (db.rosterRows team now onlineOnly).foldl (Grouped.join RosterRow.name) []) :
    ∃ a ∈ db.listed team now onlineOnly, (∀ r ∈ g, r.1 = a) ∧
      Entry now a (db.shown now onlineOnly a) (dropSingle (groupEntry now g)) := by
  have hsorted := rosterRows_sorted db team now onlineOnly
  have hgroups := Grouped.foldl_groups RosterRow.name (hsorted.imp fun h => Prod.Lex.monotone_fst _ _ h)
  obtain ⟨lead, hlead, -⟩ := hgroups.one g hg
  have hmem : lead ∈ g := List.mem_of_head? hlead
  obtain ⟨ha, -⟩ := mem_rosterRows (hgroups.mem_iff.2 ⟨g, hg, hmem⟩)
  have hfilter := hgroups.filter_eq hg hmem
  have hperm := rosterRows_filter now onlineOnly hnames ha
  rw [show (fun r : RosterRow => r.name == lead.1.name) = fun r => r.name == lead.name from rfl, hfilter] at hperm
  have hne : g ≠ [] := List.ne_nil_of_mem hmem
  refine ⟨lead.1, List.mem_filter.2 ⟨ha, rowsOf_kept_ne_nil.1 fun h => ?_⟩, fun r hr => ?_, ?_⟩
  · rw [h] at hperm
    exact hne hperm.eq_nil
  · exact mem_rowsOf (List.mem_filter.1 (hperm.mem_iff.1 hr)).1
  · exact groupEntry_entry hperm hne (hsorted.sublist (hfilter ▸ List.filter_sublist))

theorem foldRoster_folded (hnames : Rows.Keyed (·.name) (db.teammates team)) :
    Folded db team now onlineOnly (foldRoster now (db.rosterRows team now onlineOnly)) := by
  have hsorted := (rosterRows_sorted db team now onlineOnly).imp
    fun h => Prod.Lex.monotone_fst _ _ h
  have hgroups := Grouped.foldl_groups RosterRow.name hsorted
  have hentry := fun g hg => @group_entry db team now onlineOnly hnames g hg
  have hfold := foldRow_groups now hsorted
  generalize hgs : (db.rosterRows team now onlineOnly).foldl (Grouped.join RosterRow.name) [] = groups
    at hgroups hentry hfold
  let entries := ((groups.map (groupEntry now)).reverse).map dropSingle
  have hlist : foldRoster now (db.rosterRows team now onlineOnly) =
      { agents := Rows.orderBy (fun a b => agentOrder a b = true) entries
        onlineCount := (entries.filter (·.online)).length } := by
    rw [foldRoster, hfold]
  have hmem : ∀ e, e ∈ entries ↔ ∃ g ∈ groups, dropSingle (groupEntry now g) = e := by
    simp [entries]
  rw [hlist]
  refine ⟨fun e he => ?_, fun a ha => ?_, ?_, ?_, ?_⟩
  · obtain ⟨g, hg, rfl⟩ := (hmem e).1 (Rows.mem_orderBy.1 he)
    obtain ⟨a, ha, -, hentry⟩ := hentry g hg
    exact ⟨a, ha, hentry⟩
  · obtain ⟨ha, hshown⟩ := List.mem_filter.1 ha
    -- The teammate has a row, so it has a group.
    obtain ⟨r, hr⟩ := List.exists_mem_of_ne_nil _ (rowsOf_kept_ne_nil.2 hshown)
    have hr' := (rosterRows_filter now onlineOnly hnames ha).mem_iff.2 hr
    obtain ⟨g, hg, hrg⟩ := hgroups.mem_iff.1 (List.mem_filter.1 hr').1
    obtain ⟨b, -, hgb, hentry⟩ := hentry g hg
    obtain rfl : a = b := (mem_rowsOf (List.mem_filter.1 hr).1).symm.trans (hgb r hrg)
    exact ⟨_, Rows.mem_orderBy.2 ((hmem _).2 ⟨g, hg, rfl⟩), hentry⟩
  · refine (Rows.orderBy_perm.map _).nodup_iff.2 ?_
    have hdrop : ∀ e : AgentInfo, (dropSingle e).name = e.name := by
      intro e
      unfold dropSingle
      split <;> rfl
    have hnames : entries.map (·.name) = (groups.map fun g => (groupEntry now g).name).reverse := by
      simp only [entries, List.map_map, List.map_reverse, Function.comp_def, hdrop]
    rw [hnames, List.nodup_reverse]
    refine List.pairwise_map.2 (hgroups.apart.imp_of_mem fun {g g'} hg hg' hapart => ?_)
    obtain ⟨r, hr, -⟩ := hgroups.one g hg
    obtain ⟨r', hr', -⟩ := hgroups.one g' hg'
    obtain ⟨tail, rfl⟩ := List.head?_eq_some_iff.1 hr
    obtain ⟨tail', rfl⟩ := List.head?_eq_some_iff.1 hr'
    exact hapart r List.mem_cons_self r' List.mem_cons_self
  · refine (Rows.orderBy_sorted_key (fun e => toLex (OrderDual.toDual e.online, e.name)) fun _ _ => agentOrder_iff).imp ?_
    intro e e' h
    have h := agentOrder_iff.2 h
    unfold agentOrder at h
    cases ho : e.online <;> cases ho' : e'.online <;> simp [ho, ho'] at h ⊢ <;> exact h
  · exact (Rows.orderBy_perm.filter _).length_eq.symm

end

theorem teammates_named {db : Db} (hnames : Rows.Keyed Db.agentKey db.agents) (team : Uuid) :
    Rows.Keyed (·.name) (db.teammates team) := by
  refine List.Nodup.map_on (fun a ha b hb hname => ?_) (hnames.filter _).of_map
  obtain ⟨ha, hteam⟩ := List.mem_filter.1 ha
  obtain ⟨hb, hteam'⟩ := List.mem_filter.1 hb
  rw [Bool.and_eq_true, beq_iff_eq] at hteam hteam'
  exact hnames.eq ha hb (Prod.ext (hteam.1.trans hteam'.1.symm) hname)

theorem listAgents_exec [Platform] (auth : AuthCtx) (onlineOnly : Bool) (pg : Pg) : (listAgents auth onlineOnly).exec pg =
    (.ok (foldRoster pg.now (pg.db.rosterRows auth.teamId pg.now onlineOnly)), pg) := rfl

/-- `list_agents` folds the presence rows of each teammate into one entry, without loss; where it is asked for those
    online only, the rows are the live ones. -/
theorem listAgents_folded [Platform] {pg : Pg} (hnames : Rows.Keyed Db.agentKey pg.db.agents) (auth : AuthCtx)
    (onlineOnly : Bool) : ∃ list, (listAgents auth onlineOnly).exec pg = (.ok list, pg) ∧
      Folded pg.db auth.teamId pg.now onlineOnly list := by
  exact ⟨_, listAgents_exec auth onlineOnly pg, foldRoster_folded (teammates_named hnames auth.teamId)⟩

section
open Sample
attribute [local instance] Platform.ascii

/-- The presence of ann's session has expired when she starts another one. -/
def moved : Pg :=
  let input : HeartbeatInput := { status := none, repo := none, branch := none, activity := none, ttlSeconds := some 30 }
  (Pg.init 0).after (crew ++ [.call ann 0 (.heartbeat input), .tick 60000000,
    .call { ann with session := "web" } 0 (.heartbeat input)])

theorem moved_folded : ∃ list, (listAgents bob false).exec moved = (.ok list, moved) ∧
    Folded moved.db 0 moved.now false list :=
  @listAgents_folded Platform.ascii moved ((Pg.Reachable.init 0).after _).valid.keys.agentNames bob false

/-- Those that are online then. -/
def online : AgentList := foldRoster moved.now (moved.db.rosterRows 0 moved.now true)

/-- Ann is among them without her sessions, although she has two rows. -/
theorem expired_dropped : moved.Reachable ∧ (listAgents bob true).exec moved = (.ok online, moved) ∧
    online.agents.map (fun e => (e.name, e.sessions)) = [("ann", [])] ∧
    (∀ a ∈ moved.db.listed 0 moved.now true, (moved.db.shown moved.now false a).length = 2) ∧
    ¬ ∀ e ∈ online.agents, ∃ a ∈ moved.db.listed 0 moved.now true, Entry moved.now a (moved.db.shown moved.now false a) e := by
  have hrows : ∀ a ∈ moved.db.listed 0 moved.now true, (moved.db.shown moved.now false a).length = 2 := by decide
  have hentries : online.agents.map (fun e => (e.name, e.sessions)) = [("ann", [])] := by decide
  refine ⟨(Pg.Reachable.init 0).after _, listAgents_exec bob true moved, hentries, hrows, fun h => ?_⟩
  obtain ⟨e, he, hempty⟩ : ∃ e ∈ online.agents, e.sessions = [] := by
    obtain ⟨e, he, heq⟩ := List.mem_map.1 (hentries ▸ List.mem_singleton_self (("ann", []) : String × List AgentSession))
    exact ⟨e, he, (Prod.mk.inj heq).2⟩
  obtain ⟨a, ha, hentry⟩ := h e he
  obtain ⟨ps, hperm, -, hsessions, -⟩ := hentry.sessions
  have hlength := hperm.length_eq.trans (hrows a ha)
  rw [hempty, if_neg (by omega)] at hsessions
  have := congrArg List.length hsessions
  rw [List.length_map, hlength] at this
  exact absurd this (by decide)

end
end CrewSync
