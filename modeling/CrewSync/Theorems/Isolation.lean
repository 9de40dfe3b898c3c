import CrewSync.Theorems.IsolationReads
import CrewSync.Theorems.Operators

/-! Teams on one server. What the other teams write stays in their own rows; so for the members of a team it is as if the
    others were not there. -/

namespace CrewSync

section
variable [Platform]

/-! ### Runs of the other teams -/

/-- A command that is not about the team, or about webhooks, which no member sees. -/
def Command.Foreign (team : Uuid) (db : Db) : Command → Prop
  | .teamCreate .. => db.hasTeam team = true
  | .teamQuota slug _ | .teamPrune slug .. | .agentAdd slug .. | .agentDisable slug _ => ¬ db.SlugOf team slug
  | .webhookAdd .. | .webhookRemove _ => True

/-- An event that is not the team's: what another team calls, what an operator does elsewhere, the dispatcher, the
    clock. -/
def Event.Foreign (team : Uuid) (pg : Pg) : Event → Prop
  | .call auth _ _ => auth.teamId ≠ team
  | .command _ c => c.Foreign team pg.db
  | .claim _ | .record _ _ | .prune | .tick _ => True

omit [Platform] in
instance (db : Db) (team : Uuid) (c : Command) : Decidable (c.Foreign team db) := by
  cases c <;> unfold Command.Foreign Db.SlugOf <;> infer_instance

omit [Platform] in
instance (team : Uuid) (pg : Pg) (e : Event) : Decidable (e.Foreign team pg) := by
  cases e <;> unfold Event.Foreign <;> infer_instance

/-- A write of such a command. -/
def Elsewhere (team : Uuid) (now : Time) (db : Db) (w : Write) : Prop :=
  match w with
  | .putTeam r => r.id ≠ team
  | .putAgent r => r.teamId ≠ team
  | .insertWebhook _ | .deleteWebhooks _ => True
  | w => ∃ other ≠ team, Prunes other now db w

omit [Platform] in
theorem Elsewhere.shared {base seqs : Seqs} {db : Db} {team : Uuid} {now : Time} {w : Write} (hk : db.Keys seqs)
    (hr : db.Refs) (hw : w.Legal base seqs db) (h : Elsewhere team now db w) : (w.apply db).shared team = db.shared team := by
  cases w with
  | putTeam r =>
    have hteams : (Rows.put (·.id) r db.teams).filter (·.id == team) = _ :=
      Rows.filter_put (beq_false_of_ne h) fun t _ hid => by rw [hid, beq_false_of_ne h]
    exact congrArg (fun teams => { db.shared team with teams }) hteams
  | putAgent r =>
    have hagents : (Rows.put (·.id) r db.agents).filter (·.teamId == team) = db.agents.filter (·.teamId == team) := by
      refine Rows.filter_put (beq_false_of_ne h) fun a ha hid => ?_
      have hteam : a.teamId = r.teamId := congrArg Prod.fst ((hw.2 a ha).1 hid)
      rw [hteam, beq_false_of_ne h]
    have hin : ∀ id, ((Write.putAgent r).apply db).agentIn id team = db.agentIn id team := by
      intro id
      rw [Db.agentIn, ← Rows.any_filter_and]
      exact (congrArg (fun agents => agents.any (·.id == id)) hagents).trans Rows.any_filter_and
    unfold Db.shared Db.ofTeam
    simp only [hin]
    exact congrArg (fun agents => { db.shared team with agents }) hagents
  | insertWebhook r => rfl
  | deleteWebhooks p => rfl
  | _ =>
    rcases h with ⟨other, hne, hprunes⟩
    rw [Db.shared, Db.shared, ofTeam_prunes hk hr hprunes hne]

omit [Platform] in
theorem elsewhere_of_prunes {team other : Uuid} {now : Time} {db : Db} {w : Write} (hne : other ≠ team)
    (h : Prunes other now db w) : Elsewhere team now db w := by
  cases w <;> first | exact ⟨other, hne, h⟩ | exact h.elim

section
variable {slug : String} {α : Type} {P : Db → Prop}

omit [Platform] in
/-- A command that looks its team up by the slug goes on with another team. -/
theorem Bus.Writes.of_slug {ok : Time → Db → Write → Prop} {f : Uuid → Bus α} {team : Uuid}
    (hf : ∀ other, other ≠ team → Bus.Writes ok (fun _ => True) (f other) fun _ _ => True) :
    Bus.Writes ok (fun db => ¬ db.SlugOf team slug) (Admin.teamId slug >>= f) fun _ _ => True := by
  intro pg hv hne
  have hresolve : (Admin.teamId slug).exec pg = (((Admin.teamId slug).exec pg).1, pg) := Prod.ext rfl (teamId_readOnly pg)
  cases hid : ((Admin.teamId slug).exec pg).1 with
  | error e =>
    rw [hid] at hresolve
    rw [Bus.exec_bind_error hresolve]
    exact ⟨.refl ok pg, fun _ _ => trivial⟩
  | ok other =>
    rw [hid] at hresolve
    rw [Bus.exec_bind_ok hresolve]
    exact hf other (fun h => hne (h ▸ teamId_ok hid)) pg hv trivial

omit [Platform] in
/-- A statement whose writes are not about the team. -/
theorem Sql.Writes.elsewhere {tables : List Table} {team : Uuid} {s : Sql α} {Q : α → Db → Prop}
    (h : Sql.Writes (OnTables tables) P s Q)
    (hs : ∀ pg : Pg, P pg.db → ∀ b seqs ws, s pg = .ok (b, seqs, ws) → ∀ w ∈ ws, ∀ db, Elsewhere team pg.now db w) :
    Sql.Writes (Elsewhere team) P s Q := by
  intro pg hv hP b seqs ws heq
  obtain ⟨hb, ht, hQ⟩ := h pg hv hP b seqs ws heq
  have hws := hs pg hP b seqs ws heq
  refine ⟨hb, ?_, hQ⟩
  clear heq hQ
  generalize pg.db = db at ht
  induction ws generalizing db with
  | nil => trivial
  | cons w ws ih =>
    exact ⟨ht.1, hws w List.mem_cons_self db, ih (fun w hw => hws w (List.mem_cons_of_mem _ hw)) _ ht.2.2⟩

end

theorem Command.run_elsewhere {team : Uuid} (pid : Nat) (c : Command) :
    Bus.Writes (Elsewhere team) (c.Foreign team) (c.run pid) fun _ _ => True := by
  cases c with
  | teamCreate slug name =>
    refine .ite (fun _ => .throw_bind) fun _ => .execute ((insertTeam_writes (List.mem_singleton_self _)).elsewhere ?_)
    intro pg hteam b seqs ws hs w hw db
    simp only [Admin.insertTeam] at hs
    split at hs
    · cases hs
      cases hw
    · split at hs
      · cases hs
      · next hfree =>
        cases hs
        rcases List.mem_singleton.1 hw with rfl
        rintro rfl
        exact hfree hteam
  | teamQuota slug bytes =>
    refine .of_slug fun other hne => .ite (fun _ => .throw_bind) fun _ =>
      .execute ((setQuota_writes (List.mem_singleton_self _)).elsewhere ?_)
    intro pg _ b seqs ws hs w hw db
    cases hs
    rcases Option.mem_toList.1 hw |> Option.map_eq_some_iff.1 with ⟨t, ht, rfl⟩
    have hkey := List.find?_some ht
    have hid : t.id = other := beq_iff_eq.1 hkey
    exact fun h => hne (hid.symm.trans h)
  | teamPrune slug days apply =>
    exact (Bus.Writes.of_slug fun other hne pg hv hP =>
      ⟨(prune_writes (P := fun _ => True) pg hv hP).1.imp fun _ _ _ h => elsewhere_of_prunes hne h, fun _ _ => trivial⟩).map
  | agentAdd slug name displayName =>
    refine .of_slug fun other hne => .ite (fun _ => .throw_bind) fun _ =>
      .execute ((upsertAgent_writes (List.mem_singleton_self _)).elsewhere ?_)
    intro pg _ b seqs ws hs w hw db
    simp only [Admin.upsertAgent] at hs
    split at hs
    · next a ha =>
      cases hs
      rcases List.mem_singleton.1 hw with rfl
      have hteam : a.teamId = other := (Db.findAgent_some ha).2.1
      exact fun h => hne (hteam.symm.trans h)
    · split at hs
      · cases hs
        rcases List.mem_singleton.1 hw with rfl
        exact hne
      · cases hs
  | agentDisable slug name =>
    refine .of_slug fun other hne => (Bus.Writes.execute ((disable_writes (List.mem_singleton_self _)).elsewhere ?_)).bind
      fun _ => .of_readOnly (.ite .throw .pure)
    intro pg _ b seqs ws hs w hw db
    simp only [Admin.disable] at hs
    split at hs
    · next a ha =>
      cases hs
      rcases List.mem_singleton.1 hw with rfl
      have hteam : a.teamId = other := (Db.findAgent_some ha).2.1
      exact fun h => hne (hteam.symm.trans h)
    · cases hs
      cases hw
  | webhookAdd slug url kind events channel =>
    refine .ite (fun _ => .throw_bind) fun _ => .reads .check fun _ => .ite (fun _ => .throw_bind) fun _ =>
      .reads teamId_readOnly fun _ => .execute ((insertWebhook_writes (List.mem_singleton_self _)).elsewhere ?_)
    intro pg _ b seqs ws hs w hw db
    simp only [Admin.insertWebhook] at hs
    split at hs
    · cases hs
      rcases List.mem_singleton.1 hw with rfl
      trivial
    · cases hs
  | webhookRemove id =>
    refine (Bus.Writes.execute ((removeWebhook_writes (List.Subset.refl _)).elsewhere ?_)).bind
      fun _ => .of_readOnly (.ite .throw .pure)
    intro pg _ b seqs ws hs w hw db
    cases hs
    rcases List.mem_singleton.1 hw with rfl
    trivial

/-- A call of another team leaves every row of the team as it was. -/
theorem call_apart {pg : Pg} (hv : pg.Valid) {auth : AuthCtx} {team : Uuid} (hne : auth.teamId ≠ team) (pid : Nat) (c : Call) :
    (pg.call auth pid c).2.db.ofTeam team = pg.db.ofTeam team := by
  by_cases hauth : auth.authentic pg.db = true
  · have hcaller := AuthCtx.authentic.caller hauth
    have hkeep := (Pg.call_wrote hv auth pid c).lift hv
      (R := fun a b => a.agentIn auth.agentId auth.teamId = true →
        b.agentIn auth.agentId auth.teamId = true ∧ b.ofTeam team = a.ofTeam team)
      (fun db h => ⟨h, rfl⟩) (fun h h' hin => ⟨(h' (h hin).1).1, (h' (h hin).1).2.trans (h hin).2⟩)
      fun seqs db w hk _ hw hown hin => ⟨hw.agentIn hin, ofTeam_own hk hw hin hown hne⟩
    exact (hkeep hcaller).2
  · rw [Pg.call, if_neg hauth]

/-- So does a command that is not about the team, in what its members see. -/
theorem command_apart {pg : Pg} (hv : pg.Valid) {team : Uuid} {c : Command} (hc : c.Foreign team pg.db) (pid : Nat) :
    (pg.next (.command pid c)).db.shared team = pg.db.shared team :=
  (c.run_elsewhere pid pg hv hc).1.lift hv (R := fun a b => b.shared team = a.shared team) (fun _ => rfl)
    (fun h h' => h'.trans h) fun _ _ _ hk hr hw h => h.shared hk hr hw

theorem foreign_shared {pg : Pg} (hv : pg.Valid) {team : Uuid} {e : Event} (h : e.Foreign team pg) :
    (pg.next e).db.shared team = pg.db.shared team := by
  have of_deliveries : e.writes ⊆ [.webhookDeliveries] → (pg.next e).db.shared team = pg.db.shared team := by
    intro htables
    refine Pg.next_frame hv e (·.shared team) fun db w hw => ?_
    have htable := List.Subset.trans hw htables
    cases w <;> first | rfl | simp [Write.tables] at htable
  cases e with
  | call auth pid c =>
    have hrows := call_apart hv h pid c
    change (pg.call auth pid c).2.db.shared team = _
    rw [Db.shared, Db.shared, hrows]
  | command pid c => exact command_apart hv h pid
  | claim locked => exact of_deliveries (List.Subset.refl _)
  | record d r => exact of_deliveries (List.Subset.refl _)
  | prune => exact of_deliveries (List.Subset.refl _)
  | tick d => rfl

/-- Reads are a function of the team's own rows: in two databases that agree on what the members of a team can see, and
    in nothing else, every read of every member and the page of the team are the same. -/
theorem reads_isolated {pg pg' : Pg} (hv : pg.Valid) (hv' : pg'.Valid) {team : Uuid} (hnow : pg.now = pg'.now)
    (hrows : pg.db.shared team = pg'.db.shared team) :
    (∀ (auth : AuthCtx) (pid : Nat) (c : Call), auth.teamId = team → c.reads = true →
      (pg.call auth pid c).1 = (pg'.call auth pid c).1) ∧
      ((Dashboard.load team).exec pg).1 = ((Dashboard.load team).exec pg').1 := by
  have hsame : pg.ofTeam team = pg'.ofTeam team := by rw [Pg.ofTeam, Pg.ofTeam, hnow, hrows]
  refine ⟨fun auth pid c hteam hc => ?_, ?_⟩
  · subst hteam
    rw [← call_ofTeam hv auth pid hc, ← call_ofTeam hv' auth pid hc, hsame]
  · rw [← (load_ofTeam team).answer pg hv, ← (load_ofTeam team).answer pg' hv', hsame]

/-- Whatever the other teams do, however long, the members of a team read what they would have read if only time had
    passed. -/
theorem teams_apart {pg : Pg} (hv : pg.Valid) {team : Uuid} {es : List Event}
    (hes : Runs.Along Pg.next (fun pg e => e.Foreign team pg) pg es) :
    (pg.after es).db.shared team = pg.db.shared team ∧
      ∀ (auth : AuthCtx) (pid : Nat) (c : Call), auth.teamId = team → c.reads = true →
        ((pg.after es).call auth pid c).1 = (({ pg with now := (pg.after es).now } : Pg).call auth pid c).1 := by
  have hrun : (pg.after es).Valid ∧ (pg.after es).db.shared team = pg.db.shared team :=
    hes.invariant (I := fun pg' : Pg => pg'.Valid ∧ pg'.db.shared team = pg.db.shared team) ⟨hv, rfl⟩
      fun pg' e hforeign h => ⟨h.1.next e, (foreign_shared h.1 hforeign).trans h.2⟩
  refine ⟨hrun.2, fun auth pid c hteam hc => ?_⟩
  subst hteam
  have hsame : (pg.after es).ofTeam auth.teamId = ({ pg with now := (pg.after es).now } : Pg).ofTeam auth.teamId := by
    change ({ Pg.init (pg.after es).now with db := (pg.after es).db.shared auth.teamId } : Pg) = _
    rw [hrun.2]
    rfl
  rw [← call_ofTeam hrun.1 auth pid hc, ← call_ofTeam (hv.tick _) auth pid hc, hsame]

end

namespace Sample
attribute [local instance] Platform.ascii

/-- The crew of `core`, and another team. -/
def twoTeams : Pg :=
  (Pg.init 0).after (crew ++ [.command 0 (.teamCreate "rivals" none), .command 0 (.agentAdd "rivals" "zoe" none)])

theorem twoTeams_valid : twoTeams.Valid := ((Pg.Reachable.init 0).after _).valid

def zoe : AuthCtx := { agentId := 4, agentName := "zoe", teamId := 3, teamSlug := "rivals", session := "" }

/-- The other team plans a task under a key that the crew may use, too. -/
def scheme : Event := .call zoe 0 (.createTask ⟨"t1", "outrun the crew", none, none, []⟩)

theorem scheme_unseen :
    (twoTeams.next scheme).db.tasks.length = 1 ∧
      ((Dashboard.load 0).exec (twoTeams.next scheme)).1 = ((Dashboard.load 0).exec twoTeams).1 :=
  ⟨by decide, (@reads_isolated Platform.ascii (twoTeams.next scheme) twoTeams (twoTeams_valid.next _) twoTeams_valid 0 (by decide)
    (foreign_shared twoTeams_valid (e := scheme) (by decide))).2⟩

/-- The rivals plan, take a lock, and lose their agent. -/
def rivalry : List Event :=
  [scheme, .tick 5, .call zoe 0 (.acquireLock "build" none none), .command 0 (.agentDisable "rivals" "zoe")]

theorem rivalry_unseen :
    (twoTeams.after rivalry).db.locks.length = 1 ∧
      ((twoTeams.after rivalry).call ann 1 .whoami).1 =
        (({ twoTeams with now := (twoTeams.after rivalry).now } : Pg).call ann 1 .whoami).1 :=
  ⟨by decide, (@teams_apart Platform.ascii twoTeams twoTeams_valid 0 rivalry (by decide)).2 ann 1 .whoami rfl rfl⟩

end Sample
end CrewSync
