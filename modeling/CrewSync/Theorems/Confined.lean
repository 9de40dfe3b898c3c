import CrewSync.Theorems.Attribution
import CrewSync.Theorems.Isolation

/-! A call stays within the team of its caller. It leaves the rows of the other teams as they are, what it signs is signed
    as its caller, and what it reads is of its own team. -/

namespace CrewSync

/-! ### Rows and their team -/

section
variable {db : Db} {team : Uuid} {x : Mark}

theorem bears_of_ofTeam (h : (db.ofTeam team).Bears x) : db.Bears x := by
  cases x with
  | message _ | channel _ _ _ | task _ _ _ | claim _ _ _ =>
    obtain ⟨r, hr, hmark⟩ := h
    exact ⟨r, (List.mem_filter.1 hr).1, hmark⟩
  | _ => exact (List.mem_filter.1 h).1

/-- Every row that names an agent is a row of some team. -/
theorem exists_ofTeam (hr : db.Refs) (h : db.Bears x) : ∃ team, (db.ofTeam team).Bears x := by
  have exists_agentIn : ∀ id, db.agentExists id → ∃ team, db.agentIn id team = true := fun _ => Db.agentExists_iff.1
  cases x with
  | message _ | channel _ _ _ | task _ _ _ | claim _ _ _ =>
    obtain ⟨r, hr, hmark⟩ := h
    exact ⟨r.teamId, r, List.mem_filter.2 ⟨hr, beq_self_eq_true _⟩, hmark⟩
  | event r =>
    obtain ⟨team, htask, -⟩ := hr.taskEvents r h
    exact ⟨team, List.mem_filter.2 ⟨h, htask⟩⟩
  | revision r =>
    obtain ⟨team, hnote, -⟩ := hr.noteRevisions r h
    exact ⟨team, List.mem_filter.2 ⟨h, hnote⟩⟩
  | presence r =>
    obtain ⟨team, hagent⟩ := exists_agentIn _ (hr.presence r h)
    exact ⟨team, List.mem_filter.2 ⟨h, hagent⟩⟩
  | cursor r =>
    obtain ⟨team, hagent⟩ := exists_agentIn _ (hr.cursors r h)
    exact ⟨team, List.mem_filter.2 ⟨h, hagent⟩⟩
  | note r => exact ⟨r.teamId, List.mem_filter.2 ⟨h, beq_self_eq_true _⟩⟩
  | lock r => exact ⟨r.teamId, List.mem_filter.2 ⟨h, beq_self_eq_true _⟩⟩
  | attachment r => exact ⟨r.teamId, List.mem_filter.2 ⟨h, beq_self_eq_true _⟩⟩

end

/-! ### One call -/

section
variable [Platform] {pg : Pg}

omit [Platform] in
theorem prune_apart (hv : pg.Valid) {team other : Uuid} (hne : other ≠ team) (pid : Nat) (days : Int) (dryRun : Bool) :
    ((prune pid team days dryRun).exec pg).2.db.ofTeam other = pg.db.ofTeam other :=
  (prune_writes (P := fun _ => True) pg hv trivial).1.lift hv (R := fun a b => b.ofTeam other = a.ofTeam other)
    (fun _ => rfl) (fun h h' => h'.trans h) fun _ _ _ hk hr _ hprunes => ofTeam_prunes hk hr hprunes hne.symm

/-- A row that a call leaves was there, or is signed by the caller and is a row of the caller's team. -/
theorem call_bears (hv : pg.Valid) {auth : AuthCtx} {pid : Nat} {c : Call} {x : Mark}
    (h : (pg.call auth pid c).2.db.Bears x) :
    pg.db.Bears x ∨ auth.authentic pg.db = true ∧ x.Of auth.agentId auth.teamId ∧
      ((pg.call auth pid c).2.db.ofTeam auth.teamId).Bears x := by
  rcases next_bears hv (.call auth pid c) h with hold | ⟨_, _, _, heq, hauth, hof⟩
  · exact .inl hold
  · cases heq
    obtain ⟨team, hteam⟩ := exists_ofTeam (hv.next (.call auth pid c)).refs h
    by_cases hown : auth.teamId = team
    · exact .inr ⟨hauth, hof, hown ▸ hteam⟩
    · have hrows : (pg.next (.call auth pid c)).db.ofTeam team = pg.db.ofTeam team := call_apart hv hown pid c
      rw [hrows] at hteam
      exact .inl (bears_of_ofTeam hteam)

/-- A call, or a prune for the team, leaves every row of another team as it was; every row with the name of an agent that a
    call inserts or takes over names its caller, and is a row of the caller's team; and what a call reads is the same
    in any two states that agree on the rows of that team. -/
theorem calls_confined (hv : pg.Valid) (auth : AuthCtx) (pid : Nat) :
    (∀ other, other ≠ auth.teamId → (∀ c, (pg.call auth pid c).2.db.ofTeam other = pg.db.ofTeam other) ∧
      ∀ days dryRun, ((prune pid auth.teamId days dryRun).exec pg).2.db.ofTeam other = pg.db.ofTeam other) ∧
    (∀ c x, (pg.call auth pid c).2.db.Bears x → pg.db.Bears x ∨ auth.authentic pg.db = true ∧
      x.Of auth.agentId auth.teamId ∧ ((pg.call auth pid c).2.db.ofTeam auth.teamId).Bears x) ∧
    ∀ pg' : Pg, pg'.Valid → pg'.now = pg.now → pg'.db.ofTeam auth.teamId = pg.db.ofTeam auth.teamId →
      ∀ c, c.reads = true → (pg'.call auth pid c).1 = (pg.call auth pid c).1 := by
  refine ⟨fun other hne => ⟨fun c => call_apart hv hne.symm pid c, fun days dryRun => prune_apart hv hne pid days dryRun⟩,
    fun c x h => call_bears hv h, fun pg' hv' hnow hrows c hc => ?_⟩
  have hsame : pg'.ofTeam auth.teamId = pg.ofTeam auth.teamId := by
    rw [Pg.ofTeam, Pg.ofTeam, Db.shared, Db.shared, hnow, hrows]
  rw [← call_ofTeam hv' auth pid hc, ← call_ofTeam hv auth pid hc, hsame]

end

namespace Sample
attribute [local instance] Platform.ascii

/-- Ann plans a task that the other team may not see. -/
def plan : Event := .call ann 0 (.createTask ⟨"t1", "outrun the rivals", none, none, []⟩)

def planned : Pg := twoTeams.next plan

/-- Zoe plans under the same key. -/
def scheming : Call := .createTask ⟨"t1", "outrun the crew", none, none, []⟩

/-- Her task is signed by her, ann's stands, and zoe lists what she would have listed without it. -/
theorem scheming_confined :
    (planned.call zoe 0 scheming).2.db.ofTeam 0 = planned.db.ofTeam 0 ∧
      ((prune 0 3 1 false).exec planned).2.db.ofTeam 0 = planned.db.ofTeam 0 ∧
      (Mark.task 6 3 (some 4)).Of 4 3 ∧
      (twoTeams.call zoe 0 (.listTasks none false 50)).1 = (planned.call zoe 0 (.listTasks none false 50)).1 := by
  obtain ⟨hothers, hsigned, hreads⟩ := @calls_confined Platform.ascii planned (twoTeams_valid.next plan) zoe 0
  obtain ⟨hcalls, hprune⟩ := hothers 0 (by decide)
  have hnew : (planned.call zoe 0 scheming).2.db.Bears (.task 6 3 (some 4)) :=
    show ∃ t ∈ (planned.call zoe 0 scheming).2.db.tasks, t.id = 6 ∧ t.teamId = 3 ∧ t.createdBy = some 4 by decide
  have hold : ¬ planned.db.Bears (.task 6 3 (some 4)) :=
    show ¬ ∃ t ∈ planned.db.tasks, t.id = 6 ∧ t.teamId = 3 ∧ t.createdBy = some 4 by decide
  have hmine := (hsigned scheming _ hnew).resolve_left hold
  exact ⟨hcalls scheming, hprune 1 false, hmine.2.1, hreads twoTeams twoTeams_valid rfl (by decide) _ rfl⟩

end Sample
end CrewSync
