import CrewSync.Lib.Sorted
import CrewSync.Store.Identity
import CrewSync.Theorems.TaskKeys

/-! The tasks that a session calls its own: `list_tasks` goes by the holder alone, the count of `whoami` and
    `renew_lease` also by the status, and a task that is done keeps its holder. -/

namespace CrewSync
section
variable [Platform] {pg : Pg} {auth : AuthCtx} {t : Task}

/-! ### The rows of the three calls -/

/-- The rows of `list_tasks` with `mine_only`, before its limit. -/
def Pg.mine (pg : Pg) (auth : AuthCtx) : List Task :=
  Rows.orderBy taskOrder (pg.db.tasks.filter fun t => t.teamId == auth.teamId && heldBy auth.agentId auth.session t)

/-- The rows that `whoami` counts. -/
def Pg.claims (pg : Pg) (auth : AuthCtx) : List Task :=
  pg.db.tasks.filter fun t => t.status == .claimed && heldBy auth.agentId auth.session t

instance : Std.Total taskOrder where
  total a b := by
    rcases lt_trichotomy (statusRank a.status) (statusRank b.status) with h | h | h
    · exact .inl (.inl h)
    · exact (le_total b.updatedAt a.updatedAt).imp (fun hle => .inr ⟨h, hle⟩) fun hle => .inr ⟨h.symm, hle⟩
    · exact .inr (.inl h)

instance : IsTrans Task taskOrder where
  trans a b c := by
    rintro (hab | ⟨hab, hle⟩) (hbc | ⟨hbc, hle'⟩)
    · exact .inl (hab.trans hbc)
    · exact .inl (hbc ▸ hab)
    · exact .inl (hab ▸ hbc)
    · exact .inr ⟨hab.trans hbc, hle'.trans hle⟩

omit [Platform] in
/-- Claimed tasks come first. -/
theorem mine_leads (pg : Pg) (auth : AuthCtx) : Rows.Leads (·.status == .claimed) (pg.mine auth) := by
  refine (Rows.orderBy_sorted taskOrder).imp fun {a b} hle hb => ?_
  have hb : statusRank b.status = 0 := by rw [beq_iff_eq.1 hb]; rfl
  have ha : statusRank a.status = 0 := by
    simp only [taskOrder] at hle
    omega
  cases hs : a.status <;> simp [hs, statusRank] at ha ⊢

omit [Platform] in
/-- A session holds tasks of its own team only. -/
theorem team_of_heldBy (hv : pg.Valid) (hauth : auth.authentic pg.db = true) (ht : t ∈ pg.db.tasks)
    (hheld : heldBy auth.agentId auth.session t = true) : t.teamId = auth.teamId := by
  have hclaimed : t.claimedBy = some auth.agentId := (Prod.mk.inj (heldBy_iff.1 hheld)).1
  have hin := (Db.taskOk_iff.1 (hv.refs.tasks t ht)).2.1 auth.agentId hclaimed
  have hown : pg.db.agentIn auth.agentId auth.teamId = true := AuthCtx.authentic.caller hauth
  simp only [Db.agentIn, List.any_eq_true, Bool.and_eq_true, beq_iff_eq] at hin hown
  obtain ⟨a, ha, hid, hteam⟩ := hin
  obtain ⟨b, hb, hid', hteam'⟩ := hown
  obtain rfl := hv.keys.agents.eq ha hb (hid.trans hid'.symm)
  exact hteam.symm.trans hteam'

omit [Platform] in
/-- The claimed rows among those of the list are the rows of the count. -/
theorem mine_claims (hv : pg.Valid) (hauth : auth.authentic pg.db = true) :
    ((pg.mine auth).filter (·.status == .claimed)).Perm (pg.claims auth) := by
  refine (Rows.orderBy_perm.filter _).trans (.of_eq ?_)
  rw [List.filter_filter]
  refine List.filter_congr fun t ht => ?_
  cases hheld : heldBy auth.agentId auth.session t with
  | false => simp
  | true => simp [team_of_heldBy hv hauth ht hheld]

/-! ### Renewals -/

/-- A renewal succeeds if there is a claim of the session on the task. -/
theorem renewLease_ok_iff (hv : pg.Valid) {key : String} (hkey : normalizeKey key = .ok key) (lease : Option Int) :
    ((renewLease auth key lease).exec pg).1.isOk = true ↔ ∃ t ∈ pg.db.tasks, ownClaim auth key t = true := by
  constructor
  · intro hok
    rcases renewLease_cases auth pg key lease with ⟨e, he⟩ | ⟨key', hkey', h⟩
    · rw [he] at hok
      cases hok
    obtain rfl := Except.ok.inj (hkey.symm.trans hkey')
    by_contra hno
    obtain ⟨⟨e, he⟩, -⟩ := h.refused fun t ht => Bool.eq_false_iff.2 fun hown => hno ⟨t, ht, hown⟩
    rw [he] at hok
    cases hok
  · rintro ⟨t, ht, hown⟩
    unfold renewLease
    rw [Bus.exec_bind, Bus.exec_check, hkey]
    dsimp only
    have hs : renewStatement auth key (leaseOf lease) pg = updateTask (ownClaim auth key)
      (fun t => { t with leaseExpiresAt := some (pg.now + secs (leaseOf lease)), updatedAt := pg.now }) pg := rfl
    rcases updateThen_exec (.update .tasks) _ hs with ⟨hfail, -⟩ | ⟨pg', hu, he⟩
    · exact absurd hfail (updateTask_answer_ne fun r hr _ => hv.refs.tasks r hr)
    obtain ⟨r, hr⟩ : ∃ r, (pg.db.tasks.filter (ownClaim auth key)).head? = some r := Option.isSome_iff_exists.1 (by
      rw [List.isSome_head?]
      exact List.ne_nil_of_mem (List.mem_filter.2 ⟨ht, hown⟩))
    simp only [ownClaim, Bool.and_eq_true, beq_iff_eq] at hown
    obtain ⟨⟨⟨hteam, hname⟩, -⟩, -⟩ := hown
    have hfind := Db.findTask_update auth.teamId key hu.tasks fun _ => rfl
    have hrow := Db.findTask_of_mem hv.keys ht
    rw [hteam, hname] at hrow
    rw [he, hr, Option.map_some, fetchTask_exec, hfind, hrow]
    rfl

omit [Platform] in
theorem mem_claims_iff (hv : pg.Valid) (hauth : auth.authentic pg.db = true) {key : String} :
    key ∈ (pg.claims auth).map (·.key) ↔ ∃ t ∈ pg.db.tasks, ownClaim auth key t = true := by
  simp only [Pg.claims, List.mem_map, List.mem_filter, ownClaim, Bool.and_eq_true, beq_iff_eq]
  constructor
  · rintro ⟨t, ⟨ht, hstatus, hheld⟩, hname⟩
    exact ⟨t, ht, ⟨⟨team_of_heldBy hv hauth ht hheld, hname⟩, hstatus⟩, hheld⟩
  · rintro ⟨t, ht, ⟨⟨-, hname⟩, hstatus⟩, hheld⟩
    exact ⟨t, ⟨ht, hstatus, hheld⟩, hname⟩

/-- The keys of a session's claims are those that it can renew. -/
theorem claims_renewable (hpg : pg.Reachable) (hauth : auth.authentic pg.db = true) (key : String) (lease : Option Int)
    (pid : Nat) : key ∈ (pg.claims auth).map (·.key) ↔
      normalizeKey key = .ok key ∧ (pg.call auth pid (.renewTaskLease key lease)).1.isOk = true := by
  have hv := hpg.valid
  have hcall : (pg.call auth pid (.renewTaskLease key lease)).1.isOk = ((renewLease auth key lease).exec pg).1.isOk := by
    rw [Pg.call, if_pos hauth, Call.run, Bus.exec_map]
    cases ((renewLease auth key lease).exec pg).1 <;> rfl
  rw [mem_claims_iff hv hauth, hcall]
  constructor
  · intro hown
    obtain ⟨t, ht, hkey⟩ := hown
    have hname : t.key = key := by
      simp only [ownClaim, Bool.and_eq_true, beq_iff_eq] at hkey
      exact hkey.1.1.2
    have hnormal : normalizeKey key = .ok key := hname ▸ hpg.normalKeys t ht
    exact ⟨hnormal, (renewLease_ok_iff hv hnormal lease).2 ⟨t, ht, hkey⟩⟩
  · exact fun h => (renewLease_ok_iff hv h.1 lease).1 h.2

omit [Platform] in
/-- No two claims of a session have one key. -/
theorem claims_once (hv : pg.Valid) (hauth : auth.authentic pg.db = true) : ((pg.claims auth).map (·.key)).Nodup := by
  have hkeyed : Rows.Keyed Db.taskKey (pg.claims auth) := hv.keys.taskKeys.filter _
  refine List.Nodup.map_on (fun a ha b hb hname => ?_) hkeyed.of_map
  simp only [Pg.claims, List.mem_filter, Bool.and_eq_true] at ha hb
  refine hv.keys.taskKeys.eq ha.1 hb.1 (Prod.ext ?_ hname)
  exact (team_of_heldBy hv hauth ha.1 ha.2.2).trans (team_of_heldBy hv hauth hb.1 hb.2.2).symm

/-! ### The three together -/

/-- The list shows the first of the session's rows. -/
theorem listMine_call (hauth : auth.authentic pg.db = true) (pid : Nat) :
    ∃ list, (pg.call auth pid (.listTasks none true maxLimit)).1 = .ok (.tasks list) ∧
      list.tasks = ((pg.mine auth).take 200).map (pg.db.taskInfo pg.now) := by
  have hrows : ((Rows.orderBy taskOrder (pg.db.tasks.filter fun t => t.teamId == auth.teamId &&
      ((none : Option String).isNone || none == some t.status.text) && (!true || heldBy auth.agentId auth.session t))).take
        (clamp maxLimit 1 maxLimit).toNat) = (pg.mine auth).take 200 := by
    simp only [Option.isNone_none, Bool.true_or, Bool.and_true, Bool.not_true, Bool.false_or]
    rfl
  rw [Pg.call, if_pos hauth, Call.run, Bus.exec_map]
  unfold listTasks
  simp only [Option.map_none, Option.filter_none, Option.any_none, Bool.false_eq_true, if_false, Bus.exec_bind,
    Bus.exec_select, Bus.exec_pure, hrows]
  exact ⟨_, rfl, rfl⟩

/-- `whoami` counts the session's claims. -/
theorem whoami_call (hauth : auth.authentic pg.db = true) (pid : Nat) :
    ∃ who, (pg.call auth pid .whoami).1 = .ok (.whoami who) ∧ who.openClaimedTasks = (pg.claims auth).length := by
  have hchannel : ∃ channel, (defaultChannel auth).exec pg = (.ok channel, pg) := by
    unfold defaultChannel
    split
    · exact ⟨_, rfl⟩
    · exact ⟨_, rfl⟩
  obtain ⟨channel, hchannel⟩ := hchannel
  rw [Pg.call, if_pos hauth, Call.run, Bus.exec_map]
  unfold whoami
  simp only [Bus.exec_bind, Bus.exec_select, hchannel, Bus.exec_pure]
  exact ⟨_, rfl, rfl⟩

/-- What a session is told of its tasks agrees: the list has the tasks that it can renew, each once, and as many as are
    counted. -/
structure Pg.Agree (pg : Pg) (auth : AuthCtx) (list : TaskList) (who : WhoAmI) : Prop where
  renewable : ∀ key lease pid, key ∈ list.tasks.map (·.key) ↔
    normalizeKey key = .ok key ∧ (pg.call auth pid (.renewTaskLease key lease)).1.isOk = true
  once : (list.tasks.map (·.key)).Nodup
  counted : list.tasks.length = who.openClaimedTasks

/-- The list agrees with the count and the renewals just when the session holds no task that is not claimed any more, or
    when its claims fill the list. -/
theorem mine_agrees_iff (hpg : pg.Reachable) (hauth : auth.authentic pg.db = true)
    (hroom : ((pg.claims auth).length : Int) ≤ maxLimit) (pid : Nat) :
    ∃ list who, (pg.call auth pid (.listTasks none true maxLimit)).1 = .ok (.tasks list) ∧
      (pg.call auth pid .whoami).1 = .ok (.whoami who) ∧
      (pg.Agree auth list who ↔
        (∀ t ∈ pg.db.tasks, heldBy auth.agentId auth.session t = true → t.status = .claimed) ∨
          ((pg.claims auth).length : Int) = maxLimit) := by
  have hv := hpg.valid
  obtain ⟨list, hlist, hrows⟩ := listMine_call hauth pid
  obtain ⟨who, hwho, hcount⟩ := whoami_call hauth pid
  have hperm := mine_claims hv hauth
  have hlength := hperm.length_eq
  have hroom : (pg.claims auth).length ≤ 200 := by
    have : maxLimit = 200 := rfl
    omega
  have hall : (∀ t ∈ pg.mine auth, (t.status == .claimed) = true) ↔
      ∀ t ∈ pg.db.tasks, heldBy auth.agentId auth.session t = true → t.status = .claimed := by
    simp only [Pg.mine, Rows.mem_orderBy, List.mem_filter, Bool.and_eq_true, beq_iff_eq]
    exact ⟨fun h t ht hheld => h t ⟨ht, team_of_heldBy hv hauth ht hheld, hheld⟩, fun h t ht => h t ht.1 ht.2.2⟩
  have hfull : ((pg.claims auth).length : Int) = maxLimit ↔ ((pg.mine auth).filter (·.status == .claimed)).length = 200 := by
    have : maxLimit = 200 := rfl
    omega
  refine ⟨list, who, hlist, hwho, ?_⟩
  rw [← hall, hfull]
  constructor
  · intro h
    refine Rows.take_length_eq ?_
    have hcounted := h.counted
    rw [hrows, hcount, List.length_map] at hcounted
    omega
  · intro hfits
    have hshown := (mine_leads pg auth).take_eq_filter (hlength ▸ hroom) hfits
    have hkeys : list.tasks.map (·.key) = ((pg.mine auth).filter (·.status == .claimed)).map (·.key) := by
      rw [hrows, hshown, List.map_map]
      rfl
    refine ⟨fun key lease pid => ?_, ?_, ?_⟩
    · rw [hkeys, (hperm.map _).mem_iff]
      exact claims_renewable hpg hauth key lease pid
    · rw [hkeys, (hperm.map _).nodup_iff]
      exact claims_once hv hauth
    · rw [hrows, hshown, List.length_map, hlength, hcount]

end

section
open Sample
attribute [local instance] Platform.ascii

/-- Bob creates two tasks and claims the second. -/
def claimed : List Event := crew ++
  [.call bob 0 (.createTask { key := "api", title := "API", description := none, metadata := none, dependsOn := [] }),
   .call bob 0 (.createTask { key := "docs", title := "Docs", description := none, metadata := none, dependsOn := [] }),
   .call bob 0 (.claimTask "docs" none)]

/-- While nothing is done, bob is told the same by all three. -/
theorem docs_agree : ∃ list who, (((Pg.init 0).after claimed).call bob 0 (.listTasks none true maxLimit)).1 = .ok (.tasks list) ∧
    (((Pg.init 0).after claimed).call bob 0 .whoami).1 = .ok (.whoami who) ∧ ((Pg.init 0).after claimed).Agree bob list who := by
  obtain ⟨list, who, hlist, hwho, hagree⟩ := @mine_agrees_iff Platform.ascii _ bob ((Pg.Reachable.init 0).after claimed)
    (by decide) (by decide) 0
  exact ⟨list, who, hlist, hwho, hagree.2 (.inl (by decide))⟩

/-- Bob has completed the task that he claimed. -/
def completed : Pg := (Pg.init 0).after (claimed ++ [.call bob 0 (.completeTask "docs" none)])

/-- The task is still in his list, but it is not counted and he cannot renew it. -/
theorem docs_disagree : completed.Reachable ∧ bob.authentic completed.db = true ∧ (completed.mine bob).length ≤ 200 ∧
    ∃ list who, (completed.call bob 0 (.listTasks none true maxLimit)).1 = .ok (.tasks list) ∧
      (completed.call bob 0 .whoami).1 = .ok (.whoami who) ∧ list.tasks.map (·.key) = ["docs"] ∧
      who.openClaimedTasks = 0 ∧ (completed.call bob 0 (.renewTaskLease "docs" none)).1.isOk = false ∧
      ¬ completed.Agree bob list who := by
  refine ⟨(Pg.Reachable.init 0).after _, by decide, by decide, _, _, rfl, rfl, by decide, by decide, by decide, fun h => ?_⟩
  exact absurd ((h.renewable "docs" none 0).1 (by decide)).2 (by decide)

end
end CrewSync
