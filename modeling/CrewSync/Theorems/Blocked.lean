import CrewSync.Theorems.Pipeline

/-! A claim takes a task only once the tasks that it waits for are finished, if the creator of the task has by then
    inserted all of its dependencies. -/

namespace CrewSync
open Threads
variable [Platform]

/-- The task is done or cancelled. -/
def Db.finished (db : Db) (task : Uuid) : Prop := ∃ t ∈ db.tasks, t.id = task ∧ t.status.finished = true

namespace Concurrent

/-- A claim takes no task whose creator still inserts dependencies, or only where all that it named are finished. -/
def Declared (s : State) : Step → Prop
  | .turn j => ∀ claim ∈ s.threads[j]?, claim.2.next? = some (.update .tasks) →
      ∀ t ∈ s.shared.db.tasks, claim.1.2.takes claim.1.1 s.shared t = true →
        ∀ creator ∈ s.threads, creator.2.next?.any (·.declares t.id) = true → ∀ raw ∈ creator.1.2.dependsOn,
          ∀ d ∈ s.shared.db.tasks, d.teamId = creator.1.1.teamId → normalizeKey raw = .ok d.key →
            d.status.finished = true
  | _ => True

instance decidableDeclared (s : State) : ∀ step, Decidable (Declared s step)
  | .turn j => inferInstanceAs (Decidable (∀ claim ∈ s.threads[j]?, claim.2.next? = some (.update .tasks) →
      ∀ t ∈ s.shared.db.tasks, claim.1.2.takes claim.1.1 s.shared t = true →
        ∀ creator ∈ s.threads, creator.2.next?.any (·.declares t.id) = true → ∀ raw ∈ creator.1.2.dependsOn,
          ∀ d ∈ s.shared.db.tasks, d.teamId = creator.1.1.teamId → normalizeKey raw = .ok d.key →
            d.status.finished = true))
  | .call .. | .server _ => isTrue trivial

/-- A dependency of the task, inserted or still to be inserted. -/
def Wants (s : State) (phase : Nat → TaskPhase) (task dep : Uuid) : Prop :=
  s.shared.db.DependsOn task dep ∨ ∃ i ds, phase i = .owes task ds ∧ dep ∈ ds

/-- What the creators named, and what the claims found. -/
structure Ledger (s : State) (phase : Nat → TaskPhase) : Prop extends Crew s phase where
  named : ∀ i who task ds, s.who? i = some who → phase i = .owes task ds → ∀ d ∈ ds,
    ∃ raw ∈ who.2.dependsOn, ∃ key, normalizeKey raw = .ok key ∧ s.shared.db.taskAt d who.1.teamId key
  declared : ∀ i who task ds, s.who? i = some who → phase i = .owes task ds → ∀ raw ∈ who.2.dependsOn,
    ∃ key d, normalizeKey raw = .ok key ∧ s.shared.db.taskAt d who.1.teamId key ∧
      (s.shared.db.DependsOn task d ∨ d ∈ ds)
  free : ∀ j who task key, s.who? j = some who → who.2.claims = true → phase j = .updated task key →
    ∀ d, Wants s phase task d → s.shared.db.finished d

end Concurrent

omit [Platform] in
theorem Db.Finishes.finished {db db' : Db} (h : db.Finishes db') {task : Uuid} (hfin : db.finished task) :
    db'.finished task := by
  obtain ⟨t, ht, hid, hfin⟩ := hfin
  exact ⟨t, h t ht hfin, hid, hfin⟩

namespace TaskStep
variable {auth : AuthCtx} {c : Call} {g g' : TaskPhase} {l : Stmt} {pg pg' : Pg}

/-- From the creation of a task on, a call is about that task, and what it no longer owes it has inserted. -/
theorem owes_stays {task : Uuid} {ds : List Uuid} (h : TaskStep auth c (.owes task ds) l pg g' pg') :
    ∃ es, g' = .owes task es ∧ ∀ d ∈ ds, ⟨task, d⟩ ∈ pg'.db.taskDeps ∨ d ∈ es := by
  cases h with
  | still | record => exact ⟨ds, rfl, fun d hd => .inr hd⟩
  | depend _ hdeps =>
    refine ⟨_, rfl, fun d hd => ?_⟩
    rcases List.mem_cons.1 hd with rfl | hd
    · exact .inl (hdeps ▸ List.mem_append_right _ (List.mem_singleton_self _))
    · exact .inr hd

/-- What a creation owes is what it has found under the keys that it names. -/
theorem created {task : Uuid} {ds : List Uuid} (h : TaskStep auth c g l pg (.owes task ds) pg')
    (hnew : ∀ es, g ≠ .owes task es) : ∃ deps, g = .found deps ∧
      c.dependsOn.map normalizeKey = deps.map (fun x => .ok x.1) ∧ ∀ d, d ∈ ds ↔ ∃ x ∈ deps, x.2 = d := by
  cases h with
  | still | record => exact absurd rfl (hnew ds)
  | create _ hall => exact ⟨_, rfl, hall, fun d => by simp [sortDedup]⟩
  | depend => exact absurd rfl (hnew _)
  | update _ _ _ hg => rcases hg with hg | ⟨_, _, hg⟩ <;> cases hg

/-- A call that owes dependencies of an old task owed them before. -/
theorem owed {task : Uuid} {ds : List Uuid} (h : TaskStep auth c g l pg (.owes task ds) pg')
    (hold : task ∈ pg.db.taskIds) : ∃ es, g = .owes task es ∧ ds ⊆ es := by
  cases h with
  | still | record => exact ⟨ds, rfl, List.Subset.refl ds⟩
  | create _ _ hnew => exact absurd hold hnew
  | depend => exact ⟨_, rfl, List.subset_cons_self ..⟩
  | update _ _ _ hg => rcases hg with hg | ⟨_, _, hg⟩ <;> cases hg

/-- No edge is lost. -/
theorem keeps {d : TaskDep} (h : TaskStep auth c g l pg g' pg') (hd : d ∈ pg.db.taskDeps) : d ∈ pg'.db.taskDeps := by
  cases h with
  | still | lookup => exact hd
  | create _ _ _ _ hdeps | update _ _ hdeps | record _ _ hdeps => exact hdeps ▸ hd
  | depend _ hdeps => exact hdeps ▸ List.mem_append_left _ hd

/-- What a claim has updated is what it took, unless it had updated it before. -/
theorem updated {task : Uuid} {key : String} (h : TaskStep auth c g l pg (.updated task key) pg')
    (hc : c.claims = true) : g = .updated task key ∨
      l = .update .tasks ∧ ∃ t ∈ pg.db.tasks, t.id = task ∧ c.takes auth pg t = true := by
  cases h with
  | still | record => exact .inl rfl
  | update hclaim => exact .inr ⟨rfl, hclaim hc _ _ rfl⟩

/-- A new task is one that the call has created. -/
theorem creates {task : Uuid} (h : TaskStep auth c g l pg g' pg') (hin : task ∈ pg'.db.taskIds)
    (hnew : task ∉ pg.db.taskIds) : ∃ ds, g' = .owes task ds := by
  cases h with
  | still | lookup => exact absurd hin hnew
  | create _ _ _ hids =>
    rcases List.mem_append.1 (hids ▸ hin) with hin | hin
    · exact absurd hin hnew
    · exact ⟨_, by rw [List.mem_singleton.1 hin]⟩
  | depend hids | update _ hids | record _ hids => exact absurd (hids ▸ hin) hnew

/-- A call that owes a dependency inserts it next. -/
theorem owes_label {task dep : Uuid} {ds : List Uuid} (h : TaskStep auth c (.owes task (dep :: ds)) l pg g' pg') :
    l = .insertTaskDep task dep := by
  cases h with
  | still hg | record hg => cases hg
  | depend => rfl

end TaskStep

namespace Concurrent
namespace Ledger
variable {s : State} {phase : Nat → TaskPhase}

/-- Who owes a dependency of the task is about to insert one. -/
theorem owes_next (h : Crew s phase) {i : Nat} {task d : Uuid} {ds : List Uuid} (hi : phase i = .owes task ds)
    (hd : d ∈ ds) : ∃ who p, s.threads[i]? = some (who, p) ∧ p.next?.any (·.declares task) = true := by
  by_cases hlt : i < s.threads.length
  swap
  · rw [h.idle i (Nat.le_of_not_lt hlt)] at hi
    cases hi
  obtain ⟨⟨who, p⟩, ht⟩ : ∃ t, s.threads[i]? = some t := ⟨_, List.getElem?_eq_getElem hlt⟩
  refine ⟨who, p, ht, ?_⟩
  have hfollows := h.obeys i who p ht
  have hsure := h.sure i who p ht
  rw [hi] at hfollows hsure
  cases ds with
  | nil => cases hd
  | cons dep ds =>
    cases p with
    | ret r =>
      -- A call that has returned owes nothing.
      have hends : Bus.Ends TaskPhase.Settled TaskPhase.Answered r (.owes task (dep :: ds)) := hfollows
      cases r with
      | error e => cases hends
      | ok a =>
        cases a with
        | claim => cases hends.1
        | _ => cases hends
    | act l ready eff rest =>
      obtain ⟨hguard, hstep⟩ := hfollows
      obtain ⟨g', hmove, -⟩ := hstep s.shared hsure (by rw [hguard]; rfl)
      obtain ⟨hmove, -⟩ := hmove
      rw [hmove.owes_label]
      simp [Prog.next?, Stmt.declares]

theorem start {pg : Pg} (hv : pg.Valid) (hdeps : pg.db.taskDeps = []) : Ledger (start pg) fun _ => .found [] where
  toCrew := Crew.start hv hdeps
  named i who task ds hi := by simp [Concurrent.start, Conf.who?] at hi
  declared i who task ds hi := by simp [Concurrent.start, Conf.who?] at hi
  free j who task key hj := by simp [Concurrent.start, Conf.who?] at hj

theorem call (h : Ledger s phase) (auth : AuthCtx) {c : Call} (hc : c.onTasks = true) :
    Ledger (next s (.call auth c)) phase := by
  have hcrew := h.toCrew.call auth hc
  simp only [next] at hcrew ⊢
  split
  case isFalse => exact h
  next hauth =>
  rw [if_pos hauth] at hcrew
  -- The new thread owes nothing and has claimed nothing.
  have hold : ∀ i who g, (s.spawn (auth, c) (c.run auth s.threads.length).run).who? i = some who → phase i = g →
      g ≠ .found [] → s.who? i = some who := by
    intro i who g hi hg hne
    rcases Nat.lt_or_ge i s.threads.length with hlt | hge
    · rwa [Conf.who?_spawn_of_lt hlt] at hi
    · exact absurd (hg.symm.trans (h.idle i hge)) hne
  exact ⟨hcrew, fun i who task ds hi hg => h.named i who task ds (hold i who _ hi hg (by simp)) hg,
    fun i who task ds hi hg => h.declared i who task ds (hold i who _ hi hg (by simp)) hg,
    fun j who task key hj hc hg => h.free j who task key (hold j who _ hj hg (by simp)) hc hg⟩

theorem server (h : Ledger s phase) (e : Event) : Ledger (next s (.server e)) phase := by
  obtain ⟨htasks, hdeps⟩ := Crew.server_tasks h.valid e
  have hwho : ∀ i, (Concurrent.next s (.server e)).who? i = s.who? i := by
    intro i
    simp only [Concurrent.next]
    split <;> rfl
  have hcrew := h.toCrew.server e
  refine ⟨hcrew, fun i who task ds hi hg d hd => ?_, fun i who task ds hi hg raw hraw => ?_,
    fun j who task key hj hc hg d hd => ?_⟩
  · simpa only [Db.taskAt, htasks] using h.named i who task ds (hwho i ▸ hi) hg d hd
  · simpa only [Db.taskAt, Db.DependsOn, htasks, hdeps] using h.declared i who task ds (hwho i ▸ hi) hg raw hraw
  · simp only [Wants, Db.DependsOn, Db.finished, htasks, hdeps] at hd ⊢
    exact h.free j who task key (hwho j ▸ hj) hc hg d hd

/-- What a claim takes waits for nothing. -/
theorem taken_free (h : Ledger s phase) {j : Nat} {who : AuthCtx × Call} {p : Prog Stmt Pg (Except BusError Reply)}
    (hj : s.threads[j]? = some (who, p)) (hp : p.next? = some (.update .tasks)) (hdecl : Declared s (.turn j)) {t : Task}
    (ht : t ∈ s.shared.db.tasks) (htakes : who.2.takes who.1 s.shared t = true) {d : Uuid}
    (hd : Wants s phase t.id d) : s.shared.db.finished d := by
  rcases hd with hedge | ⟨k, ds, hk, hd⟩
  · have hfree := Db.blocked_eq_false.1 (Call.takes_unblocked h.valid.keys ht htakes)
    obtain ⟨team, -, hin⟩ := h.valid.refs.taskDeps _ hedge
    obtain ⟨x, hx, hq⟩ := List.any_eq_true.1 hin
    simp only [Bool.and_eq_true, beq_iff_eq] at hq
    exact ⟨x, hx, hq.1, hfree d hedge x hx hq.1⟩
  · obtain ⟨creator, q, hq, hnext⟩ := owes_next h.toCrew hk hd
    obtain ⟨raw, hraw, key, hkey, x, hx, hid, hteam, rfl⟩ := h.named k creator _ _ (Conf.who?_of hq) hk d hd
    exact ⟨x, hx, hid,
      hdecl _ hj hp t ht htakes _ (List.mem_of_getElem? hq) hnext raw hraw x hx hteam hkey⟩

theorem turn (h : Ledger s phase) {i : Nat} (hdecl : Declared s (.turn i)) :
    ∃ phase', Ledger (s.sched i) phase' ∧ s.shared.db.Extends (s.sched i).shared.db ∧
      (∀ k task ds, phase k = .owes task ds → ∃ es, phase' k = .owes task es) ∧
      ∀ task ∈ (s.sched i).shared.db.taskIds, task ∉ s.shared.db.taskIds → ∃ ds, phase' i = .owes task ds := by
  rcases h.toCrew.turn i with heq | ⟨who, p, l, g', hi, hl, ⟨hmove, hwrote, hfin, hknows⟩, hcrew⟩
  · rw [heq]
    exact ⟨phase, h, .refl _, fun _ _ ds h => ⟨ds, h⟩, fun task hin hnot => absurd hin hnot⟩
  have hext := hwrote.extends h.valid
  have hsure := (h.sure i who p hi).2.2
  have hids : ∀ {j who task key}, s.who? j = some who → phase j = .updated task key → task ∈ s.shared.db.taskIds := by
    intro j who task key hj hg
    obtain ⟨q, hq⟩ := Conf.exists_of_who? hj
    obtain ⟨-, -, hknows⟩ := h.sure j who q hq
    rw [hg] at hknows
    obtain ⟨t, ht, hid, -⟩ := hknows
    exact List.mem_map.2 ⟨t, ht, hid⟩
  -- Nobody comes to want what an old task did not want before.
  have hwants : ∀ task d, task ∈ s.shared.db.taskIds → Wants (s.sched i) (Function.update phase i g') task d →
      Wants s phase task d := by
    intro task d hold hw
    rcases hw with hedge | ⟨k, ds, hk, hd⟩
    · rcases hmove.edges hedge with hedge | ⟨ds, hown⟩
      · exact .inl hedge
      · exact .inr ⟨i, _, hown, List.mem_cons_self⟩
    · by_cases hki : k = i
      · subst hki
        rw [Function.update_self] at hk
        subst hk
        obtain ⟨es, hes, hsub⟩ := hmove.owed hold
        exact .inr ⟨k, es, hes, hsub hd⟩
      · rw [Function.update_of_ne hki] at hk
        exact .inr ⟨k, ds, hk, hd⟩
  refine ⟨_, ⟨hcrew, fun k creator task ds hk hg d hd => ?_, fun k creator task ds hk hg raw hraw => ?_,
    fun j claim task key hj hc hg d hd => ?_⟩, hext, fun k task ds hk => ?_, fun task hin hnot => ?_⟩
  · rw [Conf.who?_sched] at hk
    by_cases hki : k = i
    · subst hki
      rw [Conf.who?_of hi] at hk
      cases hk
      rw [Function.update_self] at hg
      subst hg
      by_cases howed : ∃ es, phase k = .owes task es
      · obtain ⟨es, hes⟩ := howed
        obtain ⟨es', hes', hsub⟩ := hmove.owed (h.toCrew.owes_mem hes)
        obtain ⟨raw, hraw, key, hkey, hat⟩ := h.named k who task es' (Conf.who?_of hi) hes' d (hsub hd)
        exact ⟨raw, hraw, key, hkey, hext.keys _ _ _ hat⟩
      · obtain ⟨deps, hdeps, hall, hmem⟩ := hmove.created fun es hes => howed ⟨es, hes⟩
        rw [hdeps] at hsure
        obtain ⟨x, hx, rfl⟩ := (hmem d).1 hd
        have hin : .ok x.1 ∈ who.2.dependsOn.map normalizeKey :=
          hall ▸ List.mem_map_of_mem (f := fun x : String × Uuid => Except.ok x.1) hx
        obtain ⟨raw, hraw, hkey⟩ := List.mem_map.1 hin
        exact ⟨raw, hraw, x.1, hkey, hext.keys _ _ _ (hsure x hx)⟩
    · rw [Function.update_of_ne hki] at hg
      obtain ⟨raw, hraw, key, hkey, hat⟩ := h.named k creator task ds hk hg d hd
      exact ⟨raw, hraw, key, hkey, hext.keys _ _ _ hat⟩
  · rw [Conf.who?_sched] at hk
    by_cases hki : k = i
    · subst hki
      rw [Conf.who?_of hi] at hk
      cases hk
      rw [Function.update_self] at hg
      subst hg
      by_cases howed : ∃ es, phase k = .owes task es
      · obtain ⟨es, hes⟩ := howed
        obtain ⟨key, d, hkey, hat, hd⟩ := h.declared k who task es (Conf.who?_of hi) hes raw hraw
        rw [hes] at hmove
        obtain ⟨es', hes', hkept⟩ := hmove.owes_stays
        cases hes'
        refine ⟨key, d, hkey, hext.keys _ _ _ hat, ?_⟩
        rcases hd with hd | hd
        · exact .inl (hmove.keeps hd)
        · exact hkept d hd
      · obtain ⟨deps, hdeps, hall, hmem⟩ := hmove.created fun es hes => howed ⟨es, hes⟩
        rw [hdeps] at hsure
        obtain ⟨x, hx, hkey⟩ := List.mem_map.1 (hall ▸ List.mem_map_of_mem hraw)
        exact ⟨x.1, x.2, hkey.symm, hext.keys _ _ _ (hsure x hx), .inr ((hmem x.2).2 ⟨x, hx, rfl⟩)⟩
    · rw [Function.update_of_ne hki] at hg
      obtain ⟨key, d, hkey, hat, hd⟩ := h.declared k creator task ds hk hg raw hraw
      exact ⟨key, d, hkey, hext.keys _ _ _ hat, hd.imp_left hmove.keeps⟩
  · rw [Conf.who?_sched] at hj
    refine hfin.finished ?_
    by_cases hji : j = i
    · subst hji
      rw [Conf.who?_of hi] at hj
      cases hj
      rw [Function.update_self] at hg
      subst hg
      rcases hmove.updated hc with hold | ⟨rfl, t, ht, rfl, htakes⟩
      · exact h.free j who task key (Conf.who?_of hi) hc hold d (hwants task d (hids (Conf.who?_of hi) hold) hd)
      · exact h.taken_free hi hl hdecl ht htakes (hwants t.id d (List.mem_map_of_mem ht) hd)
    · rw [Function.update_of_ne hji] at hg
      exact h.free j claim task key hj hc hg d (hwants task d (hids hj hg) hd)
  · by_cases hki : k = i
    · subst hki
      rw [hk] at hmove
      obtain ⟨es, rfl, -⟩ := hmove.owes_stays
      exact ⟨es, Function.update_self ..⟩
    · exact ⟨ds, by rw [Function.update_of_ne hki]; exact hk⟩
  · obtain ⟨ds, rfl⟩ := hmove.creates hin hnot
    exact ⟨ds, Function.update_self ..⟩

theorem next (h : Ledger s phase) {step : Step} (hstep : step.onTasks) (hdecl : Declared s step) :
    ∃ phase', Ledger (Concurrent.next s step) phase' ∧ s.shared.db.Extends (Concurrent.next s step).shared.db ∧
      ∀ k task ds, phase k = .owes task ds → ∃ es, phase' k = .owes task es := by
  cases step with
  | call auth c =>
    refine ⟨phase, h.call auth hstep, ?_, fun _ _ ds hk => ⟨ds, hk⟩⟩
    simp only [Concurrent.next]
    split <;> exact .refl _
  | turn i =>
    obtain ⟨phase', h', hext, hkept, -⟩ := h.turn hdecl
    exact ⟨phase', h', hext, hkept⟩
  | server e =>
    refine ⟨phase, h.server e, ?_, fun _ _ ds hk => ⟨ds, hk⟩⟩
    simp only [Concurrent.next]
    split
    · exact Pg.next_lift h.valid e .refl .trans fun _ _ _ _ _ hw _ => hw.extends
    · exact .refl _

theorem after (h : Ledger s phase) {steps : List Step} (hsteps : ∀ step ∈ steps, step.onTasks)
    (hdecl : Runs.Along Concurrent.next Declared s steps) :
    ∃ phase', Ledger (Concurrent.after s steps) phase' ∧ s.shared.db.Extends (Concurrent.after s steps).shared.db ∧
      ∀ k task ds, phase k = .owes task ds → ∃ es, phase' k = .owes task es := by
  induction steps generalizing s phase with
  | nil => exact ⟨phase, h, .refl _, fun _ _ ds hk => ⟨ds, hk⟩⟩
  | cons step steps ih =>
    obtain ⟨phase₁, h₁, hext₁, hkept₁⟩ := h.next (hsteps step List.mem_cons_self) hdecl.1
    obtain ⟨phase₂, h₂, hext₂, hkept₂⟩ := ih h₁ (fun step' hs => hsteps step' (List.mem_cons_of_mem _ hs)) hdecl.2
    refine ⟨phase₂, h₂, hext₁.trans hext₂, fun k task ds hk => ?_⟩
    obtain ⟨es, hes⟩ := hkept₁ k task ds hk
    exact hkept₂ k task es hes

end Ledger

theorem next_who (s : State) (step : Step) {i : Nat} {who : AuthCtx × Call} (h : s.who? i = some who) :
    (next s step).who? i = some who := by
  cases step with
  | call auth c =>
    simp only [next]
    split
    · obtain ⟨p, hp⟩ := Conf.exists_of_who? h
      rw [Conf.who?_spawn_of_lt (List.getElem?_eq_some_iff.1 hp).1, h]
    · exact h
  | turn j => rw [next, Conf.who?_sched, h]
  | server e =>
    simp only [next]
    split <;> exact h

theorem after_who (s : State) (steps : List Step) {i : Nat} {who : AuthCtx × Call} (h : s.who? i = some who) :
    (after s steps).who? i = some who :=
  Runs.invariant (I := fun s => s.who? i = some who) (fun s step hi => next_who s step hi) h steps

/-- A claim that is answered with a task has found every task that the creator of the task named finished, in every
    run in which no claim takes a task while its creator still inserts dependencies on unfinished tasks. -/
theorem claims_wait {now : Time} {before rest : List Step} {i : Nat}
    (htasks : ∀ step ∈ before ++ .turn i :: rest, step.onTasks)
    (hdecl : Runs.Along next Declared (start (Pg.init now)) (before ++ .turn i :: rest))
    {auth : AuthCtx} {input : CreateInput} (hi : (after (start (Pg.init now)) before).who? i = some (auth, .createTask input))
    {t : Task} (hnew : t ∈ (after (start (Pg.init now)) (before ++ [.turn i])).shared.db.tasks)
    (hfresh : t.id ∉ (after (start (Pg.init now)) before).shared.db.taskIds) :
    let s := after (start (Pg.init now)) (before ++ .turn i :: rest)
    ∀ (j : Nat) (claimer : AuthCtx × Call) (p : Prog Stmt Pg (Except BusError Reply)) (r : ClaimResult) (info : TaskInfo),
      s.threads[j]? = some (claimer, p) → claimer.2.claims = true → p.result? = some (.ok (.claim r)) →
      r.claimed = true → r.task = some info → claimer.1.teamId = t.teamId → info.key = t.key →
      ∀ raw ∈ input.dependsOn, ∀ d ∈ s.shared.db.tasks, d.teamId = auth.teamId → normalizeKey raw = .ok d.key →
        d.status.finished = true := by
  intro s j claimer p r info hj hc hres hclaimed hinfo hteam hkey raw hraw d hd hdteam hdkey
  obtain ⟨hbefore, hturn, hrest⟩ := Runs.along_append.1 hdecl
  have htasks₁ : ∀ step ∈ before, step.onTasks := fun step hs => htasks step (List.mem_append_left _ hs)
  have htasks₂ : ∀ step ∈ rest, step.onTasks := fun step hs =>
    htasks step (List.mem_append_right _ (List.mem_cons_of_mem _ hs))
  obtain ⟨phase₀, h₀, -⟩ := (Ledger.start (Pg.Valid.init now) rfl).after htasks₁ hbefore
  obtain ⟨phase₁, h₁, -, -, hcreated⟩ := h₀.turn hturn
  obtain ⟨phase₂, h₂, hext, hkept⟩ := h₁.after htasks₂ hrest
  have hs : s = after ((after (start (Pg.init now)) before).sched i) rest := Runs.after_append ..
  have hstep : after (start (Pg.init now)) (before ++ [.turn i]) = (after (start (Pg.init now)) before).sched i :=
    Runs.after_append ..
  rw [hstep] at hnew
  rw [← hs] at h₂ hext
  obtain ⟨ds₁, hds₁⟩ := hcreated t.id (List.mem_map_of_mem hnew) hfresh
  obtain ⟨ds, hds⟩ := hkept i t.id ds₁ hds₁
  have hwho : s.who? i = some (auth, .createTask input) := hs ▸ after_who _ _ (by rw [Conf.who?_sched, hi])
  have hat := hext.keys t.id t.teamId t.key ⟨t, hnew, rfl, rfl, rfl⟩
  -- What the claim took is the task.
  have hans : Bus.Ends TaskPhase.Settled TaskPhase.Answered (.ok (.claim r)) (phase₂ j) := by
    have hfollows := h₂.obeys j claimer p hj
    cases p with
    | act => cases hres
    | ret a =>
      cases hres
      exact hfollows
  obtain ⟨-, hupdated⟩ := hans
  obtain ⟨task, key, hg, hkeys⟩ := hupdated hclaimed
  obtain ⟨-, -, hknows⟩ := h₂.sure j claimer p hj
  rw [hg] at hknows
  have htask : task = t.id := by
    obtain ⟨u, hu, huid, huteam, hukey⟩ := hat
    obtain ⟨v, hv, hvid, hvteam, hvkey⟩ := hknows
    have hkey' : v.key = u.key := by rw [hvkey, hukey, ← hkey, hkeys info hinfo]
    have heq := h₂.valid.keys.taskKeys.eq hv hu (by simp only [Db.taskKey, hvteam, huteam, hteam, hkey'])
    rw [← hvid, heq, huid]
  subst htask
  obtain ⟨key', dep, hkey', ⟨x, hx, rfl, hxteam, hxkey⟩, hwants⟩ := h₂.declared i _ _ _ hwho hds raw hraw
  rw [hdkey] at hkey'
  cases hkey'
  have hfin : s.shared.db.finished x.id :=
    h₂.free j claimer t.id key (Conf.who?_of hj) hc hg x.id (hwants.imp_right fun hmem => ⟨i, ds, hds, hmem⟩)
  obtain ⟨y, hy, hyid, hyfin⟩ := hfin
  have hxy := h₂.valid.keys.tasks.eq hy hx hyid
  have hdx := h₂.valid.keys.taskKeys.eq hd hx (by simp only [Db.taskKey, hdteam, hxteam, hxkey])
  rw [hdx, ← hxy]
  exact hyfin

end Concurrent
end CrewSync

namespace CrewSync.Concurrent
open Sample
attribute [local instance] Platform.ascii

/-- What a thread has answered a claim with. -/
def claimOf (s : State) (j : Nat) : Option ClaimResult :=
  match s.threads[j]?.bind fun t => t.2.result? with
  | some (.ok (.claim r)) => some r
  | _ => none

/-- Ann has created a task, and a second one that depends on it is inserted next. -/
def creating : List Step :=
  crew.map .server ++ [.call ann (.createTask ⟨"build", "build", none, none, []⟩)] ++ List.replicate 4 (.turn 0) ++
    [.call ann (.createTask ⟨"ship", "ship", none, none, ["build"]⟩), .turn 1, .turn 1]

/-- The rest of the creation; then bob finishes the first task and claims the second one. -/
def patient : List Step :=
  List.replicate 3 (.turn 1) ++ [.call bob (.completeTask "build" none)] ++ List.replicate 3 (.turn 2) ++
    [.call bob (.claimTask "ship" none)] ++ List.replicate 3 (.turn 3)

theorem patient_waits :
    ((after (start (Pg.init 0)) (creating ++ .turn 1 :: patient)).shared.db.tasks.all fun d =>
      !(d.teamId == 0 && d.key == "build") || d.status.finished) = true := by
  have hnew : ∃ t ∈ (after (start (Pg.init 0)) (creating ++ [.turn 1])).shared.db.tasks,
      t.teamId = 0 ∧ t.key = "ship" ∧ t.id ∉ (after (start (Pg.init 0)) creating).shared.db.taskIds := by decide
  obtain ⟨t, ht, hteam, hkey, hfresh⟩ := hnew
  have hclaim : ((after (start (Pg.init 0)) (creating ++ .turn 1 :: patient)).threads[3]?.any fun c =>
      c.1.2.claims && c.1.1.teamId == 0 && match c.2.result? with
        | some (.ok (.claim r)) => r.claimed && r.task.any (·.key == "ship")
        | _ => false) = true := by decide
  obtain ⟨⟨claimer, p⟩, hj, hq⟩ := (Option.any_eq_true _ _).1 hclaim
  simp only [Bool.and_eq_true, beq_iff_eq] at hq
  obtain ⟨⟨hc, hcteam⟩, hq⟩ := hq
  split at hq
  case h_2 => cases hq
  next r hres =>
  rw [Bool.and_eq_true] at hq
  obtain ⟨info, hinfo, hikey⟩ := (Option.any_eq_true _ _).1 hq.2
  have h := @claims_wait Platform.ascii 0 creating patient 1
    (by simp [creating, patient, crew, Step.onTasks, Call.onTasks]) (by decide) ann _ (by rfl) t ht hfresh 3 claimer p r info hj hc
    hres hq.1 hinfo (hcteam.trans hteam.symm) (by rw [hkey]; simpa using hikey)
  refine List.all_eq_true.2 fun d hd => ?_
  by_cases hd' : (d.teamId == 0 && d.key == "build") = true
  · obtain ⟨hdteam, hdkey⟩ := Bool.and_eq_true_iff.1 hd'
    have hbuild : normalizeKey "build" = .ok d.key := by
      rw [beq_iff_eq.1 hdkey]
      decide
    rw [h "build" (List.mem_singleton_self _) d hd (beq_iff_eq.1 hdteam) hbuild, Bool.or_true]
  · rw [Bool.not_eq_true] at hd'
    rw [hd', Bool.not_false, Bool.true_or]

/-- Bob claims the second task before its dependency is inserted. -/
def hasty : List Step :=
  creating ++ [.turn 1, .call bob (.claimTask "ship" none)] ++ List.replicate 3 (.turn 2)

theorem hasty_claims :
    let s := after (start (Pg.init 0)) hasty
    s.who? 1 = some (ann, .createTask ⟨"ship", "ship", none, none, ["build"]⟩) ∧
      ((claimOf s 2).any fun r => r.claimed && r.task.any (·.key == "ship")) = true ∧
      ∃ d ∈ s.shared.db.tasks, d.teamId = ann.teamId ∧ d.key = "build" ∧ d.status = .«open» := by
  refine ⟨by rfl, by decide, by decide⟩

end CrewSync.Concurrent
