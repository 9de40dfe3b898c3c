import CrewSync.Theorems.Leftovers

/-! Runs in which statements fail. What a failed call leaves behind is a valid database all the same, so calls go on
    from there; they leave rows behind exactly where a statement before the failing one has changed one. -/

namespace CrewSync
open Bus (Leaves Reads)
open Threads
section
variable [Platform] {pg : Pg} {auth : AuthCtx} {c : Call}

/-- The statement number `n` of the call comes after one that changes a row. -/
inductive Pg.Exposed (pg : Pg) (auth : AuthCtx) : Call → Nat → Prop
  | task {c : Call} {p : Task → Bool} {f : Task → Task} {n : Nat} (change : TaskChange pg auth c p f)
    (half : pg.Half p f n) : Exposed pg auth c n
  | created {input : CreateInput} {key title : String} {description : Option String} {deps : List Uuid} {n : Nat}
    (registers : pg.Registers auth input key title description deps) (inserted : input.dependsOn.length + 2 ≤ n)
    (more : n ≤ input.dependsOn.length + (sortDedup deps).length + 3) : Exposed pg auth (.createTask input) n
  | noted {input : SetInput} {n : Nat} (sets : pg.Sets auth input)
    (half : n = 1 ∧ pg.Overwrites auth input ∨ n = 2 ∨ 3 ≤ n ∧ pg.Misses auth input) :
    Exposed pg auth (.setNote input) n

theorem call_leaves (hv : pg.Valid) (hc : Caller auth.agentId auth.teamId pg.db) (pid : Nat)
    (h : c.piecewise = true) : Leaves (c.run auth pid) pg (pg.Exposed auth c) := by
  cases c with
  | createTask input =>
    by_cases hreg : ∃ key title description deps, pg.Registers auth input key title description deps
    · obtain ⟨key, title, description, deps, hreg⟩ := hreg
      refine (registers_leaves hv hc hreg).map.congr fun n => ⟨fun hn => ?_, fun hn => .created hreg hn.1 hn.2⟩
      cases hn with
      | task change => cases change
      | @created _ key' _ _ deps' _ hreg' hlow hhigh =>
        obtain rfl : key' = key := Except.ok.inj (hreg'.normal.symm.trans hreg.normal)
        have hok := (lookupDeps_ok hreg'.resolved).1.symm.trans (lookupDeps_ok hreg.resolved).1
        obtain rfl : deps' = deps := by
          cases hok
          rfl
        exact ⟨hlow, hhigh⟩
    · push Not at hreg
      refine (unregistered_leaves hreg).map.congr fun n => ⟨fun hn => ?_, False.elim⟩
      cases hn with
      | task change => cases change
      | created hreg' => exact hreg _ _ _ _ hreg'
  | claimTask raw lease =>
    cases hkey : normalizeKey raw with
    | error e =>
      refine (Leaves.check_error hkey).map.congr fun n => ⟨fun hn => ?_, False.elim⟩
      cases hn with
      | task change => cases change with | claim _ h => rw [hkey] at h; cases h
    | ok key =>
      refine (claimTask_leaves hv hc lease hkey).map.congr fun n => ⟨fun hn => ?_, .task (.claim lease hkey)⟩
      cases hn with
      | task change half =>
        cases change with
        | claim _ h =>
          rw [hkey] at h
          cases h
          exact half
  | claimNextTask lease =>
    refine (claimNextTask_leaves hv hc lease).map.congr fun n => ⟨fun hn => ?_, .task (.claimNext lease)⟩
    cases hn with
    | task change half => cases change; exact half
  | releaseTask raw =>
    cases hkey : normalizeKey raw with
    | error e =>
      refine (Leaves.check_error hkey).map.congr fun n => ⟨fun hn => ?_, False.elim⟩
      cases hn with
      | task change => cases change with | release h => rw [hkey] at h; cases h
    | ok key =>
      refine (releaseTask_leaves hv hc hkey).map.congr fun n => ⟨fun hn => ?_, .task (.release hkey)⟩
      cases hn with
      | task change half =>
        cases change with
        | release h =>
          rw [hkey] at h
          cases h
          exact half
  | completeTask raw result =>
    have refused : (∀ p f, ¬ TaskChange pg auth (.completeTask raw result) p f) →
        ∀ n, pg.Exposed auth (.completeTask raw result) n ↔ False := by
      refine fun hno n => ⟨fun hn => ?_, False.elim⟩
      cases hn with
      | task change => exact hno _ _ change
    cases hkey : normalizeKey raw with
    | error e =>
      refine (Leaves.check_error hkey).map.congr (refused fun p f change => ?_)
      cases change with | complete h => rw [hkey] at h; cases h
    | ok key =>
    cases hresult : checkTextOpt "task result" result maxResultBytes with
    | error e =>
      refine (Leaves.check hkey (Leaves.check_error hresult)).map.congr (refused fun p f change => ?_)
      cases change with | complete _ hr => rw [hresult] at hr; cases hr
    | ok result' =>
      refine (completeTask_leaves hv hc hkey hresult).map.congr fun n => ⟨fun hn => ?_, .task (.complete hkey hresult)⟩
      cases hn with
      | task change half =>
        cases change with
        | complete h hr =>
          rw [hkey] at h
          cases h
          rw [hresult] at hr
          cases hr
          exact half
  | setNote input =>
    by_cases hsets : pg.Sets auth input
    · refine (setNote_leaves hv hc hsets).map.congr fun n => ⟨fun hn => ?_, .noted hsets⟩
      cases hn with
      | task change => cases change
      | noted _ half => exact half
    · refine (unset_leaves hsets).map.congr fun n => ⟨fun hn => ?_, False.elim⟩
      cases hn with
      | task change => cases change
      | noted hsets' => exact hsets hsets'
  | _ => cases h

/-! ### Runs with failing statements -/

/-- A call on notes: the caller, and the note that it has written. -/
def noteProtocol (auth : AuthCtx) : Protocol Stmt Pg (Option Uuid) where
  sure g pg := pg.Valid ∧ Caller auth.agentId auth.teamId pg.db ∧ ∀ id ∈ g, pg.db.noteIn id auth.teamId = true
  ready _ _ := true
  step _ _ _ g' pg' := pg'.Valid ∧ Caller auth.agentId auth.teamId pg'.db ∧
    ∀ id ∈ g', pg'.db.noteIn id auth.teamId = true

omit [Platform] in
theorem noteProtocol.execute {α : Type} {l : Stmt} {s : Sql α} {P : Db → Prop} {Q : α → Db → Prop} {g : Option Uuid}
    {ok : Time → Db → Write → Prop} (hs : Sql.Writes ok P s Q)
    (hP : ∀ pg, (noteProtocol auth).sure g pg → P pg.db) (g' : α → Option Uuid)
    (hQ : ∀ a db, Q a db → ∀ id ∈ g' a, db.noteIn id auth.teamId = true) :
    Bus.Follows (noteProtocol auth) (fun _ => True) (fun a g => g = g' a) (CrewSync.execute l s) g := by
  refine .execute rfl fun pg hsure => ?_
  cases h : s pg with
  | error e =>
    have heffect : s.effect pg = pg := by rw [Sql.effect, h]
    have hanswer : s.answer pg = .error e := by rw [Sql.answer, h]; rfl
    rw [heffect, hanswer]
    exact ⟨g, hsure, trivial⟩
  | ok r =>
    obtain ⟨a, seqs, ws⟩ := r
    have heffect : s.effect pg = { pg with db := pg.db.write ws, seqs } := by rw [Sql.effect, h]
    have hanswer : s.answer pg = .ok a := by rw [Sql.answer, h]; rfl
    obtain ⟨hw, hq⟩ := hs.wrote hsure.1 (hP pg hsure) h
    rw [heffect, hanswer]
    exact ⟨g' a, ⟨hw.valid hsure.1, hw.agentIn hsure.2.1, hQ a _ hq⟩, rfl⟩

omit [Platform] in
theorem noteProtocol.reads {α : Type} {x : Bus α} (hx : Reads x) (g : Option Uuid) :
    Bus.Follows (noteProtocol auth) (fun _ => True) (fun _ g' => g' = g) x g :=
  (Bus.Follows.reads hx (fun _ _ => rfl) fun _ _ _ hs => hs).imp (fun _ _ => trivial) fun _ _ h => h

theorem setNote_follows (input : SetInput) :
    Bus.Follows (noteProtocol auth) (fun _ => True) (fun _ _ => True) (setNote auth input) none := by
  have throws : ∀ {α β : Type} {e : BusError} {f : α → Bus β}, Bus.Follows (noteProtocol auth) (fun _ => True)
      (fun _ _ => True) ((throw e : Bus α) >>= f) none := .throw_bind trivial
  unfold setNote
  refine .ite (fun _ => throws) fun _ => .ite (fun _ => throws) fun _ => .ite (fun _ => throws) fun _ => ?_
  refine (noteProtocol.reads .check none).bind fun _ g h => ?_
  subst h
  refine (noteProtocol.execute (upsertNote_writes (P := fun _ => True) (List.Subset.refl [Table.notes, .webhookDeliveries]))
    (fun _ _ => trivial) some fun a db h id hid => ?_).bind fun id g h => ?_
  · obtain rfl := Option.some.inj hid
    exact h
  subst h
  refine (noteProtocol.execute (insertNoteRevision_writes auth rfl (List.mem_singleton_self Table.noteRevisions))
    (fun pg hs => ⟨hs.2.1, hs.2.2 id rfl⟩) (fun _ => none) fun _ _ _ id hid => by cases hid).bind fun _ g h => ?_
  subst h
  refine (noteProtocol.reads ?_ none).bind fun r g h => ?_
  · exact .bind .select fun _ => .pure
  · cases r.note with
    | none => exact .throw trivial
    | some note => exact .pure trivial

/-- Every statement of such a call finds a valid database. -/
theorem trail_valid (hv : pg.Valid) (hc : Caller auth.agentId auth.teamId pg.db) (pid : Nat)
    (h : c.piecewise = true) : ∀ pg' ∈ (c.run auth pid).trail pg, pg'.Valid := by
  have task : c.onTasks = true → ∀ pg' ∈ (c.run auth pid).trail pg, pg'.Valid := by
    intro hon pg' hmem
    obtain ⟨g, hsure⟩ := (Call.run_follows pid hon).run.trail (fun _ _ => rfl)
      (fun g l pg g' pg' hs hstep => ⟨hstep.2.1.valid hs.1, hstep.2.1.agentIn hs.2.1, hstep.2.2.2⟩)
      ⟨hv, hc, fun _ h => by cases h⟩ pg' hmem
    exact hsure.1
  cases c with
  | setNote input =>
    intro pg' hmem
    have hnote : Bus.Follows (noteProtocol auth) (fun _ => True) (fun _ _ => True) ((Call.setNote input).run auth pid)
        none := (setNote_follows input).map fun _ _ _ => trivial
    obtain ⟨g, hsure⟩ := hnote.run.trail (fun _ _ => rfl) (fun _ _ _ _ _ _ h => h) ⟨hv, hc, fun _ h => by cases h⟩ pg' hmem
    exact hsure.1
  | createTask | claimTask | claimNextTask | releaseTask | completeTask => exact task rfl
  | _ => cases h

theorem Faults.next_valid (hv : pg.Valid) (s : Faults.Step) : (Faults.next pg s).Valid := by
  cases s with
  | event e => exact hv.next e
  | failed auth c n =>
    simp only [Faults.next]
    split
    · next h =>
      obtain ⟨hauth, hpiece⟩ := Bool.and_eq_true_iff.1 h
      rw [Bus.exec_failing]
      cases hn : ((c.run auth 0).trail pg)[n]? with
      | none =>
        have hnext := hv.next (.call auth 0 c)
        rw [Pg.next, Pg.call, if_pos hauth] at hnext
        exact hnext
      | some pg' =>
        exact trail_valid hv (AuthCtx.authentic.caller hauth) 0 hpiece pg' (List.mem_of_getElem? hn)
    · exact hv

/-- In every run, with failing statements or not, and for every call on tasks or notes: with its statement number `n`
    failing the call answers or leaves every row as it was, if and only if no row is changed before that statement. -/
theorem untouched_iff {now : Time} {steps : List Faults.Step}
    (hauth : auth.authentic (Runs.after Faults.next (Pg.init now) steps).db = true) (hc : c.piecewise = true) (n : Nat) :
    (Runs.after Faults.next (Pg.init now) steps).Untouched auth c n ↔
      ¬ (Runs.after Faults.next (Pg.init now) steps).Exposed auth c n := by
  have hv : (Runs.after Faults.next (Pg.init now) steps).Valid :=
    Runs.invariant (I := fun pg : Pg => pg.Valid) (fun _ s h => Faults.next_valid h s) (Pg.Valid.init now) steps
  have hleaves := fun pid => call_leaves hv (AuthCtx.authentic.caller hauth) pid hc
  constructor
  · exact fun h => ((hleaves 0).iff n).1 (h 0)
  · exact fun h pid => ((hleaves pid).iff n).2 h

end

namespace Sample
attribute [local instance] Platform.ascii

/-- Ann writes a note and creates a task. -/
def writing : List Faults.Step :=
  crew.map .event ++ [.event (.call ann 0 (.setNote ⟨none, "plan", "first", none⟩)),
    .event (.call ann 0 (.createTask ⟨"base", "base", none, none, []⟩))]

def written : Pg := Runs.after Faults.next (Pg.init 0) writing

theorem written_untouched : written.Untouched bob (.createTask ⟨"top", "top", none, none, ["base"]⟩) 2 :=
  (@untouched_iff Platform.ascii bob (.createTask ⟨"top", "top", none, none, ["base"]⟩) 0 writing
    (by decide) rfl 2).2 fun h => by
    rcases h with change | ⟨_, inserted, _⟩
    · cases change
    · exact absurd inserted (by decide)

/-- The revision of bob's note is not inserted, nor the dependency of his task: both calls fail, the note is overwritten,
    and the task is there for anybody to claim. -/
theorem half_written :
    let note := ((Call.run bob 0 (.setNote ⟨none, "plan", "second", none⟩)).failing .db 1).exec written
    let task := ((Call.run bob 0 (.createTask ⟨"top", "top", none, none, ["base"]⟩)).failing .db 3).exec written
    note.1 = .error .db ∧ note.2.db.notes.map (·.value) = ["second"] ∧
      note.2.db.noteRevisions.map (·.value) = ["first"] ∧
      task.1 = .error .db ∧ (∃ t ∈ task.2.db.tasks, t.key = "top" ∧ t.status = .«open» ∧
        task.2.db.dependsOn t.id = [] ∧ task.2.db.blocked t.id = false) ∧
      ¬ written.Untouched bob (.setNote ⟨none, "plan", "second", none⟩) 1 ∧
      ¬ written.Untouched bob (.createTask ⟨"top", "top", none, none, ["base"]⟩) 3 := by
  intro note task
  have hnote : note.1 = .error .db ∧ note.2.db.notes.map (·.value) = ["second"] ∧
      note.2.db.noteRevisions.map (·.value) = ["first"] := by decide
  have htask : task.1 = .error .db ∧ ∃ t ∈ task.2.db.tasks, t.key = "top" ∧ t.status = .«open» ∧
      task.2.db.dependsOn t.id = [] ∧ task.2.db.blocked t.id = false := by decide
  refine ⟨hnote.1, hnote.2.1, hnote.2.2, htask.1, htask.2, fun h => ?_, fun h => ?_⟩
  · have hsame := congrArg (fun db => db.notes.map (·.value)) (h 0 .db .db hnote.1)
    have hold : written.db.rows.notes.map (·.value) = ["first"] := by decide
    exact absurd (hnote.2.1.symm.trans (hsame.trans hold)) (by decide)
  · have hsame := congrArg (fun db => db.tasks.length) (h 0 .db .db htask.1)
    exact absurd hsame (by decide)

end Sample
end CrewSync
