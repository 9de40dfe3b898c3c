import CrewSync.Footprint.UploadThreads
import CrewSync.Lib.Runs

/-! Uploads statement by statement. An upload counts the files of its target by one statement and adds its own by a later
    one, and what it has counted is of use only if nobody adds any meanwhile. -/

namespace CrewSync
open Threads
variable [Platform]

namespace Concurrent

/-- Among the tools, only uploads. -/
def Step.uploads : Step → Prop
  | .call _ c => c.uploads = true
  | .turn _ | .server (.tick _) => True
  | .server _ => False

/-- How far the uploads of a state have come, in runs from the tables `base`. -/
structure Uploads (base : Pg) (s : State) (phase : Nat → UploadPhase) : Prop where
  obeys : Obeys (fun i who => uploadProtocol base i who.1.teamId who.2.files) (Bus.Ends (fun _ => True) fun _ _ => True) s phase
  knows : ∀ i who p, s.threads[i]? = some (who, p) → (phase i).Knows base i who.1.teamId s.shared
  teams : s.shared.db.teams = base.db.teams
  below : ∀ id ∈ s.shared.db.messageIds, id ≤ s.shared.seqs.messages
  files : ∀ a ∈ s.shared.db.attachments, ∀ id ∈ a.messageId, id ∈ s.shared.db.messageIds
  /-- Whoever has the row of a team for itself shares it with nobody. -/
  locks : ∀ x ∈ s.shared.teamLocks, ∀ y ∈ s.shared.teamLocks, x.pid ≠ y.pid → x.team = y.team → x.mode = .keyShare
  idle : ∀ i, s.threads.length ≤ i → phase i = .idle
  /-- No two posts have drawn the same id. -/
  apart : ∀ i j, i ≠ j → ∀ id ∈ (phase i).drawn, id ∉ (phase j).drawn

end Concurrent

section
variable {base pg pg' : Pg} {pid most : Nat} {team : Uuid} {g g' : UploadPhase} {l : Stmt} {as : List Attachment}

omit [Platform] in
theorem Db.filesOn_append {db db' : Db} (h : db'.attachments = db.attachments ++ as) {c : Carrier}
    (has : ∀ a ∈ as, ∀ c', a.isOn c' = true ↔ c' = c) (c' : Carrier) :
    db'.filesOn c' = db.filesOn c' + if c' = c then as.length else 0 := by
  have hfilter : as.filter (·.isOn c') = if c' = c then as else [] := by
    split
    · next hc => exact List.filter_eq_self.2 fun a ha => (has a ha c').2 hc
    · next hc => exact List.filter_eq_nil_iff.2 fun a ha h => hc ((has a ha c').1 h)
  rw [filesOn, h, List.filter_append, List.length_append, hfilter, filesOn]
  split <;> rfl

omit [Platform] in
theorem Db.bytes_append {db db' : Db} (h : db'.attachments = db.attachments ++ as) (has : ∀ a ∈ as, a.teamId = team)
    (t : Uuid) : db'.attachmentBytes t = db.attachmentBytes t + if t = team then bytesOf as else 0 := by
  have hgrown : Db.attachmentBytes { db with attachments := db.attachments ++ as } t = _ :=
    Db.attachmentBytes_append has t
  rwa [Db.attachmentBytes, ← h] at hgrown

omit [Platform] in
/-- A statement leaves alone the bytes of a team whose row another connection has for itself. -/
theorem UploadStep.bytes_of_held (h : UploadStep base pid team most g l pg g' pg') (hholds : g.Knows base pid team pg)
    {other : Nat} {t : Uuid} (hne : other ≠ pid) (hlock : ⟨other, t, .forUpdate⟩ ∈ pg.teamLocks)
    (hlocks : ∀ x ∈ pg.teamLocks, ∀ y ∈ pg.teamLocks, x.pid ≠ y.pid → x.team = y.team → x.mode = .keyShare) :
    pg'.db.attachmentBytes t = pg.db.attachmentBytes t := by
  obtain ⟨as, has, hadds⟩ := h.adds
  by_cases hnil : as = []
  · rw [Db.attachmentBytes, has, hnil, List.append_nil]
    rfl
  · obtain ⟨hteams, -, -, -, halone⟩ := hadds hnil
    have hteam : t ≠ team := by
      rintro rfl
      rcases halone with hown | ⟨-, hfree⟩
      · have hshare := hlocks _ hlock _ (hholds.holds hown) hne rfl
        cases hshare
      · have hfree := List.all_eq_true.1 hfree _ hlock
        simp [hne] at hfree
    rw [Db.bytes_append has hteams, if_neg hteam, add_zero]

end

namespace Concurrent.Uploads
variable {base : Pg} {s : State} {phase : Nat → UploadPhase}

omit [Platform] in
theorem sure (h : Uploads base s phase) : Sure (fun i who => uploadProtocol base i who.1.teamId who.2.files) s phase :=
  fun i who p hi => ⟨h.teams, h.below, h.knows i who p hi⟩

omit [Platform] in
/-- The ids that an upload holds were all drawn before. -/
theorem drawn_le (h : Uploads base s phase) {i : Nat} {id : Int} (hid : id ∈ (phase i).drawn) :
    id ≤ s.shared.seqs.messages := by
  by_cases hi : i < s.threads.length
  · exact ((h.knows i _ _ (List.getElem?_eq_getElem hi)).drawn id hid).1
  · rw [h.idle i (Nat.le_of_not_lt hi)] at hid
    cases hid

omit [Platform] in
theorem start {pg : Pg} (hv : pg.Valid) (hlocks : pg.teamLocks = []) : Uploads pg (start pg) fun _ => .idle where
  obeys i who p hi := by simp [Concurrent.start] at hi
  knows i who p hi := by simp [Concurrent.start] at hi
  teams := rfl
  below id hid := by
    obtain ⟨m, hm, rfl⟩ := List.mem_map.1 hid
    exact hv.keys.messagesBelow m hm
  files a ha id hid := by
    obtain ⟨m, hm, hq⟩ := List.any_eq_true.1 (hv.refs.files a ha id hid)
    exact List.mem_map.2 ⟨m, hm, by simpa using (Bool.and_eq_true_iff.1 hq).1⟩
  locks x hx := by
    have hx : x ∈ pg.teamLocks := hx
    rw [hlocks] at hx
    cases hx
  idle _ _ := rfl
  apart i j _ id hid := by cases hid

omit [Platform] in
/-- A turn: nothing, or a statement of the upload. -/
theorem turn (h : Uploads base s phase) (i : Nat) :
    s.sched i = s ∨ ∃ who p l g', s.threads[i]? = some (who, p) ∧ p.next? = some l ∧
      UploadStep base i who.1.teamId who.2.files (phase i) l s.shared g' (s.sched i).shared ∧
      Uploads base (s.sched i) (Function.update phase i g') := by
  rcases h.obeys.sched h.sure i with heq | ⟨who, p, l, g', hi, hl, -, hstep, hobeys⟩
  · exact .inl heq
  have hknows := h.knows i who p hi
  refine .inr ⟨who, p, l, g', hi, hl, hstep, hobeys, fun j who' p' hj => ?_, hstep.teams.trans h.teams, fun id hid => ?_,
    fun a ha id hid => ?_, fun x hx y hy hxy hteam => ?_, fun j hj => ?_, fun j k hjk id hid hkd => ?_⟩
  · obtain ⟨q, hq, -⟩ := Conf.sched_threads hj
    by_cases hij : j = i
    · subst hij
      rw [hi] at hq
      cases hq
      rw [Function.update_self]
      exact hstep.knows
    · rw [Function.update_of_ne hij]
      obtain ⟨hdrawn, hholds, hroom⟩ := h.knows j who' q hq
      refine ⟨fun id hid => ⟨(hdrawn id hid).1.trans hstep.seqs, fun hin => ?_⟩, fun hh => ?_, fun x hx limit hlimit => ?_⟩
      · rcases hstep.ids id hin with hold | hcommitted
        · exact (hdrawn id hid).2 hold
        · exact h.apart i j (Ne.symm hij) id hcommitted hid
      · exact (hstep.others _ hij).2 (hholds hh)
      · obtain ⟨hle, hbytes⟩ := hroom x hx limit hlimit
        refine ⟨hle, fun hh => ?_⟩
        rw [hstep.bytes_of_held hknows hij (hholds hh) h.locks]
        exact hbytes hh
  · rcases hstep.ids id hid with hold | hcommitted
    · exact (h.below id hold).trans hstep.seqs
    · exact (h.drawn_le hcommitted).trans hstep.seqs
  · obtain ⟨as, has, hadds⟩ := hstep.adds
    rcases List.mem_append.1 (has ▸ ha : a ∈ s.shared.db.attachments ++ as) with hold | hnew
    · exact hstep.kept (h.files a hold id hid)
    · exact (hadds (List.ne_nil_of_mem hnew)).messages a hnew id hid
  · -- A new lock goes with those that were there.
    rcases hstep.locks x hx with hx' | ⟨hxpid, hxteam, hxfree⟩
    · rcases hstep.locks y hy with hy' | ⟨hypid, hyteam, hyfree⟩
      · exact h.locks x hx' y hy' hxy hteam
      · have := List.all_eq_true.1 hyfree x hx'
        simp only [Bool.or_eq_true, Bool.and_eq_true, beq_iff_eq, bne_iff_ne] at this
        rcases this with (hsame | hother) | hshare
        · exact absurd (hsame.trans hypid.symm) hxy
        · exact absurd (hteam.trans hyteam) hother
        · exact hshare.1
    · rcases hstep.locks y hy with hy' | ⟨hypid, -, -⟩
      · have := List.all_eq_true.1 hxfree y hy'
        simp only [Bool.or_eq_true, Bool.and_eq_true, beq_iff_eq, bne_iff_ne] at this
        rcases this with (hsame | hother) | hshare
        · exact absurd (hxpid.trans hsame.symm) hxy
        · exact absurd (hteam.symm.trans hxteam) hother
        · exact hshare.2
      · exact absurd (hxpid.trans hypid.symm) hxy
  · rw [Conf.length_sched] at hj
    have hlt := (List.getElem?_eq_some_iff.1 hi).1
    rw [Function.update_of_ne (by omega)]
    exact h.idle j hj
  · -- What is drawn now, nobody else has drawn.
    have hnew : ∀ k ≠ i, ∀ id ∈ g'.drawn, id ∉ (phase k).drawn := by
      intro k hki id hid hkd
      rcases hstep.drawn id hid with hold | hlt
      · exact h.apart i k (Ne.symm hki) id hold hkd
      · have := h.drawn_le hkd
        omega
    by_cases hji : j = i
    · subst hji
      rw [Function.update_self] at hid
      rw [Function.update_of_ne (Ne.symm hjk)] at hkd
      exact hnew k (Ne.symm hjk) id hid hkd
    · rw [Function.update_of_ne hji] at hid
      by_cases hki : k = i
      · subst hki
        rw [Function.update_self] at hkd
        exact hnew j hji id hkd hid
      · rw [Function.update_of_ne hki] at hkd
        exact h.apart j k hjk id hid hkd

theorem call (h : Uploads base s phase) (auth : AuthCtx) {c : Call} (hc : c.uploads = true) :
    Uploads base (next s (.call auth c)) phase := by
  simp only [next]
  split
  case isFalse => exact h
  have hphase : Function.update phase s.threads.length .idle = phase := by
    rw [← h.idle _ le_rfl]
    exact Function.update_eq_self _ _
  have hobeys := h.obeys.spawn (auth, c) (Call.run_uploads hc).run
  refine ⟨hphase ▸ hobeys, fun i who p hi => ?_, h.teams, h.below, h.files, h.locks, fun i hi => h.idle i ?_, h.apart⟩
  · rcases Conf.spawn_threads hi with hi | ⟨rfl, rfl, -⟩
    · exact h.knows i who p hi
    · rw [h.idle _ le_rfl]
      exact UploadPhase.idle_knows
  · simp only [Conf.spawn, List.length_append, List.length_singleton] at hi
    omega

theorem tick (h : Uploads base s phase) (d : Nat) : Uploads base (next s (.server (.tick d))) phase where
  obeys := h.obeys
  knows i who p hi := by
    obtain ⟨hdrawn, hholds, hroom⟩ := h.knows i who p hi
    exact ⟨hdrawn, hholds, hroom⟩
  teams := h.teams
  below := h.below
  files := h.files
  locks := h.locks
  idle := h.idle
  apart := h.apart

end Concurrent.Uploads

/-! ### Outside a transaction -/

namespace Concurrent

/-- Outside a transaction every call inserts only the file that it has for that. -/
def Loose (s : State) : Prop :=
  Obeys (fun i who => looseProtocol i who.1 who.2) (Bus.Ends (fun _ => True) fun _ _ => True) s fun _ => ()

namespace Loose
variable {s : State}

omit [Platform] in
theorem start (pg : Pg) : Loose (start pg) := fun i who p hi => by simp [Concurrent.start] at hi

theorem next (h : Loose s) {step : Step} (hstep : step.uploads) : Loose (next s step) := by
  cases step with
  | call auth c =>
    simp only [Concurrent.next]
    split
    · exact Obeys.spawn h (auth, c) (Call.run_loose hstep).run
    · exact h
  | turn i =>
    rcases Obeys.sched h (fun _ _ _ _ => trivial) i with hsame | ⟨who, p, l, g', -, -, -, -, hobeys⟩
    · simp only [Concurrent.next, hsame]
      exact h
    · exact hobeys
  | server e =>
    simp only [Concurrent.next]
    split <;> exact h

theorem after (pg : Pg) {steps : List Step} (hsteps : ∀ step ∈ steps, step.uploads) :
    Loose (after (Concurrent.start pg) steps) := by
  induction steps using List.reverseRecOn with
  | nil => exact start pg
  | append_singleton steps step ih =>
    rw [Concurrent.after, Runs.after_append]
    exact (ih fun step h => hsteps step (List.mem_append_left _ h)).next
      (hsteps step (List.mem_append_right _ (List.mem_singleton_self step)))

omit [Platform] in
/-- The insert of a file outside a transaction, where it need not wait. -/
theorem turn (h : Loose s) {i : Nat} {who : AuthCtx × Call} {team : Uuid} (hwho : s.who? i = some who)
    (hnext : s.next? i = some (.insertAttachment team)) (hfree : s.shared.canLock i who.1.teamId .keyShare = true) :
    team = who.1.teamId ∧ ∃ x, who.2.loose = some x ∧ (s.sched i).shared = (looseInsert who.1 x).effect s.shared := by
  obtain ⟨p, hp⟩ := Conf.exists_of_who? hwho
  have hlabel : p.next? = some (.insertAttachment team) := by
    rwa [Conf.next?, hp, Option.bind_some] at hnext
  cases p with
  | ret a => cases hlabel
  | act l ready eff rest =>
    obtain rfl : l = .insertAttachment team := Option.some.inj hlabel
    obtain ⟨hguard, hstep⟩ := h i who _ hp
    have hready : ready s.shared = true := by
      rw [hguard]
      exact hfree
    obtain ⟨_, hinsert, -⟩ := hstep s.shared trivial hready
    obtain ⟨hteam, x, hx, heff⟩ := hinsert team rfl
    refine ⟨hteam, x, hx, ?_⟩
    rw [Conf.sched_act hp hready]
    exact heff

end Loose
end Concurrent

end CrewSync
