import CrewSync.Theorems.Uploading

/-! How many files a target has, and how many bytes a team: both are checked before a file is added, by statements of their
    own. The limits hold as long as what the check of an upload has read is still so when the upload adds its file, or
    there is room besides. -/

namespace CrewSync
open Threads
variable [Platform]

namespace Concurrent

/-- The call has read the value outside a transaction, in the course of the steps. -/
def HasRead {β : Type} (pg : Pg) (f : Db → β) (steps : List Step) (i : Nat) (v : β) : Prop :=
  ∃ earlier between, steps = earlier ++ .turn i :: between ∧
    (after (start pg) earlier).next? i = some (.select .attachments) ∧ f (after (start pg) earlier).shared.db = v

/-- Since the call read the files outside a transaction, the value is the same. -/
def StillSo {β : Type} (pg : Pg) (f : Db → β) (steps : List Step) (i : Nat) : Prop :=
  ∀ v, HasRead pg f steps i v → f (after (start pg) steps).shared.db = v

/-- A target gets more files by the turn only where they are as many as the call has counted, or fewer than it may have. -/
def FitsTarget (pg : Pg) (steps : List Step) (i : Nat) : Prop :=
  ∀ c, (after (start pg) steps).shared.db.filesOn c < (after (start pg) (steps ++ [.turn i])).shared.db.filesOn c →
    StillSo pg (·.filesOn c) steps i ∨ (after (start pg) steps).shared.db.filesOn c < maxAttachmentsPerTarget

/-- The next statement of an `attach_to_message` inserts its file: the lock that it takes is free, and the row keeps the
    constraints. -/
structure Inserts (pg : Pg) (steps : List Step) (i : Nat) (auth : AuthCtx) (message : Int) (att : NewAttachment) : Prop where
  who : (after (start pg) steps).who? i = some (auth, .attachToMessage message att)
  next : (after (start pg) steps).next? i = some (.insertAttachment auth.teamId)
  free : (after (start pg) steps).shared.canLock i auth.teamId .keyShare = true
  row : ∃ r, insertAttachment auth.teamId (some message) none auth.agentId att (after (start pg) steps).shared = .ok r

/-- A file goes in outside a transaction only where the bytes of the team are those that the call has summed, or there is
    room for it besides. -/
def FitsQuota (pg : Pg) (team : Uuid) (limit : Int) (steps : List Step) (i : Nat) : Prop :=
  ∀ auth message att, Inserts pg steps i auth message att → auth.teamId = team →
    StillSo pg (·.attachmentBytes team) steps i ∨
      (after (start pg) steps).shared.db.attachmentBytes team + att.sizeBytes ≤ limit

/-- A post that the tool lets through. -/
def Step.checked : Step → Prop
  | .call _ (.postMessage input) => (checkFiles input.attachments).isOk = true
  | _ => True

/-- How far the uploads have come, and what they have read. -/
structure Reading (pg : Pg) (steps : List Step) (phase : Nat → UploadPhase) : Prop where
  uploads : Uploads pg (after (start pg) steps) phase
  counted : ∀ i c n, (phase i).counted = some (c, n) → n < maxAttachmentsPerTarget ∧ HasRead pg (·.filesOn c) steps i n
  summed : ∀ i who used bytes, (after (start pg) steps).who? i = some who → (phase i).room = some (used, bytes) →
    (phase i).holds = false → pg.db.quota who.1.teamId ≠ none →
    HasRead pg (·.attachmentBytes who.1.teamId) steps i used

section
variable {pg : Pg} {steps : List Step} {i : Nat}

/-- What the call reads outside a transaction, in the course of the steps. -/
def readsOf {β : Type} (f : Db → β) (i : Nat) : State → List Step → List β
  | _, [] => []
  | s, .turn j :: steps =>
    if j = i ∧ s.next? i = some (.select .attachments) then f s.shared.db :: readsOf f i (next s (.turn j)) steps
    else readsOf f i (next s (.turn j)) steps
  | s, step :: steps => readsOf f i (next s step) steps

theorem mem_readsOf {β : Type} {f : Db → β} {v : β} (s : State) (steps : List Step) : v ∈ readsOf f i s steps ↔
    ∃ earlier between, steps = earlier ++ .turn i :: between ∧
      (after s earlier).next? i = some (.select .attachments) ∧ f (after s earlier).shared.db = v := by
  induction steps generalizing s with
  | nil => simp [readsOf]
  | cons step steps ih =>
    -- A read is that of the first step, or one of the rest.
    have hsplit : (∃ earlier between, step :: steps = earlier ++ .turn i :: between ∧
          (after s earlier).next? i = some (.select .attachments) ∧ f (after s earlier).shared.db = v) ↔
        (step = .turn i ∧ s.next? i = some (.select .attachments) ∧ f s.shared.db = v) ∨
          v ∈ readsOf f i (next s step) steps := by
      rw [ih]
      constructor
      · rintro ⟨earlier, between, heq, hnext, hv⟩
        rcases List.cons_eq_append_iff.1 heq with ⟨rfl, heq⟩ | ⟨earlier', rfl, rfl⟩
        · exact .inl ⟨(List.cons.inj heq).1, hnext, hv⟩
        · exact .inr ⟨earlier', between, rfl, hnext, hv⟩
      · rintro (⟨rfl, hnext, hv⟩ | ⟨earlier, between, rfl, hnext, hv⟩)
        · exact ⟨[], steps, rfl, hnext, hv⟩
        · exact ⟨step :: earlier, between, rfl, hnext, hv⟩
    rw [hsplit]
    cases step with
    | turn j =>
      rw [readsOf]
      split
      · next h => simp [h.1, h.2, eq_comm]
      · next h =>
        simp only [Step.turn.injEq]
        exact ⟨.inr, fun h' => h'.resolve_left fun h'' => h ⟨h''.1, h''.2.1⟩⟩
    | _ => simp [readsOf]

instance {β : Type} [DecidableEq β] (f : Db → β) : Decidable (StillSo pg f steps i) :=
  decidable_of_iff (∀ v ∈ readsOf f i (start pg) steps, f (after (start pg) steps).shared.db = v)
    (forall_congr' fun v => by rw [mem_readsOf]; rfl)

theorem after_concat (pg : Pg) (steps : List Step) (step : Step) :
    after (start pg) (steps ++ [step]) = next (after (start pg) steps) step := by
  simp only [after, Runs.after_append, Runs.after_cons, Runs.after_nil]

theorem HasRead.concat {β : Type} {f : Db → β} {v : β} (h : HasRead pg f steps i v) (step : Step) :
    HasRead pg f (steps ++ [step]) i v := by
  obtain ⟨earlier, between, rfl, hnext, hv⟩ := h
  exact ⟨earlier, between ++ [step], by simp, hnext, hv⟩

theorem HasRead.last {β : Type} (f : Db → β) (h : (after (start pg) steps).next? i = some (.select .attachments)) :
    HasRead pg f (steps ++ [.turn i]) i (f (after (start pg) steps).shared.db) :=
  ⟨steps, [], rfl, h, rfl⟩

end

section
variable {pg : Pg} {steps : List Step} {i : Nat}

/-- The turn adds the file. -/
theorem Inserts.adds {auth : AuthCtx} {message : Int} {att : NewAttachment} (h : Inserts pg steps i auth message att)
    (hloose : Loose (after (start pg) steps)) :
    ∃ a : Attachment, ((after (start pg) steps).sched i).shared.db.attachments =
      (after (start pg) steps).shared.db.attachments ++ [a] ∧ a.teamId = auth.teamId ∧ a.sizeBytes = att.sizeBytes := by
  obtain ⟨-, x, hx, heff⟩ := hloose.turn h.who h.next h.free
  obtain rfl : (message, att) = x := Option.some.inj hx
  obtain ⟨⟨id, seqs, ws⟩, hrow⟩ := h.row
  obtain ⟨a, -, ha, -, -, rfl⟩ := insertAttachment_ok hrow
  refine ⟨a, ?_, by rw [ha]; rfl, by rw [ha]; rfl⟩
  simp only [heff, Sql.effect, looseInsert, hrow]
  rfl

/-- Where a turn adds files outside a transaction, it inserts the one of an `attach_to_message`. -/
theorem inserts_of_adds (hloose : Loose (after (start pg) steps)) {who : AuthCtx × Call}
    (hwho : (after (start pg) steps).who? i = some who)
    (hnext : (after (start pg) steps).next? i = some (.insertAttachment who.1.teamId))
    (hfree : (after (start pg) steps).shared.canLock i who.1.teamId .keyShare = true)
    (hadds : ((after (start pg) steps).sched i).shared.db.attachments ≠ (after (start pg) steps).shared.db.attachments) :
    ∃ message att a, Inserts pg steps i who.1 message att ∧ ((after (start pg) steps).sched i).shared.db.attachments =
      (after (start pg) steps).shared.db.attachments ++ [a] ∧ a.sizeBytes = att.sizeBytes := by
  obtain ⟨-, ⟨message, att⟩, hx, heff⟩ := hloose.turn hwho hnext hfree
  obtain ⟨auth, c⟩ := who
  obtain rfl : c = .attachToMessage message att := by
    cases c with
    | attachToMessage => simpa [Call.loose] using hx
    | _ => cases hx
  have hrow : ∃ r, insertAttachment auth.teamId (some message) none auth.agentId att (after (start pg) steps).shared = .ok r := by
    cases hr : insertAttachment auth.teamId (some message) none auth.agentId att (after (start pg) steps).shared with
    | ok r => exact ⟨r, rfl⟩
    | error e =>
      refine absurd ?_ hadds
      simp only [heff, Sql.effect, looseInsert, hr]
  have hinserts : Inserts pg steps i auth message att := ⟨hwho, hnext, hfree, hrow⟩
  obtain ⟨a, ha, -, hsize⟩ := hinserts.adds hloose
  exact ⟨message, att, a, hinserts, ha, hsize⟩

end

namespace Reading
variable {pg : Pg} {steps : List Step} {phase : Nat → UploadPhase}

theorem start (hv : pg.Valid) (hlocks : pg.teamLocks = []) : Reading pg [] fun _ => .idle :=
  ⟨.start hv hlocks, fun _ _ _ h => (by cases h), fun _ _ _ _ _ h => by cases h⟩

theorem next (h : Reading pg steps phase) {step : Step} (hstep : step.uploads) :
    ∃ phase', Reading pg (steps ++ [step]) phase' := by
  obtain ⟨huploads, hcounted, hsummed⟩ := h
  have stay : ∀ {s' : State}, after (Concurrent.start pg) (steps ++ [step]) = s' → Uploads pg s' phase →
      (∀ i who, s'.who? i = some who → i < (after (Concurrent.start pg) steps).threads.length →
        (after (Concurrent.start pg) steps).who? i = some who) → Reading pg (steps ++ [step]) phase := by
    rintro _ rfl huploads' hwho
    refine ⟨huploads', fun i c n hi => ?_, fun i who used bytes hi hroom hholds hquota => ?_⟩
    · obtain ⟨hlt, hread⟩ := hcounted i c n hi
      exact ⟨hlt, hread.concat step⟩
    · by_cases hlt : i < (after (Concurrent.start pg) steps).threads.length
      · exact (hsummed i who used bytes (hwho i who hi hlt) hroom hholds hquota).concat step
      · rw [huploads.idle i (Nat.le_of_not_lt hlt)] at hroom
        cases hroom
  cases step with
  | call auth c =>
    refine ⟨phase, stay (after_concat pg steps _) (huploads.call auth hstep) fun i who hi hlt => ?_⟩
    simp only [Concurrent.next] at hi
    split at hi
    · rwa [Conf.who?_spawn_of_lt hlt] at hi
    · exact hi
  | server e =>
    cases e with
    | tick d =>
      exact ⟨phase, stay (after_concat pg steps _) (huploads.tick d) fun _ _ hi _ => hi⟩
    | _ => exact hstep.elim
  | turn i =>
    rcases huploads.turn i with hsame | ⟨who, p, l, g', hi, hl, hmove, huploads'⟩
    · refine ⟨phase, stay (after_concat pg steps _) ?_ fun j who hj _ => ?_⟩
      · simp only [Concurrent.next, hsame]
        exact huploads
      · simpa only [Concurrent.next, Conf.who?_sched] using hj
    · have hnext : (after (Concurrent.start pg) steps).next? i = some l := by
        simp only [Conf.next?, hi, Option.bind_some, hl]
      refine ⟨Function.update phase i g', ⟨?_, fun j c n hj => ?_, fun j who' used bytes hj hroom hholds hquota => ?_⟩⟩
      · rw [after_concat]
        exact huploads'
      · by_cases hji : j = i
        · subst hji
          rw [Function.update_self] at hj
          rcases hmove.counts c n hj with hold | ⟨rfl, rfl, hlt⟩
          · obtain ⟨hlt, hread⟩ := hcounted j c n hold
            exact ⟨hlt, hread.concat _⟩
          · exact ⟨hlt, .last (fun db => db.filesOn c) hnext⟩
        · rw [Function.update_of_ne hji] at hj
          obtain ⟨hlt, hread⟩ := hcounted j c n hj
          exact ⟨hlt, hread.concat _⟩
      · rw [after_concat, Concurrent.next, Conf.who?_sched] at hj
        by_cases hji : j = i
        · subst hji
          rw [Conf.who?_of hi] at hj
          obtain rfl := Option.some.inj hj
          rw [Function.update_self] at hroom hholds
          rcases hmove.sums used bytes hroom hholds hquota with ⟨hold, hheld⟩ | ⟨rfl, rfl⟩
          · exact (hsummed j who used bytes (Conf.who?_of hi) hold hheld hquota).concat _
          · exact .last (fun db => db.attachmentBytes who.1.teamId) hnext
        · rw [Function.update_of_ne hji] at hroom hholds
          exact (hsummed j who' used bytes hj hroom hholds hquota).concat _

theorem run (hv : pg.Valid) (hlocks : pg.teamLocks = []) {steps : List Step} (hsteps : ∀ step ∈ steps, step.uploads) :
    ∃ phase, Reading pg steps phase := by
  induction steps using List.reverseRecOn with
  | nil => exact ⟨_, start hv hlocks⟩
  | append_singleton steps step ih =>
    obtain ⟨phase, h⟩ := ih fun step hstep => hsteps step (List.mem_append_left _ hstep)
    exact h.next (hsteps step (List.mem_append_right _ (List.mem_singleton_self step)))

omit [Platform] in
theorem checked_files {auth : AuthCtx} {c : Call} (h : (Step.call auth c).checked) : c.files ≤ maxAttachmentsPerTarget := by
  cases c with
  | postMessage input =>
    simp only [Step.checked, checkFiles] at h
    split at h
    · cases h
    · next hlength => exact Nat.le_of_not_lt hlength
  | _ => exact Nat.zero_le _

/-- The posts of the run have few files. -/
theorem files_le {steps : List Step} (hsteps : ∀ step ∈ steps, step.checked) {i : Nat} {who : AuthCtx × Call}
    (hi : (after (Concurrent.start pg) steps).who? i = some who) : who.2.files ≤ maxAttachmentsPerTarget := by
  induction steps using List.reverseRecOn with
  | nil => simp [after, Concurrent.start, Conf.who?] at hi
  | append_singleton steps step ih =>
    have hmem : ∀ step ∈ steps, step.checked := fun step hstep => hsteps step (List.mem_append_left _ hstep)
    rw [after_concat] at hi
    cases step with
    | turn j =>
      rw [Concurrent.next, Conf.who?_sched] at hi
      exact ih hmem hi
    | server e =>
      simp only [Concurrent.next] at hi
      split at hi <;> exact ih hmem hi
    | call auth c =>
      simp only [Concurrent.next] at hi
      split at hi
      · obtain ⟨p, hp⟩ := Conf.exists_of_who? hi
        rcases Conf.spawn_threads hp with hold | ⟨-, rfl, -⟩
        · exact ih hmem (Conf.who?_of hold)
        · exact checked_files (hsteps _ (List.mem_append_right _ (List.mem_singleton_self _)))
      · exact ih hmem hi

/-- What a turn adds to a target: no files, one more than it had, or those of a new message. -/
theorem filesOn_turn (h : Reading pg steps phase) (hchecked : ∀ step ∈ steps, step.checked) {i : Nat} (hfits : FitsTarget pg steps i) (c : Carrier)
    (hc : (after (Concurrent.start pg) steps).shared.db.filesOn c ≤ maxAttachmentsPerTarget) :
    (after (Concurrent.start pg) (steps ++ [.turn i])).shared.db.filesOn c ≤ maxAttachmentsPerTarget := by
  by_cases hgrows : (after (Concurrent.start pg) steps).shared.db.filesOn c <
      (after (Concurrent.start pg) (steps ++ [.turn i])).shared.db.filesOn c
  · have hfits := hfits c hgrows
    rw [after_concat, Concurrent.next] at hgrows ⊢
    rcases h.uploads.turn i with hsame | ⟨who, p, l, g', hi, -, hmove, -⟩
    · rw [hsame] at hgrows
      exact absurd hgrows (lt_irrefl _)
    obtain ⟨as, has, hadds⟩ := hmove.adds
    by_cases hnil : as = []
    · rw [Db.filesOn, Db.filesOn, has, hnil, List.append_nil] at hgrows
      exact absurd hgrows (lt_irrefl _)
    obtain ⟨-, ⟨c', hon, hcarrier⟩, -, -, -⟩ := hadds hnil
    have hfiles := Db.filesOn_append has hon c
    by_cases hcc : c = c'
    · subst hcc
      rw [if_pos rfl] at hfiles
      rcases hcarrier with ⟨id, hid, rfl, hlength⟩ | ⟨⟨n, hn⟩, hone⟩
      · -- Nobody has attached anything to a message that is not committed yet.
        have hnone : (after (Concurrent.start pg) steps).shared.db.filesOn (.message id) = 0 := by
          rw [Db.filesOn, List.length_eq_zero_iff, List.filter_eq_nil_iff]
          intro a ha hon
          have hmessage : a.messageId = some id := by simpa [Attachment.isOn] using hon
          exact ((h.uploads.knows i who p hi).drawn id hid).2 (h.uploads.files a ha id hmessage)
        have := files_le hchecked (Conf.who?_of hi)
        omega
      · obtain ⟨hlt, hread⟩ := h.counted i c n hn
        rcases hfits with hsame | hroom
        · have hsame : (after (Concurrent.start pg) steps).shared.db.filesOn c = n := hsame n hread
          omega
        · omega
    · rw [if_neg hcc] at hfiles
      omega
  · omega

/-- What a turn adds to the bytes of a team. -/
theorem bytes_turn (h : Reading pg steps phase) (hloose : Loose (after (Concurrent.start pg) steps)) {i : Nat} {team : Uuid}
    {limit : Int} (hlimit : pg.db.quota team = some limit) (hfits : FitsQuota pg team limit steps i)
    (hbytes : (after (Concurrent.start pg) steps).shared.db.attachmentBytes team ≤ limit) :
    (after (Concurrent.start pg) (steps ++ [.turn i])).shared.db.attachmentBytes team ≤ limit := by
  rw [after_concat, Concurrent.next]
  rcases h.uploads.turn i with hsame | ⟨who, p, l, g', hi, hl, hmove, -⟩
  · rwa [hsame]
  obtain ⟨as, has, hadds⟩ := hmove.adds
  by_cases hnil : as = []
  · rw [Db.attachmentBytes, has, hnil, List.append_nil]
    exact hbytes
  obtain ⟨hteams, -, -, ⟨used, hroom⟩, halone⟩ := hadds hnil
  have hgrown := Db.bytes_append has hteams team
  by_cases hteam : team = who.1.teamId
  · subst hteam
    rw [if_pos rfl] at hgrown
    obtain ⟨hroom', hheld⟩ := (h.uploads.knows i who p hi).room _ hroom limit hlimit
    simp only at hroom' hheld
    by_cases hholds : (phase i).holds = true
    · have := hheld hholds
      omega
    · rcases halone with hown | ⟨rfl, hfree⟩
      · exact absurd hown hholds
      · -- What it has summed outside a transaction may have changed.
        have hnext : (after (Concurrent.start pg) steps).next? i = some (.insertAttachment who.1.teamId) := by
          simp only [Conf.next?, hi, Option.bind_some, hl]
        obtain ⟨message, att, a, hinserts, ha, hsize⟩ := inserts_of_adds hloose (Conf.who?_of hi) hnext hfree
          (has ▸ fun heq => hnil (List.append_right_eq_self.1 heq))
        have hbytesOf : bytesOf as = att.sizeBytes := by
          rw [List.append_cancel_left (has.symm.trans ha), ← hsize]
          exact add_zero _
        rcases hfits who.1 message att hinserts rfl with hsame | hsmall
        · have hused : (after (Concurrent.start pg) steps).shared.db.attachmentBytes who.1.teamId = used :=
            hsame used (h.summed i who used _ (Conf.who?_of hi) hroom (by simpa using hholds) (by simp [hlimit]))
          omega
        · omega
  · rw [if_neg hteam] at hgrown
    omega

/-- What every turn of the run keeps of the tables holds throughout; the rest of the run leaves them as they are. -/
theorem keeps {I : Db → Prop} {pg : Pg} (hv : pg.Valid) (hlocks : pg.teamLocks = []) (h₀ : I pg.db) {steps : List Step}
    (hsteps : ∀ step ∈ steps, step.uploads)
    (hturn : ∀ before i phase, before ++ [.turn i] <+: steps → Reading pg before phase →
      I (after (Concurrent.start pg) before).shared.db → I (after (Concurrent.start pg) (before ++ [.turn i])).shared.db)
    {before : List Step} (hpre : before <+: steps) : I (after (Concurrent.start pg) before).shared.db := by
  induction before using List.reverseRecOn with
  | nil => exact h₀
  | append_singleton before step ih =>
    have hbefore : before <+: steps := (List.prefix_append before [step]).trans hpre
    have hI := ih hbefore
    cases step with
    | turn i =>
      obtain ⟨phase, h⟩ := run hv hlocks fun step hstep => hsteps step (hbefore.subset hstep)
      exact hturn before i phase hpre h hI
    | call auth c =>
      rw [after_concat]
      simp only [Concurrent.next]
      split <;> exact hI
    | server e =>
      have hstep := hsteps (.server e) (hpre.subset (by simp))
      rw [after_concat]
      cases e with
      | tick d => exact hI
      | _ => exact hstep.elim

end Reading

/-- In every state of a run of uploads, no message and no task has more than eight files, if and only if a target gets
    another file only where it has as many as the call has counted, or still fewer than eight. -/
theorem filesOn_bounded_iff {pg : Pg} (hv : pg.Valid) (hlocks : pg.teamLocks = [])
    (hfiles : ∀ c, pg.db.filesOn c ≤ maxAttachmentsPerTarget) {steps : List Step} (hsteps : ∀ step ∈ steps, step.uploads)
    (hchecked : ∀ step ∈ steps, step.checked) :
    (∀ before, before <+: steps → ∀ c, (after (start pg) before).shared.db.filesOn c ≤ maxAttachmentsPerTarget) ↔
      ∀ before i, before ++ [.turn i] <+: steps → FitsTarget pg before i := by
  constructor
  · intro h before i hpre c hgrows
    exact .inr (hgrows.trans_le (h _ hpre c))
  · intro h before hpre
    exact Reading.keeps (I := fun db => ∀ c, db.filesOn c ≤ maxAttachmentsPerTarget) hv hlocks hfiles hsteps
      (fun before i phase hpre hreading hc c => hreading.filesOn_turn (fun step hstep => hchecked step
        (hpre.subset (List.mem_append_left _ hstep))) (h before i hpre) c (hc c)) hpre

/-- In every state of a run of uploads, the files of a team with a quota take no more bytes than that, if and only if a
    file goes in outside a transaction only where the bytes of the team are those that the call has summed, or there is
    room for it besides. -/
theorem quota_kept_iff {pg : Pg} (hv : pg.Valid) (hlocks : pg.teamLocks = []) {team : Uuid} {limit : Int}
    (hlimit : pg.db.quota team = some limit) (hbytes : pg.db.attachmentBytes team ≤ limit) {steps : List Step}
    (hsteps : ∀ step ∈ steps, step.uploads) :
    (∀ before, before <+: steps → (after (start pg) before).shared.db.attachmentBytes team ≤ limit) ↔
      ∀ before i, before ++ [.turn i] <+: steps → FitsQuota pg team limit before i := by
  have hloose : ∀ before i, before ++ [.turn i] <+: steps → Loose (after (start pg) before) := fun before i hpre =>
    Loose.after pg fun step hstep => hsteps step (hpre.subset (List.mem_append_left _ hstep))
  constructor
  · rintro h before i hpre auth message att hinserts rfl
    obtain ⟨a, ha, hteam, hsize⟩ := hinserts.adds (hloose before i hpre)
    have hteams : ∀ b ∈ [a], b.teamId = auth.teamId := by simpa using hteam
    have hafter := h _ hpre
    rw [after_concat, Concurrent.next, Db.bytes_append ha hteams, if_pos rfl] at hafter
    have hbytesOf : bytesOf [a] = att.sizeBytes := (add_zero _).trans hsize
    exact .inr (hbytesOf ▸ hafter)
  · intro h before hpre
    exact Reading.keeps (I := fun db => db.attachmentBytes team ≤ limit) hv hlocks hbytes hsteps
      (fun before i phase hpre hreading hc => hreading.bytes_turn (hloose before i hpre) hlimit (h before i hpre) hc) hpre

end Concurrent
end CrewSync

namespace CrewSync.Concurrent
open Sample
attribute [local instance] Platform.ascii

def note (bytes : List UInt8) (h : bytes ≠ [] ∧ bytes.length ≤ maxAttachmentBytes) : NewAttachment :=
  ⟨"note.txt", "text/plain", bytes, h.1, h.2⟩

/-- A task with as many files. -/
def filed (n : Nat) : Pg :=
  Runs.after Pg.next (Pg.init 0) (crew ++ [.call ann 0 (.createTask ⟨"build", "build", none, none, []⟩)] ++
    List.replicate n (.call ann 0 (.attachToTask "build" (note [1] (by decide)))))

theorem filed_valid (n : Nat) : (filed n).Valid := ((Pg.Reachable.init 0).after _).valid

/-- Ann and bob attach a file to it, statement by statement among each other: bob counts the files once ann's is there. -/
def filedInTurn : List Step :=
  [.call ann (.attachToTask "build" (note [1] (by decide))), .call bob (.attachToTask "build" (note [2] (by decide))),
   .turn 0, .turn 1] ++ List.replicate 5 (.turn 0) ++ List.replicate 5 (.turn 1)

set_option maxRecDepth 20000 in
theorem filedInTurn_bounded :
    let s := after (start (filed 6)) filedInTurn
    (s.threads.all fun t => t.2.result?.isSome) = true ∧
      ∃ t ∈ s.shared.db.tasks, s.shared.db.filesOn (.task t.id) ≤ maxAttachmentsPerTarget := by
  intro s
  have honly : ∀ before ∈ filedInTurn.inits, ∀ a ∈ (after (start (filed 6)) before).shared.db.attachments,
      a.taskId = some 3 ∧ a.messageId = none := by decide
  have hsame : ∀ before ∈ filedInTurn.inits, ∀ i ∈ [0, 1], (after (start (filed 6)) before).shared.db.filesOn (.task 3) <
      (after (start (filed 6)) (before ++ [.turn i])).shared.db.filesOn (.task 3) →
        StillSo (filed 6) (·.filesOn (.task 3)) before i := by decide
  have hkept := (@filesOn_bounded_iff Platform.ascii (filed 6) (filed_valid 6) (by decide)
    (fun c => (List.length_filter_le ..).trans (by decide)) filedInTurn (by simp [filedInTurn, Step.uploads, Call.uploads])
    (by simp [filedInTurn, Step.checked])).2 ?_
  · have htasks : s.shared.db.tasks ≠ [] := by decide
    obtain ⟨t, ht⟩ := List.exists_mem_of_ne_nil _ htasks
    exact ⟨by decide, t, ht, hkept filedInTurn (List.prefix_refl _) (.task t.id)⟩
  · intro before i hpre c hgrows
    -- Only the files of the task become more.
    obtain ⟨a, ha, hon⟩ := List.length_filter_pos_iff.1 ((Nat.zero_le _).trans_lt hgrows)
    obtain ⟨htask, hmessage⟩ := honly _ ((List.mem_inits _ _).2 hpre) a ha
    obtain rfl : c = .task 3 := by
      cases c with
      | message id =>
        rw [Attachment.isOn, hmessage] at hon
        cases hon
      | task id =>
        rw [Attachment.isOn, htask, beq_iff_eq] at hon
        rw [Option.some.inj hon]
    have hturn : Step.turn i ∈ filedInTurn := hpre.subset (by simp)
    have hi : i ∈ [0, 1] := by
      simp [filedInTurn] at hturn ⊢
      tauto
    exact .inl (hsame before ((List.mem_inits _ _).2 ((List.prefix_append before [.turn i]).trans hpre)) i hi hgrows)

/-- Ann and bob attach a file to it: both count the files before either adds one. -/
def bothCount : List Step :=
  [.call ann (.attachToTask "build" (note [1] (by decide))), .call bob (.attachToTask "build" (note [2] (by decide))),
   .turn 0, .turn 0, .turn 1, .turn 1, .turn 0, .turn 0, .turn 0, .turn 0, .turn 1, .turn 1, .turn 1, .turn 1]

set_option maxRecDepth 20000 in
theorem bothCount_exceeds :
    let s := after (start (filed 7)) bothCount
    (s.threads.all fun t => t.2.result?.isSome) = true ∧ ∃ t ∈ s.shared.db.tasks, s.shared.db.filesOn (.task t.id) = 9 := by
  decide

/-- The quota is ten bytes; ann posts two messages. -/
def tight : Pg :=
  Runs.after Pg.next (Pg.init 0) (crew ++ [.command 0 (.teamQuota "core" (some 10)), .call ann 0 (.createChannel "api" none),
    .call ann 0 (.postMessage ⟨some "api", none, false, "one", none, none, []⟩),
    .call ann 0 (.postMessage ⟨some "api", none, false, "two", none, none, []⟩)])

def six : NewAttachment := note [1, 2, 3, 4, 5, 6] (by decide)

def four : NewAttachment := note [1, 2, 3, 4] (by decide)

/-- She attaches six bytes to one of them and four to the other: the second call sums the bytes once the six are there. -/
def sumInTurn : List Step :=
  [.call ann (.attachToMessage 1 six), .call ann (.attachToMessage 2 four), .turn 0, .turn 1] ++
    List.replicate 4 (.turn 0) ++ List.replicate 4 (.turn 1)

set_option maxRecDepth 20000 in
theorem sumInTurn_kept :
    let s := after (start tight) sumInTurn
    (s.threads.all fun t => t.2.result?.isSome) = true ∧ s.shared.db.attachmentBytes ann.teamId ≤ 10 := by
  have hsame : ∀ before ∈ sumInTurn.inits, ∀ i ∈ [0, 1],
      (after (start tight) before).next? i = some (.insertAttachment ann.teamId) →
        StillSo tight (·.attachmentBytes ann.teamId) before i := by decide
  refine ⟨by decide, (@quota_kept_iff Platform.ascii tight ((Pg.Reachable.init 0).after _).valid (by decide) ann.teamId 10
    (by decide) (by decide) sumInTurn (by simp [sumInTurn, Step.uploads, Call.uploads])).2 ?_ sumInTurn (List.prefix_refl _)⟩
  intro before i hpre auth message att hinserts hteam
  have hturn : Step.turn i ∈ sumInTurn := hpre.subset (by simp)
  have hi : i ∈ [0, 1] := by
    simp [sumInTurn] at hturn ⊢
    tauto
  exact .inl (hsame before ((List.mem_inits _ _).2 ((List.prefix_append before [.turn i]).trans hpre)) i hi
    (hteam ▸ hinserts.next))

/-- She attaches six bytes to each of them: both calls sum the bytes before either adds its file. -/
def bothSum : List Step :=
  [.call ann (.attachToMessage 1 six), .call ann (.attachToMessage 2 six)] ++ List.replicate 4 (.turn 0) ++
    List.replicate 4 (.turn 1) ++ [.turn 0, .turn 1]

set_option maxRecDepth 20000 in
theorem bothSum_exceeds :
    let s := after (start tight) bothSum
    (s.threads.all fun t => t.2.result?.isSome) = true ∧ s.shared.db.quota ann.teamId = some 10 ∧
      s.shared.db.attachmentBytes ann.teamId = 12 := by
  decide

end CrewSync.Concurrent
