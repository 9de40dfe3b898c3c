import CrewSync.Footprint.MessageThreads
import CrewSync.Theorems.Cursors

/-! Reads among posts, statement by statement. No stored cursor ever moves back, and reads of what is new that follow
    one another show no message twice, however the statements of others fall between theirs. -/

namespace CrewSync
open Threads
variable [Platform]

namespace Concurrent

/-- Among the tools, only reads and posts. -/
def Step.talks : Step → Prop
  | .call _ c => c.talks = true
  | .turn _ | .server (.tick _) => True
  | .server _ => False

/-- How far the reads and the posts of a state have come, and what holds whatever they interleave with. -/
structure Talk (base : Pg) (s : State) (phase : Nat → TalkPhase) : Prop where
  talking : base.Talking s.shared
  obeys : Obeys (fun i who => talkProtocol base i who.1) (Bus.Ends (fun _ => True) TalkPhase.Answered) s phase
  sure : Sure (fun i who => talkProtocol base i who.1) s phase
  idle : ∀ i, s.threads.length ≤ i → phase i = .posting []
  /-- No two posts have drawn the same id. -/
  apart : ∀ i j, i ≠ j → ∀ id ∈ (phase i).drawn, id ∉ (phase j).drawn

/-- What has become of the cursors since `s₀`; the reads of what is new that came in since count from where their cursors
    stood at `s₀`, or further. -/
structure Since (base : Pg) (s₀ s : State) (phase : Nat → TalkPhase) : Prop extends Talk base s phase where
  cursors : ∀ agent key, s₀.shared.db.lastRead agent key ≤ s.shared.db.lastRead agent key
  length : s₀.threads.length ≤ s.threads.length
  later : ∀ j, s₀.threads.length ≤ j → ∀ auth input, s.who? j = some (auth, .readMessages input) →
    input.onlyNew = true → phase j = .lost ∨ ∃ key floor position, cursorKeyOf base auth input = some key ∧
      phase j = .reading key floor position ∧ s₀.shared.db.lastRead auth.agentId key ≤ floor

namespace Talk
variable {base : Pg} {s : State} {phase : Nat → TalkPhase}

theorem start {pg : Pg} (hpg : pg.Reachable) : Talk pg (start pg) fun _ => .posting [] where
  talking := ⟨.refl _, hpg.valid.keys.messages, fun id hid => by
    obtain ⟨m, hm, rfl⟩ := List.mem_map.1 hid
    exact hpg.valid.keys.messagesBelow m hm, hpg.valid.keys.cursors, hpg.lastRead_nonneg⟩
  obeys i who p hi := by simp [Concurrent.start] at hi
  sure i who p hi := by simp [Concurrent.start] at hi
  idle _ _ := rfl
  apart i j _ id hid := by cases hid

omit [Platform] in
/-- The ids that a call holds were all drawn before. -/
theorem drawn_le (h : Talk base s phase) {i : Nat} {id : Int} (hid : id ∈ (phase i).drawn) :
    id ≤ s.shared.seqs.messages := by
  by_cases hi : i < s.threads.length
  · obtain ⟨-, -, hknows⟩ := h.sure i _ _ (List.getElem?_eq_getElem hi)
    cases hphase : phase i with
    | posting ids =>
      rw [hphase] at hid hknows
      exact (hknows.2 id hid).1
    | _ =>
      rw [hphase] at hid
      cases hid
  · rw [h.idle i (Nat.le_of_not_lt hi)] at hid
    cases hid

theorem call (h : Talk base s phase) (auth : AuthCtx) {c : Call} (hc : c.talks = true) :
    ∃ phase', Talk base (next s (.call auth c)) phase' ∧ (next s (.call auth c)).shared = s.shared ∧
      (∀ i < s.threads.length, phase' i = phase i) ∧
      ((next s (.call auth c)).threads.length = s.threads.length ∨
        phase' s.threads.length = c.talkPhase base s.shared auth) := by
  simp only [next]
  split
  case isFalse => exact ⟨phase, h, rfl, fun _ _ => rfl, .inl rfl⟩
  next hauth =>
  have hdrawn : (c.talkPhase base s.shared auth).drawn = [] := by
    cases c with
    | readMessages input =>
      simp only [Call.talkPhase]
      split
      · split <;> rfl
      · rfl
    | _ => rfl
  have hcaller : base.db.agentIn auth.agentId auth.teamId := by
    have := AuthCtx.authentic.caller hauth
    rwa [Caller, Db.agentIn, h.talking.posting.agents] at this
  have hother : ∀ i, i ≠ s.threads.length →
      Function.update phase s.threads.length (c.talkPhase base s.shared auth) i = phase i :=
    fun i hne => Function.update_of_ne hne _ _
  refine ⟨_, ⟨h.talking, h.obeys.spawn (auth, c) (Call.run_talks hc).run, fun i who p hi => ?_, fun i hi => ?_,
    fun i j hij id hid hjd => ?_⟩, rfl, fun i hi => hother i (Nat.ne_of_lt hi), .inr (Function.update_self ..)⟩
  · rcases Conf.spawn_threads hi with hi | ⟨rfl, rfl, -⟩
    · rw [hother i (Nat.ne_of_lt (List.getElem?_eq_some_iff.1 hi).1)]
      exact h.sure i who p hi
    · rw [Function.update_self]
      refine ⟨h.talking, hcaller, ?_⟩
      cases c with
      | readMessages input =>
        simp only [Call.talkPhase]
        split
        · split
          · exact le_rfl
          · trivial
        · trivial
      | _ => exact ⟨List.nodup_nil, List.forall_mem_nil _⟩
  · simp only [Conf.spawn, List.length_append, List.length_singleton] at hi
    rw [hother i (by omega)]
    exact h.idle i (by omega)
  · by_cases hi : i = s.threads.length
    · rw [hi, Function.update_self, hdrawn] at hid
      cases hid
    · by_cases hj : j = s.threads.length
      · rw [hj, Function.update_self, hdrawn] at hjd
        cases hjd
      · rw [hother i hi] at hid
        rw [hother j hj] at hjd
        exact h.apart i j hij id hid hjd

omit [Platform] in
/-- A turn moves no cursor back and leaves every read a read. -/
theorem turn (h : Talk base s phase) (i : Nat) :
    ∃ phase', Talk base (s.sched i) phase' ∧
      (∀ agent key, s.shared.db.lastRead agent key ≤ (s.sched i).shared.db.lastRead agent key) ∧
      (∀ j key floor position, phase j = .reading key floor position →
        ∃ position', phase' j = .reading key floor position') ∧
      (∀ j key floor position, phase' j = .reading key floor position →
        ∃ position', phase j = .reading key floor position') ∧ ∀ j, phase j = .lost → phase' j = .lost := by
  rcases h.obeys.sched h.sure i with heq | ⟨who, p, l, g', hi, -, -, ⟨hposting, hstep⟩, hobeys⟩
  · rw [heq]
    exact ⟨phase, h, fun _ _ => le_rfl, fun _ _ _ position hj => ⟨position, hj⟩, fun _ _ _ position hj => ⟨position, hj⟩,
      fun _ hj => hj⟩
  obtain ⟨-, hcaller, hknows⟩ := h.sure i who p hi
  have htalking := hstep.talking h.talking hknows (h.talking.posting.trans hposting)
  have hcursors := hstep.lastRead_le h.talking.cursors
  refine ⟨Function.update phase i g', ⟨htalking, hobeys, h.sure.sched (fun who' p' hi' => ?_)
    fun j who' p' hji hj hsure => ?_, fun j hj => ?_, fun j k hjk id hid hkd => ?_⟩, hcursors, fun j key floor position hj => ?_,
    fun j key floor position hj => ?_, fun j hj => ?_⟩
  · rw [hi] at hi'
    cases hi'
    exact ⟨htalking, hcaller, hstep.knows h.talking hknows⟩
  · -- What the call has drawn and commits, nobody else has drawn.
    refine ⟨htalking, hsure.2.1, hsure.2.2.mono hstep.seqs_le (fun id hid hin => ?_) (hcursors _)⟩
    rcases hstep.mem_ids hin with hin | hdrawn
    · exact hin
    · exact absurd hid (h.apart i j (Ne.symm hji) id hdrawn)
  · rw [Conf.length_sched] at hj
    have hlt := (List.getElem?_eq_some_iff.1 hi).1
    rw [Function.update_of_ne (by omega)]
    exact h.idle j hj
  · by_cases hji : j = i
    · subst hji
      rw [Function.update_self] at hid
      rw [Function.update_of_ne (Ne.symm hjk)] at hkd
      rcases hstep.mem_drawn hid with hold | hnew
      · exact h.apart j k hjk id hold hkd
      · exact absurd (h.drawn_le hkd) (not_le_of_gt hnew)
    · rw [Function.update_of_ne hji] at hid
      by_cases hki : k = i
      · subst hki
        rw [Function.update_self] at hkd
        rcases hstep.mem_drawn hkd with hold | hnew
        · exact h.apart j k hjk id hid hold
        · exact absurd (h.drawn_le hid) (not_le_of_gt hnew)
      · rw [Function.update_of_ne hki] at hkd
        exact h.apart j k hjk id hid hkd
  · by_cases hji : j = i
    · subst hji
      rw [Function.update_self]
      exact hstep.reading hj
    · exact ⟨position, by rw [Function.update_of_ne hji]; exact hj⟩
  · by_cases hji : j = i
    · subst hji
      rw [Function.update_self] at hj
      exact hstep.of_reading hj
    · rw [Function.update_of_ne hji] at hj
      exact ⟨position, hj⟩
  · by_cases hji : j = i
    · subst hji
      rw [Function.update_self]
      exact hstep.lost hj
    · rw [Function.update_of_ne hji]
      exact hj

theorem tick (h : Talk base s phase) (d : Nat) : Talk base (next s (.server (.tick d))) phase := by
  obtain ⟨hposting, hids, hbelow, hkeyed, hnonneg⟩ := h.talking
  refine ⟨⟨hposting, hids, hbelow, hkeyed, hnonneg⟩, h.obeys, fun i who p hi => ?_, h.idle, h.apart⟩
  obtain ⟨⟨hposting, hids, hbelow, hkeyed, hnonneg⟩, hcaller, hknows⟩ := h.sure i who p hi
  refine ⟨⟨hposting, hids, hbelow, hkeyed, hnonneg⟩, hcaller, ?_⟩
  cases hphase : phase i <;> rw [hphase] at hknows <;> exact hknows

end Talk

namespace Since
variable {base : Pg} {s₀ s : State} {phase : Nat → TalkPhase}

theorem refl (h : Talk base s phase) : Since base s s phase where
  toTalk := h
  cursors _ _ := le_rfl
  length := le_rfl
  later j hj auth input hwho := by
    obtain ⟨p, hp⟩ := Conf.exists_of_who? hwho
    exact absurd (List.getElem?_eq_some_iff.1 hp).1 (Nat.not_lt.2 hj)

theorem next (h : Since base s₀ s phase) {step : Step} (hstep : step.talks) :
    ∃ phase', Since base s₀ (Concurrent.next s step) phase' := by
  cases step with
  | call auth c =>
    obtain ⟨phase', htalk, hshared, hold, hnew⟩ := h.toTalk.call auth hstep
    refine ⟨phase', htalk, by rw [hshared]; exact h.cursors, ?_, fun j hj auth' input hwho honly => ?_⟩
    · simp only [Concurrent.next]
      split
      · simp only [Conf.spawn, List.length_append, List.length_singleton]
        have := h.length
        omega
      · exact h.length
    · obtain ⟨p, hp⟩ := Conf.exists_of_who? hwho
      simp only [Concurrent.next] at hp hnew
      split at hp
      · rw [if_pos ‹_›] at hnew
        rcases Conf.spawn_threads hp with hp | ⟨rfl, hcall, -⟩
        · rw [hold j (List.getElem?_eq_some_iff.1 hp).1]
          exact h.later j hj auth' input (Conf.who?_of hp) honly
        · obtain ⟨rfl, rfl⟩ := Prod.mk.inj hcall
          rcases hnew with hlength | hphase
          · simp [Conf.spawn] at hlength
          · rw [hphase, Call.talkPhase, if_pos honly]
            cases hkey : cursorKeyOf base auth' input with
            | some key => exact .inr ⟨key, _, _, rfl, rfl, h.cursors _ _⟩
            | none => exact .inl rfl
      · rw [hold j (List.getElem?_eq_some_iff.1 hp).1]
        exact h.later j hj auth' input (Conf.who?_of hp) honly
  | turn i =>
    obtain ⟨phase', htalk, hcursors, hreads, -, hlost⟩ := h.toTalk.turn i
    refine ⟨phase', htalk, fun agent key => (h.cursors agent key).trans (hcursors agent key), ?_,
      fun j hj auth input hwho honly => ?_⟩
    · rw [Concurrent.next, Conf.length_sched]
      exact h.length
    · rw [Concurrent.next, Conf.who?_sched] at hwho
      rcases h.later j hj auth input hwho honly with hphase | ⟨key, floor, position, hkey, hphase, hfloor⟩
      · exact .inl (hlost j hphase)
      · obtain ⟨position', hphase'⟩ := hreads j key floor position hphase
        exact .inr ⟨key, floor, position', hkey, hphase', hfloor⟩
  | server e =>
    cases e with
    | tick d => exact ⟨phase, h.toTalk.tick d, h.cursors, h.length, h.later⟩
    | _ => exact hstep.elim

theorem after (h : Since base s₀ s phase) {steps : List Step} (hsteps : ∀ step ∈ steps, step.talks) :
    ∃ phase', Since base s₀ (Concurrent.after s steps) phase' := by
  induction steps generalizing s phase with
  | nil => exact ⟨phase, h⟩
  | cons step steps ih =>
    obtain ⟨phase₁, h₁⟩ := h.next (hsteps step List.mem_cons_self)
    exact ih h₁ fun step' hs => hsteps step' (List.mem_cons_of_mem _ hs)

end Since

/-- The thread has answered a read with the messages. -/
def Returned (s : State) (i : Nat) (auth : AuthCtx) (input : ReadInput) (r : MessageList) : Prop :=
  s.threads[i]? = some ((auth, .readMessages input), .ret (.ok (.messages r)))

omit [Platform] in
theorem Talk.answered {base : Pg} {s : State} {phase : Nat → TalkPhase} (h : Talk base s phase) {i : Nat} {auth : AuthCtx}
    {input : ReadInput} {r : MessageList} (hi : Returned s i auth input r) :
    TalkPhase.Answered (.messages r) (phase i) :=
  h.obeys i _ _ hi

/-- What a read of what is new has returned: messages in ascending order, above where the cursor of its view stood at
    `s₀` and at most where it stands now. -/
theorem Since.batch {base : Pg} {s₀ s : State} {phase : Nat → TalkPhase} (h : Since base s₀ s phase) {j : Nat}
    (hj : s₀.threads.length ≤ j) {auth : AuthCtx} {input : ReadInput} {r : MessageList} (hr : Returned s j auth input r)
    (hnew : input.onlyNew = true) : ∃ key, cursorKeyOf base auth input = some key ∧
      ∀ m ∈ r.messages, s₀.shared.db.lastRead auth.agentId key < m.id ∧ m.id ≤ s.shared.db.lastRead auth.agentId key := by
  obtain ⟨hfound, -, hbatch⟩ := h.toTalk.answered hr
  rcases h.later j hj auth input (Conf.who?_of hr) hnew with hlost | ⟨key, floor, position, hkey, hphase, hfloor⟩
  · exact absurd hlost hfound
  · have hknows := (h.sure j _ _ hr).2.2
    rw [hphase] at hknows
    refine ⟨key, hkey, fun m hm => ?_⟩
    obtain ⟨habove, hbelow⟩ := hbatch key floor position hphase m hm
    exact ⟨hfloor.trans_lt habove, hbelow.trans hknows⟩

/-- Calls of one agent in one session, with the same scope and flag, read with one cursor. -/
theorem cursorKeyOf_same {base : Pg} (hv : base.Valid) {auth auth' : AuthCtx} {input input' : ReadInput}
    (hcaller : base.db.agentIn auth.agentId auth.teamId = true) (hcaller' : base.db.agentIn auth'.agentId auth'.teamId = true)
    (hagent : auth'.agentId = auth.agentId) (hsession : auth'.session = auth.session) (hscope : input'.scope = input.scope)
    (hall : input'.allSessions = input.allSessions) : cursorKeyOf base auth' input' = cursorKeyOf base auth input := by
  have hteam : auth'.teamId = auth.teamId := by
    obtain ⟨a, ha, hq⟩ := List.any_eq_true.1 hcaller
    obtain ⟨a', ha', hq'⟩ := List.any_eq_true.1 hcaller'
    simp only [Bool.and_eq_true, beq_iff_eq] at hq hq'
    have hsame := hv.keys.agents.eq ha' ha (by rw [hq'.1, hq.1, hagent])
    rw [← hq.2, ← hq'.2, hsame]
  have hresolve : resolveScope auth' input'.scope = resolveScope auth input.scope := by
    simp only [resolveScope, hscope, hteam]
  simp only [cursorKeyOf, hresolve, Scope.cursorKeyFor, hsession, hall]

/-- However reads and posts interleave, no stored cursor moves back, every batch is ascending, and each message of a read
    of what is new comes after all those of the reads of the same view that had returned before it came in. -/
theorem batches_ascend {pg : Pg} (hpg : pg.Reachable) {steps rest : List Step}
    (hsteps : ∀ step ∈ steps ++ rest, step.talks) :
    let s := after (start pg) steps
    let s' := after s rest
    (∀ agent key, s.shared.db.lastRead agent key ≤ s'.shared.db.lastRead agent key) ∧
      (∀ i auth input r, Returned s i auth input r → (r.messages.map (·.id)).Pairwise (· < ·)) ∧
      ∀ i j auth auth' input input' r r', Returned s i auth input r → s.threads.length ≤ j → Returned s' j auth' input' r' →
        input.onlyNew = true → input'.onlyNew = true → auth'.agentId = auth.agentId → auth'.session = auth.session →
        input'.scope = input.scope → input'.allSessions = input.allSessions →
        ∀ m ∈ r.messages, ∀ m' ∈ r'.messages, m.id < m'.id := by
  intro s s'
  obtain ⟨phase, h⟩ := (Since.refl (Talk.start hpg)).after fun step hs => hsteps step (List.mem_append_left _ hs)
  obtain ⟨phase', h'⟩ := (Since.refl h.toTalk).after fun step hs => hsteps step (List.mem_append_right _ hs)
  refine ⟨h'.cursors, fun i auth input r hr => (h.toTalk.answered hr).2.1, ?_⟩
  intro i j auth auth' input input' r r' hr hj hr' hnew hnew' hagent hsession hscope hall m hm m' hm'
  obtain ⟨key, hkey, hbatch⟩ := h.batch (Nat.zero_le i) hr hnew
  obtain ⟨key', hkey', hbatch'⟩ := h'.batch hj hr' hnew'
  have hsame := cursorKeyOf_same hpg.valid (h.sure i _ _ hr).2.1 (h'.sure j _ _ hr').2.1 hagent hsession hscope hall
  rw [hkey, hkey'] at hsame
  obtain rfl := Option.some.inj hsame
  exact (hbatch m hm).2.trans_lt (hagent ▸ (hbatch' m' hm').1)

end Concurrent
end CrewSync

namespace CrewSync.Concurrent
open Sample Threads
attribute [local instance] Platform.ascii

/-- Ann reads what is new while bob posts a second message. -/
def reading : List Step :=
  [.call ann (.readMessages ⟨"all", true, 5, false⟩), .turn 0, .turn 0,
   .call bob (.postMessage ⟨some "ops", none, false, "the tests pass", none, none, []⟩)] ++ List.replicate 8 (.turn 1) ++
    [.turn 0]

/-- Then she reads again. -/
def readingOn : List Step := [.call ann (.readMessages ⟨"all", true, 1, false⟩), .turn 2, .turn 2, .turn 2]

/-- The messages that a thread has answered a read with. -/
def batchOf (s : State) (i : Nat) : Option MessageList :=
  match s.threads[i]?.bind fun t => t.2.result? with
  | some (.ok (.messages r)) => some r
  | _ => none

theorem returned_of {s : State} {i : Nat} {auth : AuthCtx} {input : ReadInput} {r : MessageList}
    (hwho : s.who? i = some (auth, .readMessages input)) (hbatch : batchOf s i = some r) : Returned s i auth input r := by
  obtain ⟨p, hp⟩ := Conf.exists_of_who? hwho
  simp only [batchOf, hp, Option.bind_some] at hbatch
  cases p with
  | act => cases hbatch
  | ret a =>
    simp only [Prog.result?] at hbatch
    split at hbatch
    · next heq =>
      obtain rfl := Option.some.inj heq
      obtain rfl := Option.some.inj hbatch
      exact hp
    · cases hbatch

theorem ann_reads_on :
    let s := after (start onePost) reading
    let s' := after s readingOn
    ∃ r r', Returned s 0 ann ⟨"all", true, 5, false⟩ r ∧ Returned s' 2 ann ⟨"all", true, 1, false⟩ r' ∧
      r.messages.map (·.id) = [1] ∧ r'.messages.map (·.id) = [2] ∧ ∀ m ∈ r.messages, ∀ m' ∈ r'.messages, m.id < m'.id := by
  intro s s'
  have hfirst : (batchOf s 0).map (fun r => r.messages.map (·.id)) = some [1] := by decide
  have hsecond : (batchOf s' 2).map (fun r => r.messages.map (·.id)) = some [2] := by decide
  obtain ⟨r, hr, hids⟩ := Option.map_eq_some_iff.1 hfirst
  obtain ⟨r', hr', hids'⟩ := Option.map_eq_some_iff.1 hsecond
  have hreturned : Returned s 0 ann ⟨"all", true, 5, false⟩ r := returned_of (by rfl) hr
  have hreturned' : Returned s' 2 ann ⟨"all", true, 1, false⟩ r' := returned_of (by rfl) hr'
  have hlength : s.threads.length = 2 := by decide
  obtain ⟨-, -, hbatches⟩ := @batches_ascend Platform.ascii onePost onePost_reachable reading readingOn
    (by simp [reading, readingOn, Step.talks, Call.talks])
  exact ⟨r, r', hreturned, hreturned', hids, hids',
    hbatches 0 2 ann ann _ _ r r' hreturned hlength.le hreturned' rfl rfl rfl rfl rfl rfl⟩

end CrewSync.Concurrent
