import CrewSync.Asking
import CrewSync.Footprint.Notices
import CrewSync.Theorems.Answers
import CrewSync.Theorems.WakeFilter

/-! `ask_agent` against the server and the hub: no answer is missed, whatever events are lost. -/

namespace CrewSync.Asking
open Broadcast
variable [Platform] {auth : AuthCtx} {pid : Nat} {input : AskInput} {s : Net Asking} {m : Message}

/-- An event of the server that takes no message away. -/
def stays : Net.Step → Bool
  | .server e => !Pg.isPrune e
  | _ => true

/-- The wake condition accepts the event of every message that a look would accept. -/
theorem wakes_of_answers [Platform.Lawful] {target : Uuid} {session : Option String} {question : Int}
    (h : answers auth target session question m = true) : wakesAsk auth target question (.event m.event) = true := by
  simp only [answers, Bool.and_eq_true, beq_iff_eq, decide_eq_true_eq] at h
  obtain ⟨⟨⟨⟨hsender, hrecipient⟩, hid⟩, hsession⟩, -⟩ := h
  simp only [wakesAsk, Message.event_kind, Message.event_senderAgentId, Message.event_recipientAgentId,
    Message.event_messageId, Message.event_recipientSession, hsender, hrecipient, beq_self_eq_true, Bool.true_and,
    Option.any_some, hid, decide_true]
  exact hsession

omit [Platform] in
/-- A look finds an answer if there is one. -/
theorem found_of_answers {pg : Pg} (hv : pg.Valid) {target : Uuid} {session : Option String} {question : Int}
    {answer : Option MessageInfo} (h : (findAnswer auth target session question).exec pg = (.ok answer, pg))
    (hm : m ∈ pg.db.messages) (hanswers : answers auth target session question m = true) : answer.isSome = true := by
  obtain ⟨answer', h', ⟨-, hnone⟩ | ⟨info, rfl, -⟩⟩ := findAnswer_exec hv auth target session question
  · have hmem : m ∈ pg.db.candidates auth target session question :=
      List.mem_filter.2 ⟨hm, decide_eq_true (answers_iff.1 hanswers)⟩
    rw [hnone] at hmem
    cases hmem
  · obtain rfl := Except.ok.inj (congrArg Prod.fst (h.symm.trans h'))
    rfl

theorem advance_pg (auth : AuthCtx) (pid : Nat) (input : AskInput) (s : Net Asking) (c : Choice) :
    (advance auth pid input s c).pg = s.pg ∨
      (advance auth pid input s c).pg = ((questionOf auth pid input s.me.target s.me.session).exec s.pg).2 := by
  unfold advance
  cases hpc : s.me.pc with
  | resolveAddress =>
    left
    simp only
    split
    · exact Net.query_readOnly agentIdByName_readOnly fun _ _ => rfl
    · rfl
  | refuseSelf => exact .inl (Net.query_readOnly refuseSelf_readOnly fun _ _ => rfl)
  | ask => exact .inr (Net.query_pg fun _ _ => rfl)
  | look =>
    refine .inl (Net.query_readOnly findAnswer_readOnly fun answer t => ?_)
    split <;> rfl
  | select =>
    left
    cases c with
    | timer =>
      simp only
      split <;> rfl
    | recv =>
      simp only
      split
      · next hs =>
        obtain ⟨r, r', -, -, rfl⟩ := Net.recv_eq hs
        rfl
      · rfl
  | lastLook => exact .inl (Net.query_readOnly findAnswer_readOnly fun _ _ => rfl)
  | _ => exact .inl rfl

/-- Posting the question only adds to the messages. -/
theorem question_keeps {pg : Pg} (hv : pg.Valid) (auth : AuthCtx) (pid : Nat) (input : AskInput) (target : Uuid)
    (session : Option String) :
    ((questionOf auth pid input target session).exec pg).2.Valid ∧
      ∀ m ∈ pg.db.messages, m ∈ ((questionOf auth pid input target session).exec pg).2.db.messages := by
  obtain ⟨hw, -⟩ := (questionOf_writes (P := fun _ => True) (List.Subset.refl _) :
    Bus.Writes (Own auth.agentId auth.teamId _) _ (questionOf auth pid input target session) _) pg hv trivial
  refine ⟨hw.valid hv, hw.lift (R := fun a b => ∀ m ∈ a.messages, m ∈ b.messages) hv (fun _ _ h => h)
    (fun h h' m hm => h' m (h m hm)) fun _ db w _ _ _ hown m hm => Pg.messages_keep (fun p hp => ?_) hm⟩
  have := hown.author
  rwa [hp] at this

/-- What no step takes away. -/
theorem next_keeps (hv : s.pg.Valid) (e : Net.Step) : (next auth pid input s e).pg.Valid ∧
    (stays e = true → ∀ m ∈ s.pg.db.messages, m ∈ (next auth pid input s e).pg.db.messages) := by
  have same : ∀ {pg : Pg}, pg = s.pg → pg.Valid ∧ (stays e = true → ∀ m ∈ s.pg.db.messages, m ∈ pg.db.messages) :=
    fun h => by
      rw [h]
      exact ⟨hv, fun _ _ h => h⟩
  cases e with
  | server e => exact ⟨hv.next e, fun he m hm => Pg.next_keeps hv (by simpa [stays] using he) hm⟩
  | publish => exact same s.publish_same.1
  | lose =>
    refine same ?_
    change (if s.upcoming.isSome then { s with heard := s.heard + 1 } else s).pg = s.pg
    split <;> rfl
  | close => exact same rfl
  | elapse d => exact same rfl
  | call c =>
    obtain h | h := advance_pg auth pid input s c
    · exact same h
    · simp only [next, Net.next]
      rw [h]
      exact ⟨(question_keeps hv ..).1, fun _ => (question_keeps hv ..).2⟩

/-- The call returns by a look, and answers what it finds. -/
theorem done_of_advance (hv : s.pg.Valid) {c : Choice} {r : AskResult}
    (h : (advance auth pid input s c).me.pc = .done (.ok r)) :
    s.me.pc = .done (.ok r) ∨ s.me.looks = true ∧ ∃ answer,
      (findAnswer auth s.me.target s.me.session s.me.question).exec s.pg = (.ok answer, s.pg) ∧
        r = result input s.me.question answer := by
  have query : ∀ {α : Type} {x : Bus α} {fail : BusError → Asking} {k : α → Net Asking → Net Asking},
      (∀ e, (fail e).pc ≠ .done (.ok r)) → (∀ a t, (k a t).me.pc ≠ .done (.ok r)) →
      (s.query x fail k).me.pc ≠ .done (.ok r) := by
    intro α x fail k hfail hk
    unfold Net.query
    split
    · exact hk _ _
    · exact hfail _
  have failed : ∀ e, (s.me.goto (.done (.error e))).pc ≠ .done (.ok r) := fun e h => by cases h
  unfold advance at h
  cases hpc : s.me.pc with
  | resolveAddress =>
    simp only [hpc] at h
    split at h
    · exact absurd h (query failed fun _ _ h => by cases h)
    · cases h
  | refuseSelf =>
    simp only [hpc] at h
    exact absurd h (query failed fun _ _ h => by cases h)
  | subscribe =>
    simp only [hpc] at h
    cases h
  | ask =>
    simp only [hpc] at h
    exact absurd h (query failed fun _ _ h => by cases h)
  | look =>
    obtain ⟨answer, hanswer, -⟩ := findAnswer_exec hv auth s.me.target s.me.session s.me.question
    simp only [hpc, Net.query_ok hanswer] at h
    split at h
    · cases h
      exact .inr ⟨by simp [looks, hpc], answer, hanswer, rfl⟩
    · cases h
  | select =>
    cases c with
    | timer =>
      simp only [hpc] at h
      split at h
      · exact .inl (hpc ▸ h)
      · cases h
    | recv =>
      simp only [hpc] at h
      split at h
      · next x s' hs =>
        obtain ⟨rx, rx', -, -, rfl⟩ := Net.recv_eq hs
        cases x with
        | error x => cases x <;> cases h
        | ok e =>
          simp only [receive] at h
          split at h
          · cases h
          · exact .inl (hpc ▸ h)
      · exact .inl (hpc ▸ h)
  | lastLook =>
    obtain ⟨answer, hanswer, -⟩ := findAnswer_exec hv auth s.me.target s.me.session s.me.question
    simp only [hpc, Net.query_ok hanswer] at h
    cases h
    exact .inr ⟨by simp [looks, hpc], answer, hanswer, rfl⟩
  | done r' =>
    simp only [hpc] at h
    exact .inl h

/-- The steps of the others leave the call where it is. -/
theorem me_of_env {e : Net.Step} (he : ∀ c, e ≠ .call c) : (next auth pid input s e).me = s.me := by
  cases e with
  | publish => exact s.publish_same.2
  | lose =>
    change (if s.upcoming.isSome then { s with heard := s.heard + 1 } else s).me = s.me
    split <;> rfl
  | call c => exact absurd rfl (he c)
  | _ => rfl

/-- A call that has returned made its last look in one step of the run, and answers what it found. -/
theorem last_look {s : Net Asking} (hv : s.pg.Valid) (es : List Net.Step) {r : AskResult}
    (hstart : s.me.pc ≠ .done (.ok r)) (h : (Runs.after (next auth pid input) s es).me.pc = .done (.ok r)) :
    ∃ es₁ c es₂, es = es₁ ++ .call c :: es₂ ∧
      let t := Runs.after (next auth pid input) s es₁
      t.pg.Valid ∧ t.me.looks = true ∧ (advance auth pid input t c).me.pc = .done (.ok r) ∧ ∃ answer,
        (findAnswer auth t.me.target t.me.session t.me.question).exec t.pg = (.ok answer, t.pg) ∧
          r = result input t.me.question answer := by
  induction es generalizing s with
  | nil => exact absurd h hstart
  | cons e es ih =>
    by_cases hdone : (next auth pid input s e).me.pc = .done (.ok r)
    · -- This is the step.
      cases e with
      | call c =>
        simp only [next, Net.next] at hdone
        obtain hr | ⟨hlooks, hfound⟩ := done_of_advance hv hdone
        · exact absurd hr hstart
        · exact ⟨[], c, es, List.nil_append _, hv, hlooks, hdone, hfound⟩
      | _ =>
        rw [me_of_env (by simp)] at hdone
        exact absurd hdone hstart
    · obtain ⟨es₁, c, es₂, rfl, hlook⟩ := ih (next_keeps hv e).1 hdone h
      exact ⟨e :: es₁, c, es₂, rfl, hlook⟩

theorem after_keeps (hv : s.pg.Valid) {es : List Net.Step}
    (hstay : Runs.Along (next auth pid input) (fun _ e => stays e = true) s es) (hm : m ∈ s.pg.db.messages) :
    m ∈ (Runs.after (next auth pid input) s es).pg.db.messages := by
  have := hstay.invariant (I := fun s => s.pg.Valid ∧ m ∈ s.pg.db.messages) ⟨hv, hm⟩ fun s e he h =>
    ⟨(next_keeps h.1 e).1, (next_keeps h.1 e).2 he m h.2⟩
  exact this.2

/-! ### The call returns -/

/-- The question is out, or taken up again. -/
def asked (a : Asking) : Bool :=
  match a.pc with
  | .look | .select | .lastLook => true
  | _ => false

/-- Whoever has asked has a deadline. -/
def Timed (s : Net Asking) : Prop := s.me.asked = true → s.deadline.isSome = true

theorem timed_advance (h : Timed s) (c : Choice) : Timed (advance auth pid input s c) := by
  have failed : ∀ {pg : Pg} {r}, Timed { s with pg, me := s.me.goto (.done r) } := fun h => by cases h
  have query : ∀ {α : Type} {x : Bus α} {k : α → Net Asking → Net Asking}, (∀ a pg, Timed (k a { s with pg })) →
      Timed (s.query x (fun e => s.me.goto (.done (.error e))) k) := fun hk =>
    Net.query_cases (fun a pg _ => hk a pg) fun e pg => failed
  unfold advance
  cases hpc : s.me.pc with
  | resolveAddress =>
    simp only
    split
    · exact query fun target pg h => by cases h
    · exact failed
  | refuseSelf => exact query fun _ pg h => by cases h
  | subscribe => exact fun h => by cases h
  | ask => exact query fun question pg _ => rfl
  | look =>
    refine query fun answer pg => ?_
    split
    · exact fun h => by cases h
    · exact fun _ => h (by simp [asked, hpc])
  | select =>
    have hdeadline : s.deadline.isSome = true := h (by simp [asked, hpc])
    cases c with
    | timer =>
      simp only
      split <;> exact fun _ => hdeadline
    | recv =>
      simp only
      split
      · next x s' hs =>
        obtain ⟨r, r', -, -, rfl⟩ := Net.recv_eq hs
        exact fun _ => hdeadline
      · exact h
  | lastLook => exact query fun answer pg h => by cases h
  | done r => exact h

theorem timed_next (h : Timed s) (e : Net.Step) : Timed (next auth pid input s e) := by
  cases e with
  | call c =>
    simp only [next, Net.next]
    exact timed_advance h c
  | publish =>
    change Timed s.publish
    unfold Net.publish
    split
    · split <;> exact h
    · exact h
  | lose =>
    change Timed (if s.upcoming.isSome then { s with heard := s.heard + 1 } else s)
    split <;> exact h
  | _ => exact h

/-- A step of the call alone. -/
def alone : Net.Step → Bool
  | .call _ | .elapse _ => true
  | _ => false

/-- Left to itself, the call returns, and what it returns has `P`. -/
def Returns (auth : AuthCtx) (pid : Nat) (input : AskInput) (P : Except BusError AskResult → Prop) (s : Net Asking) : Prop :=
  ∃ es, (∀ e ∈ es, alone e = true) ∧ ∃ r, (Runs.after (next auth pid input) s es).me.pc = .done r ∧ P r

/-- The call answers, with `answered` if the database holds a message that it accepts. -/
def Replies (auth : AuthCtx) (s : Net Asking) (r : Except BusError AskResult) : Prop :=
  ∃ w, r = .ok w ∧
    ∀ m ∈ s.pg.db.messages, answers auth s.me.target s.me.session s.me.question m = true → w.answered = true

namespace Returns
variable {P : Except BusError AskResult → Prop}

theorem step (e : Net.Step) (he : alone e = true) (h : Returns auth pid input P (next auth pid input s e)) :
    Returns auth pid input P s := by
  obtain ⟨es, hes, hr⟩ := h
  exact ⟨e :: es, List.forall_mem_cons.2 ⟨he, hes⟩, hr⟩

theorem call (c : Choice) (h : Returns auth pid input P (advance auth pid input s c)) : Returns auth pid input P s :=
  step (.call c) rfl h

theorem done {r : Except BusError AskResult} (hpc : s.me.pc = .done r) (hP : P r) : Returns auth pid input P s :=
  ⟨[], List.forall_mem_nil _, r, hpc, hP⟩

theorem imp {Q : Except BusError AskResult → Prop} (h : Returns auth pid input P s) (hPQ : ∀ r, P r → Q r) :
    Returns auth pid input Q s := by
  obtain ⟨es, hes, r, hr, hP⟩ := h
  exact ⟨es, hes, r, hr, hPQ r hP⟩

omit [Platform] in
/-- A look finds an answer, or there is none. -/
theorem replies_of_look (hv : s.pg.Valid) {answer : Option MessageInfo}
    (h : (findAnswer auth s.me.target s.me.session s.me.question).exec s.pg = (.ok answer, s.pg)) :
    Replies auth s (.ok (result input s.me.question answer)) :=
  ⟨_, rfl, fun _ hm hanswers => found_of_answers hv h hm hanswers⟩

theorem lastLook (hv : s.pg.Valid) (hpc : s.me.pc = .lastLook) : Returns auth pid input (Replies auth s) s := by
  obtain ⟨answer, hanswer, -⟩ := findAnswer_exec hv auth s.me.target s.me.session s.me.question
  refine call .recv (done (r := .ok (result input s.me.question answer)) ?_ (replies_of_look hv hanswer))
  simp [advance, hpc, Net.query_ok hanswer, goto]

/-- A look that finds nothing leads back to the wait. -/
theorem look (hv : s.pg.Valid) (hpc : s.me.pc = .look)
    (h : Returns auth pid input (Replies auth s) { s with me := s.me.goto .select }) :
    Returns auth pid input (Replies auth s) s := by
  obtain ⟨answer, hanswer, -⟩ := findAnswer_exec hv auth s.me.target s.me.session s.me.question
  refine call .recv ?_
  simp only [advance, hpc, Net.query_ok hanswer]
  split
  · exact done rfl (replies_of_look hv hanswer)
  · exact h

/-- How often the subscription answers at once. -/
def backlog (s : Net Asking) : Nat := (s.rx.map (·.backlog)).getD 0

/-- At the `select!`: what is queued is received, then the deadline comes. -/
theorem select {n : Nat} (hn : backlog s ≤ n) (hv : s.pg.Valid) (hd : s.deadline.isSome = true)
    (hpc : s.me.pc = .select) : Returns auth pid input (Replies auth s) s := by
  induction n using Nat.strong_induction_on generalizing s with
  | _ n ih =>
  cases hrecv : s.recv with
  | none =>
    obtain ⟨deadline, hd⟩ := Option.isSome_iff_exists.1 hd
    have hlate : ({ s with clock := s.clock + (deadline - s.clock) } : Net Asking).beforeDeadline = false := by
      simp only [Net.beforeDeadline, hd, Option.all_some, decide_eq_false_iff_not]
      omega
    refine step (.elapse (deadline - s.clock)) rfl (call .timer ?_)
    have heq : advance auth pid input (next auth pid input s (.elapse (deadline - s.clock))) .timer =
        { s with clock := s.clock + (deadline - s.clock), me := s.me.goto .lastLook } := by
      simp [advance, Net.next, hpc, hlate]
    rw [heq]
    exact lastLook (s := { s with clock := s.clock + (deadline - s.clock), me := s.me.goto .lastLook }) hv rfl
  | some p =>
    obtain ⟨x, s'⟩ := p
    refine call .recv ?_
    have heq : advance auth pid input s .recv = { s' with me := receive auth s'.me x } := by
      simp [advance, hpc, hrecv]
    rw [heq]
    obtain ⟨r, r', hrx, hr, rfl⟩ := Net.recv_eq hrecv
    by_cases hclosed : x = .error .closed
    · subst hclosed
      exact lastLook (s := { s with rx := some r', me := s.me.goto .lastLook }) hv rfl
    · -- Back at the wait there is less in the queue.
      have hlt : r'.backlog < n := by
        refine (Broadcast.Receiver.backlog_recv hr hclosed).trans_le ?_
        simpa [backlog, hrx] using hn
      have again : ∀ me : Asking, me.pc = .select → me.target = s.me.target → me.session = s.me.session →
          me.question = s.me.question → Returns auth pid input (Replies auth s) { s with rx := some r', me } := by
        intro me hme htarget hsession hquestion
        refine (ih _ hlt (s := { s with rx := some r', me }) le_rfl hv hd hme).imp fun r h => ?_
        obtain ⟨w, rfl, hw⟩ := h
        refine ⟨w, rfl, fun m hm hanswers => hw m hm ?_⟩
        rwa [htarget, hsession, hquestion]
      have looking : Returns auth pid input (Replies auth s) { s with rx := some r', me := s.me.goto .look } :=
        look (s := { s with rx := some r', me := s.me.goto .look }) hv rfl (again _ rfl rfl rfl rfl)
      cases x with
      | ok e =>
        simp only [receive]
        split
        · exact looking
        · exact again _ hpc rfl rfl rfl
      | error x =>
        cases x with
        | lagged => exact looking
        | closed => exact absurd rfl hclosed

/-- Once the question is out. -/
theorem of_asked (hv : s.pg.Valid) (ht : Timed s) (hasked : s.me.asked = true) : Returns auth pid input (Replies auth s) s := by
  have hd := ht hasked
  cases hpc : s.me.pc with
  | look => exact look hv hpc (select (s := { s with me := s.me.goto .select }) le_rfl hv hd rfl)
  | select => exact select le_rfl hv hd hpc
  | lastLook => exact lastLook hv hpc
  | _ =>
    unfold asked at hasked
    rw [hpc] at hasked
    cases hasked

/-- Wherever the call is. -/
theorem of_timed (hv : s.pg.Valid) (ht : Timed s) : Returns auth pid input (fun _ => True) s := by
  have later : ∀ {s : Net Asking}, s.pg.Valid → Timed s → s.me.asked = true → Returns auth pid input (fun _ => True) s :=
    fun hv ht hasked => (of_asked hv ht hasked).imp fun _ _ => trivial
  have ask : ∀ {s : Net Asking}, s.pg.Valid → Timed s → s.me.pc = .ask → Returns auth pid input (fun _ => True) s := by
    intro s hv ht hpc
    have hv' : (next auth pid input s (.call .recv)).pg.Valid := (next_keeps hv _).1
    have ht' : Timed (next auth pid input s (.call .recv)) := timed_next ht _
    refine call .recv ?_
    simp only [next, Net.next, advance, hpc] at hv' ht' ⊢
    revert hv' ht'
    refine Net.query_cases (P := fun t => t.pg.Valid → Timed t → Returns auth pid input (fun _ => True) t) ?_ ?_
    · exact fun question pg _ hv ht => later hv ht rfl
    · exact fun e pg _ _ => done rfl trivial
  have subscribe : ∀ {s : Net Asking}, s.pg.Valid → Timed s → s.me.pc = .subscribe →
      Returns auth pid input (fun _ => True) s := by
    intro s hv ht hpc
    refine call .recv ?_
    simp only [advance, hpc]
    exact ask hv (fun h => by cases h) rfl
  have refuse : ∀ {s : Net Asking}, s.pg.Valid → s.me.pc = .refuseSelf → Returns auth pid input (fun _ => True) s := by
    intro s hv hpc
    refine call .recv ?_
    simp only [advance, hpc]
    refine Net.query_cases (fun _ pg hexec => ?_) fun e pg => done rfl trivial
    obtain rfl : pg = s.pg := (congrArg Prod.snd hexec).symm.trans (refuseSelf_readOnly s.pg)
    exact subscribe hv (fun h => by cases h) rfl
  cases hpc : s.me.pc with
  | resolveAddress =>
    refine call .recv ?_
    simp only [advance, hpc]
    split
    · refine Net.query_cases (fun target pg hexec => ?_) fun e pg => done rfl trivial
      obtain rfl : pg = s.pg := (congrArg Prod.snd hexec).symm.trans (agentIdByName_readOnly s.pg)
      exact refuse hv rfl
    · exact done rfl trivial
  | refuseSelf => exact refuse hv hpc
  | subscribe => exact subscribe hv ht hpc
  | ask => exact ask hv ht hpc
  | done r => exact done hpc trivial
  | _ => exact later hv ht (by simp [asked, hpc])

end Returns

/-! ### No answer is missed -/

/-- No acceptable message of the database is missed: a look ends the call with it, a call that waits ends with it when
    it is left to itself, and any call returns when it is. -/
structure Attentive (auth : AuthCtx) (pid : Nat) (input : AskInput) (s : Net Asking) : Prop where
  found : ∀ m ∈ s.pg.db.messages, answers auth s.me.target s.me.session s.me.question m = true → s.me.looks = true →
    ∀ c, ∃ r, (advance auth pid input s c).me.pc = .done (.ok r) ∧ r.answered = true
  replies : ∀ m ∈ s.pg.db.messages, answers auth s.me.target s.me.session s.me.question m = true → s.me.asked = true →
    Returns auth pid input (fun r => ∃ w, r = .ok w ∧ w.answered = true) s
  returns : Returns auth pid input (fun _ => True) s

theorem attentive (hv : s.pg.Valid) (ht : Timed s) : Attentive auth pid input s where
  found m hm hanswers hlooks c := by
    obtain ⟨answer, hanswer, -⟩ := findAnswer_exec hv auth s.me.target s.me.session s.me.question
    have hsome : answer.isSome = true := found_of_answers hv hanswer hm hanswers
    refine ⟨result input s.me.question answer, ?_, hsome⟩
    cases hpc : s.me.pc with
    | look => simp [advance, hpc, Net.query_ok hanswer, hsome, goto]
    | lastLook => simp [advance, hpc, Net.query_ok hanswer, goto]
    | _ =>
      unfold looks at hlooks
      rw [hpc] at hlooks
      cases hlooks
  replies m hm hanswers hasked := (Returns.of_asked hv ht hasked).imp fun r h => by
    obtain ⟨w, rfl, hw⟩ := h
    exact ⟨w, rfl, hw m hm hanswers⟩
  returns := .of_timed hv ht

/-- `ask_agent` never misses an answer. The event of a message that a look would accept sends the waiting call
    to a look; whatever events were lost, a look that finds such a message in the database ends the call with `answered`,
    and the call returns when it is left to itself, with `answered` if the database holds one; and whenever it has returned,
    it did so by a last look, with `answered` if such a message was committed at any time before, and not pruned since. -/
theorem answer_found [Platform.Lawful] {pg : Pg} (hpg : pg.Reachable) (behind clock : Nat) (auth : AuthCtx) (pid : Nat)
    (input : AskInput) (es : List Net.Step) :
    (∀ (s s' : Net Asking) (m : Message), s.me.pc = .select → s.recv = some (.ok m.event, s') →
        answers auth s.me.target s.me.session s.me.question m = true →
          (advance auth pid input s .recv).me.pc = .look) ∧
      Attentive auth pid input (Runs.after (next auth pid input) (.start pg behind clock begin) es) ∧
      ∀ r, (Runs.after (next auth pid input) (.start pg behind clock begin) es).me.pc = .done (.ok r) →
        ∃ es₁ c es₂, es = es₁ ++ .call c :: es₂ ∧
          let t := Runs.after (next auth pid input) (.start pg behind clock begin) es₁
          t.me.looks = true ∧ (advance auth pid input t c).me.pc = .done (.ok r) ∧
            ∀ es₀ es₀', es₁ = es₀ ++ es₀' →
              let t₀ := Runs.after (next auth pid input) (.start pg behind clock begin) es₀
              Runs.Along (next auth pid input) (fun _ e => stays e = true) t₀ es₀' →
                ∀ m ∈ t₀.pg.db.messages,
                  answers auth t.me.target t.me.session t.me.question m = true → r.answered = true := by
  have hv : (Net.start pg behind clock begin).pg.Valid := hpg.valid
  refine ⟨fun s s' m hpc hrecv hanswers => ?_, ?_, fun r hr => ?_⟩
  · obtain ⟨rx, rx', -, -, rfl⟩ := Net.recv_eq hrecv
    simp [advance, hpc, hrecv, receive, wakes_of_answers hanswers, goto]
  · obtain ⟨hv', ht⟩ := Runs.invariant (I := fun s : Net Asking => s.pg.Valid ∧ Timed s)
      (fun s e h => ⟨(next_keeps h.1 e).1, timed_next h.2 e⟩) ⟨hv, fun h => by cases h⟩ es
    exact attentive hv' ht
  · obtain ⟨es₁, c, es₂, rfl, hv₁, hlooks, hdone, answer, hlook, rfl⟩ := last_look hv es (fun h => by cases h) hr
    refine ⟨es₁, c, es₂, rfl, hlooks, hdone, ?_⟩
    rintro es₀ es₀' rfl t₀ hstay m hm hanswers
    refine found_of_answers hv₁ hlook (m := m) ?_ hanswers
    rw [Runs.after_append]
    have hv' : t₀.pg.Valid := Runs.invariant (I := fun s : Net Asking => s.pg.Valid) (fun s e h => (next_keeps h e).1) hv es₀
    exact after_keeps hv' hstay hm

end CrewSync.Asking

namespace CrewSync
open Sample
attribute [local instance] Platform.ascii

namespace Asking

/-- Ann asks bob. -/
def ready : AskInput := { «to» := "bob", question := some "ready?", timeoutSeconds := none, resumeMessageId := none }

/-- Bob answers after ann's first look; the notifications of the question and of the answer are lost, and the deadline
    comes. -/
def unheard : List Net.Step :=
  [.call .recv, .call .recv, .call .recv, .call .recv, .call .recv,
   .server (.call bob 0 (.postMessage { channel := none, «to» := some "ann", announce := false, body := "yes"
                                        replyTo := some 1, metadata := none, attachments := [] })),
   .lose, .lose, .elapse (durationSecs 45), .call .timer]

/-- The call before its last look. -/
def unheardEnd : Net Asking := Runs.after (next ann 0 ready) (.start ((Pg.init 0).after crew) 0 0 begin) unheard

/-- The last look finds bob's answer. -/
theorem unheard_found : ∃ r, (next ann 0 ready unheardEnd (.call .recv)).me.pc = .done (.ok r) ∧ r.answered = true := by
  have hthere : ∃ m ∈ unheardEnd.pg.db.messages,
      answers ann unheardEnd.me.target unheardEnd.me.session unheardEnd.me.question m = true := by decide
  obtain ⟨m, hm, hanswers⟩ := hthere
  exact (@answer_found Platform.ascii Platform.ascii_lawful ((Pg.init 0).after crew) ((Pg.Reachable.init 0).after _) 0 0 ann
    0 ready unheard).2.1.found m hm hanswers (by decide) .recv

end Asking
end CrewSync
