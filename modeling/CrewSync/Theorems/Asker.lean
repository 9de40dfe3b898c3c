import CrewSync.Theorems.Asking

/-! Whether `ask_agent` takes a message of the asking session itself for the answer. It does so only where the
    question went to the asker's own agent, all sessions of it: then a later message of the session to its own agent
    is a candidate like any other. -/

namespace CrewSync

/-- The session of the caller sent the message. -/
def Message.sentBy (auth : AuthCtx) (m : Message) : Bool :=
  m.senderAgentId == auth.agentId && m.senderSession.getD "" == auth.session

namespace Asking

/-- The call is not about to read a message of its own session: it asks somebody else or one other session, or each
    candidate of its own session comes after one that is not. -/
def OthersFirst (auth : AuthCtx) (s : Net Asking) : Prop :=
  let rows := s.pg.db.candidates auth s.me.target s.me.session s.me.question
  (s.me.target ≠ auth.agentId ∨ s.me.session ≠ none) ∨
    ∀ m ∈ rows, m.sentBy auth = true → ∃ a ∈ rows, a.sentBy auth = false ∧ answerOrder s.me.question a m

/-- The address has passed the refusal. -/
def past (a : Asking) : Bool :=
  match a.pc with
  | .subscribe | .ask | .look | .select | .lastLook => true
  | _ => false

/-- What has passed the refusal is not the address of the asking session. -/
def Admitted (auth : AuthCtx) (a : Asking) : Prop :=
  a.past = true → ¬ (a.target = auth.agentId ∧ a.session = some auth.session)

section
variable {auth : AuthCtx} {s : Net Asking} {m : Message}

theorem past_of_looks {a : Asking} (h : a.looks = true) : a.past = true := by
  unfold looks at h
  unfold past
  split at h
  · next hpc => rw [hpc]
  · next hpc => rw [hpc]
  · cases h

theorem refuseSelf_ok {pg pg' : Pg} {target : Uuid} {session : Option String}
    (h : (refuseSelf auth target session).exec pg = (.ok (), pg')) :
    ¬ (target = auth.agentId ∧ session = some auth.session) := by
  rintro ⟨rfl, rfl⟩
  have honly : (onlyMe auth (some auth.session)).exec pg = (.ok true, pg) := by
    simp only [onlyMe, beq_self_eq_true]
    rfl
  simp only [refuseSelf, beq_self_eq_true, if_true] at h
  rw [Bus.exec_bind_ok honly] at h
  cases h

variable [Platform] {pid : Nat} {input : AskInput}

theorem admitted_advance (h : Admitted auth s.me) (c : Choice) : Admitted auth (advance auth pid input s c).me := by
  have failed : ∀ (a : Asking) r, Admitted auth (a.goto (.done r)) := fun a r hpast => by cases hpast
  -- A step past the refusal leaves the address alone.
  have kept : ∀ pc, s.me.past = true → Admitted auth (s.me.goto pc) := fun pc hpast _ => h hpast
  have query : ∀ {α : Type} {x : Bus α} {k : α → Net Asking → Net Asking},
      (∀ a pg, x.exec s.pg = (.ok a, pg) → Admitted auth (k a { s with pg }).me) →
        Admitted auth (s.query x (fun e => s.me.goto (.done (.error e))) k).me := fun {α} {x} {k} hok =>
    Net.query_cases (P := fun t => Admitted auth t.me) hok fun e pg => failed _ _
  unfold advance
  cases hpc : s.me.pc with
  | resolveAddress =>
    simp only
    split
    · exact query fun target pg _ hpast => by cases hpast
    · exact failed _ _
  | refuseSelf => exact query fun _ pg hexec _ => refuseSelf_ok hexec
  | subscribe => exact kept _ (by simp [past, hpc])
  | ask => exact query fun question pg _ _ => h (by simp [past, hpc])
  | look =>
    refine query fun answer pg _ => ?_
    simp only
    split
    · exact failed _ _
    · exact kept _ (by simp [past, hpc])
  | select =>
    have hpast : s.me.past = true := by simp [past, hpc]
    cases c with
    | timer =>
      simp only
      split
      · exact h
      · exact kept _ hpast
    | recv =>
      simp only
      split
      · next x s' hs =>
        obtain ⟨r, r', -, -, rfl⟩ := Net.recv_eq hs
        simp only [receive]
        split
        · split
          · exact kept _ hpast
          · exact h
        · exact kept _ hpast
        · exact kept _ hpast
      · exact h
  | lastLook => exact query fun answer pg _ => failed _ _
  | done r => exact h

theorem admitted_next (h : Admitted auth s.me) (e : Net.Step) : Admitted auth (next auth pid input s e).me := by
  cases e with
  | call c =>
    simp only [next, Net.next]
    exact admitted_advance h c
  | _ =>
    rw [me_of_env (by simp)]
    exact h

omit [Platform] in
/-- A look of an admitted call finds a message of the asking session only where no other one comes first. -/
theorem sentBy_iff (hv : s.pg.Valid) (hpast : s.me.past = true) (hallowed : Admitted auth s.me)
    (hm : m ∈ s.pg.db.candidates auth s.me.target s.me.session s.me.question)
    (hfirst : ∀ a ∈ s.pg.db.candidates auth s.me.target s.me.session s.me.question,
      answerOrder s.me.question m a) : m.sentBy auth = false ↔ OthersFirst auth s := by
  have hkeys : Rows.Keyed (·.id) (s.pg.db.candidates auth s.me.target s.me.session s.me.question) :=
    hv.keys.messages.filter _
  have hcand : Candidate auth s.me.target s.me.session s.me.question m := by
    simpa using (List.mem_filter.1 hm).2
  refine ⟨fun h => .inr fun a ha _ => ⟨m, hm, h, hfirst a ha⟩, fun h => ?_⟩
  by_contra hown
  simp only [Bool.not_eq_false, Message.sentBy, Bool.and_eq_true, beq_iff_eq] at hown
  obtain ⟨hagent, hsession⟩ := hown
  rcases h with (htarget | hnamed) | hothers
  · exact htarget (hcand.sender.symm.trans hagent)
  · -- The question named a session: the message is of that one, and the call was refused if it is this one.
    obtain ⟨name, hname⟩ := Option.ne_none_iff_exists'.1 hnamed
    refine hallowed hpast ⟨hcand.sender.symm.trans hagent, ?_⟩
    rw [hname, ← hcand.senderSession name hname, hsession]
  · obtain ⟨a, ha, hother, horder⟩ := hothers m hm (by simp [Message.sentBy, hagent, hsession])
    have hid : a.id = m.id := by
      have hback := hfirst a ha
      simp only [answerOrder] at horder hback
      omega
    obtain rfl := hkeys.eq ha hm hid
    simp [Message.sentBy, hagent, hsession] at hother

/-- A call that answers made a last look, and its answer is not of the asking session if and only if this look met
    the condition: the question was for somebody else or for one other session, or the messages of the asking session
    come after one that is not. -/
theorem other_iff {pg : Pg} (hpg : pg.Reachable) (behind clock : Nat) (auth : AuthCtx) (pid : Nat) (input : AskInput)
    (es : List Net.Step) {r : AskResult} {info : MessageInfo}
    (hr : (Runs.after (next auth pid input) (.start pg behind clock begin) es).me.pc = .done (.ok r))
    (hinfo : r.answer = some info) :
    ∃ es₁ c es₂, es = es₁ ++ .call c :: es₂ ∧
      let t := Runs.after (next auth pid input) (.start pg behind clock begin) es₁
      t.me.looks = true ∧ (advance auth pid input t c).me.pc = .done (.ok r) ∧
        ∃ m ∈ t.pg.db.messages, t.pg.db.messageInfo? m = some info ∧ (m.sentBy auth = false ↔ OthersFirst auth t) := by
  have hv : (Net.start pg behind clock begin).pg.Valid := hpg.valid
  obtain ⟨es₁, c, es₂, hes, hv₁, hlooks, hdone, answer, hlook, rfl⟩ := last_look hv es (fun h => by cases h) hr
  refine ⟨es₁, c, es₂, hes, hlooks, hdone, ?_⟩
  have hallowed : Admitted auth (Runs.after (next auth pid input) (.start pg behind clock begin) es₁).me :=
    Runs.invariant (I := fun s : Net Asking => Admitted auth s.me) (fun _ e h => admitted_next h e) (fun h => by cases h) es₁
  obtain ⟨answer', hlook', ⟨rfl, -⟩ | ⟨info', rfl, m, hm, hinfo', hfirst⟩⟩ := findAnswer_exec hv₁ auth _ _ _
  · obtain rfl := Except.ok.inj (congrArg Prod.fst (hlook.symm.trans hlook'))
    cases hinfo
  · obtain rfl := Except.ok.inj (congrArg Prod.fst (hlook.symm.trans hlook'))
    obtain rfl := Option.some.inj hinfo
    exact ⟨m, (List.mem_filter.1 hm).1, hinfo', sentBy_iff hv₁ (past_of_looks hlooks) hallowed hm hfirst⟩

end

end Asking
end CrewSync

namespace CrewSync
open Sample
attribute [local instance] Platform.ascii

namespace Asking

/-- Another window of ann's. -/
def docs : AuthCtx := { ann with session := "docs" }

/-- The other window is open. -/
def twoWindows : Pg := (Pg.init 0).after (crew ++ [.call docs 0 (.heartbeat ⟨none, none, none, none, none⟩)])

/-- Ann asks her own agent. -/
def anyone : AskInput := { «to» := "ann", question := some "anyone?", timeoutSeconds := none, resumeMessageId := none }

/-- One of the windows writes to ann after the first look, and the event wakes the call. -/
def written (auth : AuthCtx) : List Net.Step :=
  [.call .recv, .call .recv, .call .recv, .call .recv, .call .recv, .server (direct auth "ann" "merged" none),
   .publish, .publish, .call .recv, .call .recv, .call .recv]

/-- The call as the run leaves it. -/
def writtenEnd (auth : AuthCtx) : Net Asking :=
  Runs.after (next ann 0 anyone) (.start twoWindows 0 0 begin) (written auth)

/-- Its result. -/
def writtenResult (auth : AuthCtx) : Option AskResult :=
  match (writtenEnd auth).me.pc with
  | .done (.ok r) => some r
  | _ => none

/-- The answer of the other window. -/
theorem docs_answers : ∃ es₁ c es₂, written docs = es₁ ++ .call c :: es₂ ∧
    let t := Runs.after (next ann 0 anyone) (.start twoWindows 0 0 begin) es₁
    ∃ m ∈ t.pg.db.messages, t.pg.db.messageInfo? m = (writtenResult docs).bind (·.answer) ∧
      (m.sentBy ann = false ↔ OthersFirst ann t) := by
  obtain ⟨es₁, c, es₂, hes, -, -, m, hm, hinfo, hiff⟩ := @other_iff Platform.ascii twoWindows
    ((Pg.Reachable.init 0).after _) 0 0 ann 0 anyone (written docs) ((writtenResult docs).get (by decide))
    (((writtenResult docs).get (by decide)).answer.get (by decide)) rfl rfl
  exact ⟨es₁, c, es₂, hes, m, hm, hinfo, hiff⟩

/-- Ann's own message ends her wait. -/
theorem ann_answers : ∃ r info, (writtenEnd ann).me.pc = .done (.ok r) ∧ r.answer = some info ∧
    ∃ m ∈ (writtenEnd ann).pg.db.messages, (writtenEnd ann).pg.db.messageInfo? m = some info ∧ m.sentBy ann = true := by
  have hsent : ∃ m ∈ (writtenEnd ann).pg.db.messages,
      (writtenEnd ann).pg.db.messageInfo? m = (writtenResult ann).bind (·.answer) ∧ m.sentBy ann = true := by decide
  exact ⟨(writtenResult ann).get (by decide), ((writtenResult ann).get (by decide)).answer.get (by decide), rfl, rfl, hsent⟩

end Asking
end CrewSync
