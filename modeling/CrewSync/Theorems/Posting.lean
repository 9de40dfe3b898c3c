import CrewSync.Theorems.Addresses
import CrewSync.Theorems.Reading

/-! A post is all or nothing: it fails and leaves the tables as they were, or it brings its message with all the files. And
    every message that a run stores is well formed. -/

namespace CrewSync
section
variable [Platform]

/-! ### Nothing -/

/-- A call that fails leaves the tables as they were. -/
def Bus.Undone {α : Type} (x : Bus α) : Prop := ∀ pg e, (x.exec pg).1 = .error e → (x.exec pg).2.db = pg.db

namespace Bus.Undone
variable {α β : Type} {x : Bus α} {f : α → Bus β}

omit [Platform] in
/-- What comes first only reads. -/
theorem reads (hx : ReadOnly x) (hf : ∀ a, Bus.Undone (f a)) : Bus.Undone (x >>= f) := by
  intro pg e h
  rw [exec_bind] at h ⊢
  have hsame := hx pg
  cases hr : x.exec pg with
  | mk r pg' =>
    rw [hr] at h hsame
    obtain rfl : pg' = pg := hsame
    cases r with
    | ok a => exact hf a pg' e h
    | error e => rfl

omit [Platform] in
theorem ite {p : Prop} [Decidable p] {y : Bus α} (hx : Bus.Undone x) (hy : Bus.Undone y) :
    Bus.Undone (if p then x else y) := by
  split
  · exact hx
  · exact hy

omit [Platform] in
/-- A transaction that fails is rolled back, and what follows it does not fail. -/
theorem transaction {pid : Nat} {body : Conn → Bus (α × Conn)} {g : α → β}
    (h : ∀ c, Bus.Stages (fun _ => True) c (body c) (·.2)) :
    Bus.Undone (CrewSync.transaction pid body >>= fun a => Pure.pure (g a)) := by
  intro pg e he
  obtain ⟨hdb, -⟩ := h ⟨pid, some ⟨pg.now, []⟩⟩ _ rfl pg
  have hbegin : (Conn.begin pid).exec pg = (.ok ⟨pid, some ⟨pg.now, []⟩⟩, pg) := rfl
  unfold CrewSync.transaction at he ⊢
  simp only [exec_bind, hbegin, exec_attempt] at he ⊢
  cases hr : ((body ⟨pid, some ⟨pg.now, []⟩⟩).exec pg).1 with
  | ok r =>
    rw [hr] at he
    cases he
  | error e' => exact hdb

end Bus.Undone

theorem postMessage_undone (auth : AuthCtx) (pid : Nat) (input : PostInput) : Bus.Undone (postMessage auth pid input) := by
  have thrown : ∀ {α β : Type} {e : BusError} {f : α → Bus β}, Bus.Undone ((MonadExcept.throw e : Bus α) >>= f) := by
    intro α β e f pg _ _
    rw [Bus.exec_bind_error (Bus.exec_throw e)]
  unfold postMessage
  refine .ite thrown (.ite thrown (.ite thrown ?_))
  refine .reads resolveTarget_readOnly fun target => .reads checkReply_readOnly fun _ => .reads .check fun _ => ?_
  refine .transaction fun c => postBody_stages ⟨trivial, fun _ _ => trivial, fun _ => trivial⟩ fun _ _ _ _ _ => trivial

theorem Pg.call_undone {pg : Pg} {auth : AuthCtx} {pid : Nat} {c : Call} {α : Type} {x : Bus α} {g : α → Reply} {e : BusError}
    (hrun : c.run auth pid = g <$> x) (hx : Bus.Undone x) (he : (pg.call auth pid c).1 = .error e) :
    (pg.call auth pid c).2.db = pg.db := by
  unfold Pg.call at he ⊢
  split
  · next hauth =>
    rw [if_pos hauth, hrun, Bus.exec_map] at he
    rw [hrun, Bus.exec_map]
    cases hr : (x.exec pg).1 with
    | ok r =>
      rw [hr] at he
      cases he
    | error e' => exact hx pg e' hr
  · rfl

/-! ### Well-formed messages -/

/-- A message as `post_message` checks it and the schema keeps it. -/
structure Message.WellFormed (db : Db) (m : Message) : Prop where
  target : m.channelId.isSome ≠ m.recipientAgentId.isSome
  announced : m.announce = true → m.channelId.isSome = true
  direct : m.recipientSession.isSome = true → m.recipientAgentId.isSome = true
  sender : ∀ s ∈ m.senderSession, s ≠ "" ∧ normalizeSession s = .ok s
  recipient : ∀ s ∈ m.recipientSession, s ≠ "" ∧ normalizeSession s = .ok s
  reply : ∀ r ∈ m.replyTo, r < m.id ∧ ∃ o ∈ db.messages, o.id = r ∧ o.teamId = m.teamId

omit [Platform] in
/-- Replies point backwards. -/
theorem Db.replies_apply {base seqs : Seqs} {db : Db} {w : Write} (hw : w.Legal base seqs db)
    (h : ∀ m ∈ db.messages, ∀ r ∈ m.replyTo, r < m.id) : ∀ m ∈ (w.apply db).messages, ∀ r ∈ m.replyTo, r < m.id := by
  cases w with
  | insertMessage m =>
    obtain ⟨-, hreply, hlast, -⟩ := hw
    intro m' hm' r hr
    rcases List.mem_append.1 hm' with hm' | hm'
    · exact h m' hm' r hr
    · obtain rfl := List.mem_singleton.1 hm'
      obtain ⟨o, ho, hid⟩ := List.any_eq_true.1 (hreply r hr)
      simp only [Bool.and_eq_true, beq_iff_eq] at hid
      exact hid.1 ▸ hlast o ho
  | deleteMessages p =>
    intro m' hm' r hr
    obtain ⟨m, hm, rfl⟩ := List.mem_map.1 hm'
    exact h m (Rows.mem_delete.1 hm).1 r (Option.mem_filter_iff.1 hr).1
  | _ => exact h

theorem Pg.Reachable.replies {pg : Pg} (h : pg.Reachable) : ∀ m ∈ pg.db.messages, ∀ r ∈ m.replyTo, r < m.id := by
  induction h with
  | init now => exact fun m hm => by cases hm
  | next h e ih =>
    exact Pg.next_lift (R := fun a b => (∀ m ∈ a.messages, ∀ r ∈ m.replyTo, r < m.id) →
      ∀ m ∈ b.messages, ∀ r ∈ m.replyTo, r < m.id) h.valid e (fun _ h => h) (fun h h' hr => h' (h hr))
      (fun seqs db w _ _ hw _ => Db.replies_apply hw) ih

/-- Messages to a session are to an agent, and announcements are in a channel. -/
theorem Pg.Reachable.targets {pg : Pg} (h : pg.Reachable) : ∀ m ∈ pg.db.messages,
    (m.recipientSession.isSome = true → m.recipientAgentId.isSome = true) ∧ (m.announce = true → m.channelId.isSome = true) := by
  induction h with
  | init now => exact fun m hm => by cases hm
  | next h e ih =>
    intro m' hm'
    obtain ⟨m, hsame, hm | ⟨_, _, _, -, hposted⟩⟩ := next_brought h.valid e m' hm'
    · rw [hsame]
      exact ih m hm
    · rw [hsame]
      exact ⟨hposted.direct, hposted.announced⟩

variable [Platform.LawfulLower]

theorem IsSession.stable {s : String} (h : IsSession s) : s ≠ "" ∧ normalizeSession s = .ok s := by
  obtain ⟨raw, hraw, hempty⟩ := h
  refine ⟨?_, (normalizeSession_canonical hraw).1⟩
  rintro rfl
  cases hempty

theorem wellFormed_after (now : Time) {es : List Event} (h : ∀ e ∈ es, e.Labelled) :
    ∀ m ∈ ((Pg.init now).after es).db.messages, m.WellFormed ((Pg.init now).after es).db := by
  have hreach := (Pg.Reachable.init now).after es
  intro m hm
  exact {
    target := hreach.valid.refs.targets m hm
    announced := (hreach.targets m hm).2
    direct := (hreach.targets m hm).1
    sender := fun s hs => (Pg.after_senderSessions now h m hm s hs).stable
    recipient := fun s hs => (hreach.recipientSessions m hm s hs).stable
    reply := fun r hr => ⟨hreach.replies m hm r hr, by
      simpa [Db.messageIn] using hreach.valid.refs.replies m hm r hr⟩ }

/-- A post that fails leaves the tables as they were; one that succeeds adds its message, all of its files, which fit under
    the quota together, the rows of the outbox and one notification. And along the calls of sessions every message is well
    formed. -/
theorem post_atomic :
    (∀ (pg : Pg) (auth : AuthCtx) (pid : Nat) (input : PostInput),
      (∀ e, (pg.call auth pid (.postMessage input)).1 = .error e →
        (pg.call auth pid (.postMessage input)).2.db = pg.db) ∧
      ∀ reply, (pg.call auth pid (.postMessage input)).1 = .ok reply → ∃ r target m files rows,
        reply = .posted r ∧ r.message.id = m.id ∧ IsPost auth input target pg.db m files rows ∧
          (pg.call auth pid (.postMessage input)).2.db = pg.db.posted m files rows) ∧
      ∀ now es, (∀ e ∈ es, Event.Labelled e) →
        ∀ m ∈ ((Pg.init now).after es).db.messages, m.WellFormed ((Pg.init now).after es).db := by
  refine ⟨fun pg auth pid input => ⟨fun e he => ?_, fun reply hreply => ?_⟩, fun now es h => wellFormed_after now h⟩
  · exact Pg.call_undone (g := .posted) rfl (postMessage_undone auth pid input) he
  · obtain ⟨r, rfl, target, m, files, rows, -, -, hid, hpost, hdb⟩ := (Pg.call_meets (c := .postMessage input) (g := .posted) pid
      (Pg.authentic_of_call hreply) rfl (postMessage_posts (E := fun _ => True) trivial (fun _ => trivial)
        (fun _ => trivial) (resolveTarget_meets _ _) pid) rfl).1 _ hreply
    exact ⟨r, target, m, files, rows, rfl, hid, hpost, hdb⟩

end

section
open Sample
attribute [local instance] Platform.ascii

/-- The one message is well formed, and a post without a text leaves it alone. -/
theorem onePost_wellFormed : (∀ m ∈ onePost.db.messages, m.WellFormed onePost.db) ∧
    (onePost.call ann 0 (.postMessage ⟨some "ops", none, false, " ", none, none, []⟩)).2.db = onePost.db := by
  have h := @post_atomic Platform.ascii Platform.ascii_lawfulLower
  refine ⟨h.2 0 _ fun e he => ?_, (h.1 onePost ann 0 _).1 (.invalid "message body cannot be empty") ?_⟩
  · simp only [crew, List.cons_append, List.nil_append, List.mem_cons, List.not_mem_nil, or_false] at he
    rcases he with rfl | rfl | rfl | rfl | rfl
    · trivial
    · trivial
    · trivial
    · exact ⟨none, rfl⟩
    · exact ⟨some (headerOf "api"), by decide⟩
  · rw [Pg.call, if_pos (by decide)]
    rfl

end
end CrewSync
