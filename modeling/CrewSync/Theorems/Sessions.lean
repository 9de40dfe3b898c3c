import CrewSync.Auth
import CrewSync.Footprint.Notices
import CrewSync.Theorems.Meets

/-! Session labels: the header of a request and the address of a message give one form of them, so that every session
    that a message is stored for can connect. -/

namespace CrewSync
section
variable [Platform]

/-! ### Labels -/

/-- What `normalize_session` lets through. -/
structure PlainLabel (label : String) : Prop where
  short : label.utf8ByteSize ≤ maxSessionBytes
  ascii : ∀ c ∈ label.toList, c.toNat < 128
  printable : ∀ c ∈ label.toList, isControl c = false
  plain : ∀ c ∈ label.toList, c ≠ '$' ∧ c ≠ '\x7b' ∧ c ≠ '\x7d'
  slashless : '/' ∉ label.toList

/-- The label is that of the trimmed text in lower case. -/
theorem normalizeSession_ok_iff {raw label : String} :
    normalizeSession raw = .ok label ↔ label = Platform.toLowercase (trim raw) ∧ PlainLabel label := by
  unfold normalizeSession
  generalize Platform.toLowercase (trim raw) = l
  dsimp only
  constructor
  · intro h
    split at h
    · next hempty =>
      obtain rfl := Except.ok.inj h
      rw [String.isEmpty_iff] at hempty
      subst hempty
      exact ⟨rfl, by decide, by simp, by simp, by simp, by simp⟩
    split at h
    · cases h
    next hshort =>
    split at h
    · cases h
    next hascii =>
    split at h
    · cases h
    next hcontrol =>
    split at h
    · cases h
    next hplain =>
    split at h
    · cases h
    next hslash =>
    obtain rfl := Except.ok.inj h
    simp only [Bool.not_eq_true', Bool.not_eq_false, List.all_eq_true, decide_eq_true_eq] at hascii
    simp only [List.any_eq_true, not_exists, not_and, Bool.not_eq_true, Bool.or_eq_false_iff, beq_eq_false_iff_ne]
      at hcontrol hplain hslash
    exact ⟨rfl, by omega, hascii, hcontrol, fun c hc => ⟨(hplain c hc).1.1, (hplain c hc).1.2, (hplain c hc).2⟩,
      fun h => hslash _ h rfl⟩
  · rintro ⟨rfl, h⟩
    have hshort := h.short
    split
    · next hempty =>
      rw [String.isEmpty_iff] at hempty
      rw [hempty]
    rw [if_neg (by omega), if_neg, if_neg, if_neg, if_neg]
    · simp only [List.any_eq_true, not_exists, not_and, Bool.not_eq_true, beq_eq_false_iff_ne]
      rintro c hc rfl
      exact h.slashless hc
    · simp only [List.any_eq_true, not_exists, not_and, Bool.not_eq_true, Bool.or_eq_false_iff, beq_eq_false_iff_ne]
      exact fun c hc => ⟨⟨(h.plain c hc).1, (h.plain c hc).2.1⟩, (h.plain c hc).2.2⟩
    · simp only [List.any_eq_true, not_exists, not_and, Bool.not_eq_true]
      exact h.printable
    · simp only [Bool.not_eq_true', Bool.not_eq_false, List.all_eq_true, decide_eq_true_eq]
      exact h.ascii

section
variable [Platform.LawfulLower] {raw label : String}
open Platform LawfulLower

/-- A label in its one form. -/
structure Canonical (label : String) : Prop extends PlainLabel label where
  lower : ∀ c ∈ label.toList, c.isUpper = false
  trimmed : trim label = label

/-- A label is in its one form, and a label of itself. -/
theorem normalizeSession_canonical (h : normalizeSession raw = .ok label) :
    normalizeSession label = .ok label ∧ Canonical label := by
  obtain ⟨rfl, hplain⟩ := normalizeSession_ok_iff.1 h
  have htrim : trim (toLowercase (trim raw)) = toLowercase (trim raw) := by rw [← lower_trim, trim_trim]
  refine ⟨normalizeSession_ok_iff.2 ⟨?_, hplain⟩, hplain, not_upper _, htrim⟩
  rw [htrim, lower_lower]

/-! ### The header -/

omit [Platform] [Platform.LawfulLower] in
/-- Printable ASCII goes through a header as it is. -/
theorem headerToStr_headerOf (hascii : ∀ c ∈ label.toList, c.toNat < 128) (hprint : ∀ c ∈ label.toList, isControl c = false) :
    headerToStr (headerOf label) = some label := by
  have hbytes : headerOf label = label.toList.map fun c => c.val.toUInt8 := by
    rw [headerOf, List.map_eq_flatMap]
    refine List.flatMap_congr fun c hc => String.utf8EncodeChar_eq_singleton ?_
    rw [Char.utf8Size_eq_one_iff, UInt32.le_iff_toNat_le]
    exact Nat.le_of_lt_succ (hascii c hc)
  have hbyte : ∀ c ∈ label.toList, c.val.toUInt8.toNat = c.toNat := by
    intro c hc
    rw [UInt32.toNat_toUInt8]
    exact Nat.mod_eq_of_lt ((hascii c hc).trans (by decide))
  have htext : (headerOf label).map (fun b => Char.ofNat b.toNat) = label.toList := by
    rw [hbytes, List.map_map]
    refine (List.map_congr_left fun c hc => ?_).trans (List.map_id _)
    rw [Function.comp_apply, hbyte c hc, Char.ofNat_toNat]
    rfl
  rw [headerToStr, htext, String.ofList_toList, if_pos]
  rw [hbytes, List.all_map, List.all_eq_true]
  intro c hc
  have hprint := hprint c hc
  have hascii := hascii c hc
  simp only [isControl, Bool.or_eq_false_iff, Bool.and_eq_false_iff, decide_eq_false_iff_not] at hprint
  simp only [Function.comp_apply, Bool.or_eq_true, Bool.and_eq_true, decide_eq_true_eq, UInt8.le_iff_toNat_le,
    UInt8.lt_iff_toNat_lt, hbyte c hc, UInt8.reduceToNat]
  omega

/-- A client that sends the label is in that session. -/
theorem sessionFromHeaders_label (h : normalizeSession raw = .ok label) :
    sessionFromHeaders (some (headerOf label)) = .ok label := by
  obtain ⟨hself, hcanonical⟩ := normalizeSession_canonical h
  simp only [sessionFromHeaders, headerToStr_headerOf hcanonical.ascii hcanonical.printable]
  exact hself

end

/-! ### Addresses -/

/-- The session of an address is a label. -/
theorem parseAddress_label {address agent label : String} (h : parseAddress address = .ok (agent, some label)) :
    ∃ raw, normalizeSession raw = .ok label ∧ label.isEmpty = false := by
  unfold parseAddress at h
  dsimp only at h
  split at h
  · cases h
  · next agent' session _ =>
    split at h
    · cases h
    · split at h
      · cases h
      · next l hl =>
        split at h
        · cases h
        · next hempty =>
          obtain rfl := Option.some.inj (Prod.mk.inj (Except.ok.inj h)).2
          exact ⟨session, hl, by simpa using hempty⟩

/-! ### The sessions of messages -/

/-- A label of a session that is not the shared one. -/
def IsSession (label : String) : Prop := ∃ raw, normalizeSession raw = .ok label ∧ label.isEmpty = false

/-- A message that the session posts: it says who posts it, and goes to a channel or to an agent, there for all of their
    sessions or for one that can connect. -/
structure Message.PostedBy (auth : AuthCtx) (m : Message) : Prop where
  sender : m.senderSession = sessionLabel auth
  labelled : ∀ s ∈ m.recipientSession, IsSession s
  direct : m.recipientSession.isSome = true → m.recipientAgentId.isSome = true
  announced : m.announce = true → m.channelId.isSome = true

/-- The messages are of this session. -/
def ForSessions (auth : AuthCtx) (ws : List Write) : Prop := ∀ m, .insertMessage m ∈ ws → m.PostedBy auth

section
variable {auth : AuthCtx} {pg : Pg}

theorem forSessions_absorbs (auth : AuthCtx) : Absorbs (ForSessions auth) where
  nil m hm := by cases hm
  append h h' m hm := (List.mem_append.1 hm).elim (h m) (h' m)
  attachment a m hm := by simp at hm

/-- What a target that the address resolves to asks of the message. -/
structure Target.Sound (target : Target) : Prop where
  labelled : ∀ s ∈ target.recipientSession, IsSession s
  direct : target.recipientSession.isSome = true → target.recipient.isSome = true

theorem Goes.sound {db : Db} {target : Target} (h : Goes auth db target) : target.Sound := by
  cases h with
  | channel c => exact ⟨(fun _ hs => by cases hs), (fun hs => by cases hs)⟩
  | direct hparse hfind =>
    refine ⟨fun s hs => ?_, fun _ => rfl⟩
    obtain rfl := Option.mem_def.1 hs
    exact parseAddress_label hparse

/-- An address that is resolved for a channel message names no agent. -/
theorem resolveTarget_channel {channel dest : Option String} {target : Target}
    (h : ((resolveTarget auth channel dest).exec pg).1 = .ok target) (hdest : ¬ (dest.isSome && channel.isNone) = true) :
    target.channel.isSome = true := by
  have channels : ∀ c pg, ((toChannel auth c).exec pg).1 = .ok target → target.channel.isSome = true := by
    rintro c pg h
    obtain rfl := Except.ok.inj h
    rfl
  cases channel with
  | some channel =>
    cases dest with
    | some dest => cases h
    | none =>
      unfold resolveTarget at h
      simp only [Bus.exec_bind] at h
      split at h
      · exact channels _ _ h
      · cases h
  | none =>
    cases dest with
    | some dest => exact absurd rfl hdest
    | none =>
      unfold resolveTarget at h
      simp only [Bus.exec_bind] at h
      split at h
      · next found _ _ =>
        cases found with
        | some c => exact channels _ _ h
        | none =>
          dsimp only at h
          split at h <;> cases h
      · cases h

theorem insertMessage_sessions {target : Target} (htarget : target.Sound) {body : String} {replyTo : Option Int}
    {metadata : Json} {announce : Bool} (hannounce : announce = true → target.channel.isSome = true) {b : Int} {seqs : Seqs}
    {ws : List Write} (hs : insertMessage auth target body replyTo metadata announce pg = .ok (b, seqs, ws)) :
    ForSessions auth ws := by
  obtain ⟨m, fired, -, hm, -, hfired, rfl⟩ := insertMessage_ok hs
  have hout : ∀ w ∈ (enqueueMessageWebhook pg m { pg.seqs with messages := b }).2, w.Outbox := enqueueMessage_outbox
  rw [← hfired] at hout
  intro m' hm'
  simp only [List.cons_append, List.mem_cons, List.mem_append, List.not_mem_nil, or_false] at hm'
  obtain hm' | hm' | hm' := hm'
  · obtain rfl := Write.insertMessage.inj hm'
    exact hm ▸ ⟨rfl, htarget.labelled, htarget.direct, hannounce⟩
  · exact absurd (hout _ hm') (by simp [Write.Outbox])
  · cases hm'

theorem postMessage_sessions (pid : Nat) (input : PostInput) : Bus.Commits (ForSessions auth) (postMessage auth pid input) := by
  refine postMessage_commits (forSessions_absorbs auth) fun target hannounce htarget body metadata pg b seqs ws hs => ?_
  obtain ⟨pg', h⟩ := htarget
  refine insertMessage_sessions ((resolveTarget_meets _ _).answers pg' rfl target h).1.sound (fun hann => ?_) hs
  refine resolveTarget_channel h fun hdest => hannounce ?_
  rw [hann, Bool.true_and]
  exact hdest

theorem askAgent_sessions (pid : Nat) (input : AskInput) (received : List Received) :
    Bus.Commits (ForSessions auth) (askAgent auth pid input received) := by
  refine askAgent_commits (forSessions_absorbs auth) fun target htarget body metadata pg b seqs ws hs => ?_
  obtain ⟨pg', h⟩ := htarget
  exact insertMessage_sessions ((resolveTarget_meets _ _).answers pg' rfl target h).1.sound (fun hann => by cases hann) hs

/-- The messages of `db'` are those of `db`, and some of this session for sessions that can connect. -/
def Db.Brought (auth : AuthCtx) (db db' : Db) : Prop :=
  ∀ m' ∈ db'.messages, ∃ m, m.Same m' ∧
    (m ∈ db.messages ∨ m.PostedBy auth)

theorem call_brought (hv : pg.Valid) (auth : AuthCtx) (pid : Nat) (c : Call) :
    pg.db.Brought auth (pg.call auth pid c).2.db := by
  by_cases hc : Table.messages ∈ c.writes
  · have brought : ∀ {α : Type} {x : Bus α}, Bus.Commits (ForSessions auth) x → pg.db.Brought auth (x.exec pg).2.db := by
      intro α x hx m' hm'
      obtain ⟨ws, hdb, hws⟩ := hx pg
      obtain ⟨-, -, -, hms⟩ := pg.db.write_messages ws
      rw [hdb] at hm'
      obtain ⟨m, hsame, hm⟩ := hms m' hm'
      exact ⟨m, hsame, hm.imp_right (hws m)⟩
    unfold Pg.call
    split
    · cases c with
      | postMessage input => exact brought ((postMessage_sessions pid input).map _)
      | askAgent input received => exact brought ((askAgent_sessions pid input received).map _)
      | _ => simp [Call.writes] at hc
    · exact fun m hm => ⟨m, .rfl, .inl hm⟩
  · intro m' hm'
    obtain ⟨m, hm, hsame⟩ := (Pg.call_wrote hv auth pid c).sameMessages
      (fun now db m h => hc (h.tables (by simp [Write.tables]))) m' hm'
    exact ⟨m, hsame, .inl hm⟩

/-- Only calls bring messages. -/
theorem next_brought (hv : pg.Valid) (e : Event) : ∀ m' ∈ (pg.next e).db.messages, ∃ m, m.Same m' ∧ (m ∈ pg.db.messages ∨
    ∃ auth pid c, e = .call auth pid c ∧ m.PostedBy auth) := by
  have ht : Table.webhookDeliveries ∈ [Table.webhookDeliveries] := List.mem_singleton_self _
  have same : ∀ pg' : Pg, (∀ m' ∈ pg'.db.messages, ∃ m ∈ pg.db.messages, m.Same m') → ∀ m' ∈ pg'.db.messages,
      ∃ m, m.Same m' ∧ (m ∈ pg.db.messages ∨ ∃ auth pid c, e = .call auth pid c ∧ m.PostedBy auth) := by
    intro pg' h m' hm'
    obtain ⟨m, hm, hsame⟩ := h m' hm'
    exact ⟨m, hsame, .inl hm⟩
  have outbox : ∀ now db m, ¬ OnTables [Table.webhookDeliveries] now db (.insertMessage m) :=
    fun _ _ _ h => absurd (h List.mem_cons_self) (by simp)
  cases e with
  | call auth pid c =>
    intro m' hm'
    obtain ⟨m, hsame, hm⟩ := call_brought hv auth pid c m' hm'
    exact ⟨m, hsame, hm.imp_right fun h => ⟨auth, pid, c, rfl, h⟩⟩
  | command pid c =>
    by_cases hc : Table.messages ∈ c.writes
    · cases c with
      | teamPrune team days apply =>
        have prunes : ∀ id, Bus.Writes (fun now db w => ∃ id, Prunes id now db w) (fun _ => True)
            (prune pid id days (!apply)) fun _ _ => True := fun id pg hv hP =>
          ⟨(prune_writes (P := fun _ => True) pg hv hP).1.imp fun _ _ _ h => ⟨id, h⟩, fun _ _ => trivial⟩
        exact same _ (((Bus.Writes.reads teamId_readOnly prunes).map pg hv trivial).1.sameMessages fun _ _ _ ⟨_, h⟩ => h)
      | _ => simp [Command.writes] at hc
    · exact same _ ((Command.run_writes pid c pg hv trivial).1.sameMessages fun now db m h => hc (h (by simp [Write.tables])))
  | claim locked => exact same _ (((Webhooks.claim_writes ht).effect hv).sameMessages outbox)
  | record d r => exact same _ (((Webhooks.record_writes ht).effect hv).sameMessages outbox)
  | prune => exact same _ (((Webhooks.prune_writes ht).effect hv).sameMessages outbox)
  | tick d => exact same { pg with now := pg.now + d } fun m hm => ⟨m, hm, .rfl⟩

/-- Every message is for a session that can connect. -/
theorem Pg.Reachable.recipientSessions (h : pg.Reachable) : ∀ m ∈ pg.db.messages, ∀ s ∈ m.recipientSession, IsSession s := by
  induction h with
  | init now => exact fun m hm => by cases hm
  | next h e ih =>
    intro m' hm' s hs
    obtain ⟨m, hsame, hm | ⟨_, _, _, -, hm⟩⟩ := next_brought h.valid e m' hm'
    · exact ih m hm s (by rwa [hsame] at hs)
    · exact hm.labelled s (by rwa [hsame] at hs)

end

/-- Labels have one form, whichever way they arrive, and every session that a message is stored for can connect. -/
theorem session_canonical [Platform.LawfulLower] :
    (∀ raw label, normalizeSession raw = .ok label → normalizeSession label = .ok label ∧ Canonical label) ∧
      (∀ address agent label, parseAddress address = .ok (agent, some label) →
        sessionFromHeaders (some (headerOf label)) = .ok label) ∧
      ∀ pg : Pg, pg.Reachable → ∀ m ∈ pg.db.messages, ∀ s ∈ m.recipientSession,
        sessionFromHeaders (some (headerOf s)) = .ok s := by
  refine ⟨fun raw label h => normalizeSession_canonical h, fun address agent label h => ?_, fun pg hpg m hm s hs => ?_⟩
  · obtain ⟨raw, hraw, -⟩ := parseAddress_label h
    exact sessionFromHeaders_label hraw
  · obtain ⟨raw, hraw, -⟩ := hpg.recipientSessions m hm s hs
    exact sessionFromHeaders_label hraw

end

section
attribute [local instance] Platform.ascii

/-- The session `Market-Data` of dani. -/
theorem market_data_canonical :
    (normalizeSession "market-data" = .ok "market-data" ∧ Canonical "market-data") ∧
      sessionFromHeaders (some (headerOf "market-data")) = .ok "market-data" :=
  have h := @session_canonical Platform.ascii Platform.ascii_lawfulLower
  ⟨h.1 "  Market-Data " "market-data" (by decide), h.2.1 "dani/ Market-Data " "dani" "market-data" (by decide)⟩

end
end CrewSync
