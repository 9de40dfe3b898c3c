import CrewSync.Footprint.Notices
import CrewSync.Footprint.PostThreads

/-! Reads and posts as threads: what a statement of each does to the messages and to the cursors, whatever goes on
    between the statements. -/

namespace CrewSync
open Threads
variable [Platform]

/-- How far a read or a post has come. -/
inductive TalkPhase where
  /-- A post, with the ids of the messages that it has inserted and not committed. -/
  | posting (drawn : List Int)
  /-- A read of the history. -/
  | browsing
  /-- A read of what is new: where the cursor stood when it came in, and how far the read has moved it since. -/
  | reading (key : String) (floor position : Int)
  /-- A read of what is new in a scope that does not exist. -/
  | lost

def TalkPhase.drawn : TalkPhase → List Int
  | .posting ids => ids
  | _ => []

def Db.messageIds (db : Db) : List Int := db.messages.map (·.id)

/-- A statement of a read or of a post. -/
inductive TalkStep (agent : Uuid) : TalkPhase → Pg → TalkPhase → Pg → Prop
  | still {g : TalkPhase} {pg pg' : Pg} (hmessages : pg'.db.messages = pg.db.messages)
      (hcursors : pg'.db.cursors = pg.db.cursors) (hseqs : pg'.seqs.messages = pg.seqs.messages) :
      TalkStep agent g pg g pg'
  /-- The `INSERT` of a message draws its id. -/
  | draw {ids : List Int} {pg pg' : Pg} (hmessages : pg'.db.messages = pg.db.messages)
      (hcursors : pg'.db.cursors = pg.db.cursors) (hseqs : pg'.seqs.messages = pg.seqs.messages + 1) :
      TalkStep agent (.posting ids) pg (.posting (ids ++ [pg.seqs.messages + 1])) pg'
  | commit {ids : List Int} {pg pg' : Pg} (hmessages : pg'.db.messageIds = pg.db.messageIds ++ ids)
      (hcursors : pg'.db.cursors = pg.db.cursors) (hseqs : pg'.seqs.messages = pg.seqs.messages) :
      TalkStep agent (.posting ids) pg (.posting []) pg'
  | advance {key : String} {floor position last : Int} {pg : Pg} (hagent : pg.db.agentExists agent)
      (hlast : 0 ≤ last) :
      TalkStep agent (.reading key floor position) pg (.reading key floor last)
        ((upsertCursor agent key last).effect pg)

/-- What reads and posts keep, in runs from the tables `base`. -/
structure Pg.Talking (base pg : Pg) : Prop where
  posting : base.db.Posting pg.db
  ids : pg.db.messageIds.Nodup
  below : ∀ id ∈ pg.db.messageIds, id ≤ pg.seqs.messages
  cursors : Rows.Keyed Db.cursorKey pg.db.cursors
  nonneg : ∀ agent key, 0 ≤ pg.db.lastRead agent key

/-- What a call of the agent counts on. -/
def TalkPhase.Knows (agent : Uuid) (pg : Pg) : TalkPhase → Prop
  | .posting ids => ids.Nodup ∧ ∀ id ∈ ids, id ≤ pg.seqs.messages ∧ id ∉ pg.db.messageIds
  | .reading key _ position => position ≤ pg.db.lastRead agent key
  | .browsing | .lost => True

/-- The protocol of a read or a post. -/
def talkProtocol (base : Pg) (pid : Nat) (auth : AuthCtx) : Protocol Stmt Pg TalkPhase where
  sure g pg := base.Talking pg ∧ base.db.agentIn auth.agentId auth.teamId ∧ g.Knows auth.agentId pg
  ready := postReady pid auth.teamId
  step g _ pg g' pg' := pg.db.Posting pg'.db ∧ TalkStep auth.agentId g pg g' pg'

/-- What a read answers: messages in ascending order; if it is one of what is new, above where the cursor stood when it
    came in and at most where it has left the cursor. -/
def TalkPhase.Answered : Reply → TalkPhase → Prop
  | .messages r, g => g ≠ .lost ∧ (r.messages.map (·.id)).Pairwise (· < ·) ∧
      ∀ key floor position, g = .reading key floor position → ∀ m ∈ r.messages, floor < m.id ∧ m.id ≤ position
  | _, _ => True

/-! ### What a statement keeps -/

section
variable {base pg pg' : Pg} {agent : Uuid} {g g' : TalkPhase}

namespace TalkStep

omit [Platform] in
theorem seqs_le (h : TalkStep agent g pg g' pg') : pg.seqs.messages ≤ pg'.seqs.messages := by
  cases h with
  | still _ _ hseqs | commit _ _ hseqs => exact hseqs.ge
  | draw _ _ hseqs => omega
  | advance hagent => simp only [Sql.effect, upsertCursor, hagent, if_true, le_rfl]

omit [Platform] in
/-- An id that is committed now was committed before, or drawn by this call. -/
theorem mem_ids (h : TalkStep agent g pg g' pg') {id : Int} (hid : id ∈ pg'.db.messageIds) :
    id ∈ pg.db.messageIds ∨ id ∈ g.drawn := by
  cases h with
  | still hmessages | draw hmessages =>
    rw [Db.messageIds, hmessages] at hid
    exact .inl hid
  | commit hmessages => exact List.mem_append.1 (hmessages ▸ hid)
  | advance hagent =>
    simp only [Sql.effect, upsertCursor, hagent, if_true] at hid
    exact .inl hid

omit [Platform] in
/-- An id that the call holds now is one that it held before, or new. -/
theorem mem_drawn (h : TalkStep agent g pg g' pg') {id : Int} (hid : id ∈ g'.drawn) :
    id ∈ g.drawn ∨ pg.seqs.messages < id := by
  cases h with
  | still => exact .inl hid
  | draw =>
    rcases List.mem_append.1 hid with hid | hid
    · exact .inl hid
    · right
      rw [List.mem_singleton.1 hid]
      omega
  | commit => cases hid
  | advance => cases hid

omit [Platform] in
/-- A read of what is new stays one. -/
theorem reading (h : TalkStep agent g pg g' pg') {key : String} {floor position : Int}
    (hg : g = .reading key floor position) : ∃ position', g' = .reading key floor position' := by
  cases h with
  | still => exact ⟨position, hg⟩
  | draw | commit => cases hg
  | advance => cases hg; exact ⟨_, rfl⟩

omit [Platform] in
/-- Nothing else becomes one. -/
theorem of_reading (h : TalkStep agent g pg g' pg') {key : String} {floor position : Int}
    (hg : g' = .reading key floor position) : ∃ position', g = .reading key floor position' := by
  cases h with
  | still => exact ⟨position, hg⟩
  | draw | commit => cases hg
  | advance => cases hg; exact ⟨_, rfl⟩

omit [Platform] in
theorem lost (h : TalkStep agent g pg g' pg') (hg : g = .lost) : g' = .lost := by
  cases h with
  | still => exact hg
  | draw | commit | advance => cases hg

omit [Platform] in
/-- No statement moves a cursor back. -/
theorem lastRead_le (h : TalkStep agent g pg g' pg') (hk : Rows.Keyed Db.cursorKey pg.db.cursors) (a : Uuid)
    (key : String) : pg.db.lastRead a key ≤ pg'.db.lastRead a key := by
  cases h with
  | still _ hcursors | draw _ hcursors | commit _ hcursors => rw [Db.lastRead, Db.lastRead, hcursors]
  | advance hagent hlast =>
    rw [lastRead_upsertCursor hk hagent hlast]
    split
    · exact le_max_left _ _
    · exact le_rfl

omit [Platform] in
theorem talking (h : TalkStep agent g pg g' pg') (hs : base.Talking pg) (hg : g.Knows agent pg)
    (hposting : base.db.Posting pg'.db) : base.Talking pg' := by
  have hnonneg : ∀ a key, 0 ≤ pg'.db.lastRead a key := fun a key =>
    (hs.nonneg a key).trans (h.lastRead_le hs.cursors a key)
  cases h with
  | still hmessages hcursors hseqs =>
    exact ⟨hposting, by rw [Db.messageIds, hmessages]; exact hs.ids,
      by rw [Db.messageIds, hmessages, hseqs]; exact hs.below, hcursors ▸ hs.cursors, hnonneg⟩
  | draw hmessages hcursors hseqs =>
    refine ⟨hposting, by rw [Db.messageIds, hmessages]; exact hs.ids, fun id hid => ?_, hcursors ▸ hs.cursors, hnonneg⟩
    rw [Db.messageIds, hmessages] at hid
    have := hs.below id hid
    omega
  | commit hmessages hcursors hseqs =>
    obtain ⟨hnodup, hdrawn⟩ := hg
    refine ⟨hposting, ?_, fun id hid => ?_, hcursors ▸ hs.cursors, hnonneg⟩
    · rw [hmessages]
      exact hs.ids.append hnodup fun id hid hdr => (hdrawn id hdr).2 hid
    · rw [hseqs]
      rcases List.mem_append.1 (hmessages ▸ hid) with hid | hid
      · exact hs.below id hid
      · exact (hdrawn id hid).1
  | advance hagent hlast =>
    refine ⟨hposting, ?_, ?_, ?_, hnonneg⟩
    · simp only [Sql.effect, upsertCursor, hagent, if_true]
      exact hs.ids
    · simp only [Sql.effect, upsertCursor, hagent, if_true]
      exact hs.below
    · simp only [Sql.effect, upsertCursor, hagent, if_true, Db.write_cons, Db.write_nil, Write.apply]
      exact hs.cursors.put _

omit [Platform] in
theorem knows (h : TalkStep agent g pg g' pg') (hs : base.Talking pg) (hg : g.Knows agent pg) : g'.Knows agent pg' := by
  cases h with
  | still hmessages hcursors hseqs =>
    cases g with
    | posting ids => simpa only [TalkPhase.Knows, Db.messageIds, hmessages, hseqs] using hg
    | browsing | lost => trivial
    | reading key floor position => simpa only [TalkPhase.Knows, Db.lastRead, hcursors] using hg
  | draw hmessages hcursors hseqs =>
    obtain ⟨hnodup, hdrawn⟩ := hg
    refine ⟨hnodup.append (List.nodup_singleton _) ?_, fun id hid => ?_⟩
    · intro id hid hnew
      have := (hdrawn id hid).1
      have := List.mem_singleton.1 hnew
      omega
    · rw [Db.messageIds, hmessages, hseqs]
      rcases List.mem_append.1 hid with hid | hid
      · obtain ⟨hle, hnot⟩ := hdrawn id hid
        exact ⟨by omega, hnot⟩
      · rw [List.mem_singleton.1 hid]
        refine ⟨le_rfl, fun hin => ?_⟩
        have := hs.below _ hin
        omega
  | commit => exact ⟨List.nodup_nil, fun _ h => by cases h⟩
  | advance hagent hlast =>
    simp only [TalkPhase.Knows]
    rw [lastRead_upsertCursor hs.cursors hagent hlast, if_pos ⟨rfl, rfl⟩]
    exact le_max_right _ _

end TalkStep

omit [Platform] in
/-- What the calls of others leave of what a call counts on. -/
theorem TalkPhase.Knows.mono {h : TalkPhase} (hh : h.Knows agent pg) (hseqs : pg.seqs.messages ≤ pg'.seqs.messages)
    (hids : ∀ id ∈ h.drawn, id ∈ pg'.db.messageIds → id ∈ pg.db.messageIds)
    (hcursors : ∀ key, pg.db.lastRead agent key ≤ pg'.db.lastRead agent key) : h.Knows agent pg' := by
  cases h with
  | posting ids =>
    exact ⟨hh.1, fun id hid => ⟨(hh.2 id hid).1.trans hseqs, fun hin => (hh.2 id hid).2 (hids id hid hin)⟩⟩
  | browsing | lost => trivial
  | reading key floor position => exact le_trans hh (hcursors key)

end

/-! ### A read -/

section
variable {db : Db}

omit [Platform] in
/-- A batch is ascending: the last rows in descending order, turned around. -/
theorem newest_ascending (hids : db.messageIds.Nodup) (p : Message → Bool) (limit : Int) :
    ((db.newest p limit).reverse.map (·.id)).Pairwise (· < ·) := by
  have hshown : ∀ rows : List Message, ((rows.filterMap db.messageInfo?).map (·.id)).Sublist (rows.map (·.id)) := by
    intro rows
    induction rows with
    | nil => exact .slnil
    | cons m rows ih =>
      cases hinfo : db.messageInfo? m with
      | none => rw [List.filterMap_cons_none hinfo]; exact ih.cons _
      | some info =>
        rw [List.filterMap_cons_some hinfo, List.map_cons, List.map_cons, messageInfo?_id hinfo]
        exact ih.cons_cons _
  have hrows : ((db.messages.filter p).map (·.id)).Nodup := hids.sublist (List.filter_sublist.map _)
  have hsorted : ((Rows.orderBy (fun a b : Message => b.id ≤ a.id) (db.messages.filter p)).map (·.id)).Pairwise (· > ·) := by
    rw [Rows.orderBy, List.map_insertionSort _ (· ≥ ·) _ _ fun a _ b _ => Iff.rfl]
    have hge := List.pairwise_insertionSort (· ≥ ·) ((db.messages.filter p).map (·.id))
    have hne := ((List.perm_insertionSort (· ≥ ·) ((db.messages.filter p).map (·.id))).nodup_iff.2 hrows)
    exact (hge.and hne).imp fun h => lt_of_le_of_ne h.1 (Ne.symm h.2)
  rw [List.map_reverse, List.pairwise_reverse, Db.newest, List.map_take]
  exact hsorted.sublist ((List.take_sublist ..).trans (hshown _))

end

/-- The key of the cursor of a read, if its scope is found. -/
def cursorKeyOf (pg : Pg) (auth : AuthCtx) (input : ReadInput) : Option String :=
  match ((resolveScope auth input.scope).exec pg).1 with
  | .ok scope => some (scope.cursorKeyFor auth input.allSessions)
  | .error _ => none

section
variable {base : Pg} {pid : Nat} {auth : AuthCtx} {g : TalkPhase} {α : Type} {Q : α → TalkPhase → Prop}

omit [Platform] in
/-- A statement that changes neither messages nor cursors. -/
theorem talk_still {pg pg' : Pg} (hposting : pg.db.Posting pg'.db) (hcursors : pg'.db.cursors = pg.db.cursors)
    (hmessages : pg'.db.messages = pg.db.messages) (hseqs : pg'.seqs.messages = pg.seqs.messages) (l : Stmt) :
    (talkProtocol base pid auth).step g l pg g pg' :=
  ⟨hposting, .still hmessages hcursors hseqs⟩

omit [Platform] in
theorem talk_select {t : Table} {q : Pg → α}
    (h : ∀ pg, (talkProtocol base pid auth).sure g pg → Q (q pg) g) :
    Bus.Follows (talkProtocol base pid auth) (fun _ => True) Q (CrewSync.select t q) g :=
  .select rfl fun pg hs => ⟨g, talk_still (.refl _) rfl rfl rfl _, h pg hs⟩

omit [Platform] in
/-- What reads and posts leave alone is found as it was in `base`. -/
theorem steady_talks {x : Bus α} (hx : Bus.Steady base x) :
    Bus.Follows (talkProtocol base pid auth) (fun _ => True) (fun a g' => (x.exec base).1 = .ok a ∧ g' = g) x g := by
  have hsteady := hx.follows (T := talkProtocol base pid auth) (g := g) (fun _ => postReady_of_select)
    (fun _ hs => hs.1.posting) fun _ _ _ _ => talk_still (.refl _) rfl rfl rfl _
  refine ⟨hsteady.imp fun r g' h => ?_⟩
  obtain ⟨hr, rfl⟩ := h
  cases r with
  | ok a => exact ⟨hr.symm, rfl⟩
  | error e => trivial

theorem resolveScope_steady {raw : String} : Bus.Steady base (resolveScope auth raw) := by
  unfold resolveScope
  split
  · exact .pure
  · exact .bind channelIdByName_steady fun _ => .pure

theorem readMessages_browses {input : ReadInput} (hold : input.onlyNew = false) :
    Bus.Follows (talkProtocol base pid auth) (fun _ => True) (fun r g => TalkPhase.Answered (.messages r) g)
      (readMessages auth input) .browsing := by
  unfold readMessages
  refine (steady_talks resolveScope_steady).bind fun scope g h => ?_
  obtain ⟨-, rfl⟩ := h
  have hsince : Bus.Follows (talkProtocol base pid auth) (fun _ => True) (fun _ g => g = .browsing)
      (readSince auth (scope.cursorKeyFor auth input.allSessions) input.onlyNew) .browsing := by
    rw [readSince, if_neg (by simp [hold])]
    exact .pure rfl
  refine hsince.bind fun since g h => ?_
  obtain rfl := h
  refine Bus.Follows.bind (Q := fun rows g => g = .browsing ∧ (rows.reverse.map (·.id)).Pairwise (· < ·))
    (talk_select fun pg hs => ⟨rfl, newest_ascending hs.1.ids _ _⟩) fun rows g h => ?_
  obtain ⟨rfl, hrows⟩ := h
  refine .ite (fun h => ?_) fun _ => .pure ⟨by simp, hrows, fun _ _ _ h => by cases h⟩
  rw [hold] at h
  cases h

theorem readMessages_lost {input : ReadInput} (hkey : cursorKeyOf base auth input = none) :
    Bus.Follows (talkProtocol base pid auth) (fun _ => True) (fun r g => TalkPhase.Answered (.messages r) g)
      (readMessages auth input) .lost := by
  unfold readMessages
  refine (steady_talks resolveScope_steady).bind fun scope g h => ?_
  obtain ⟨hscope, -⟩ := h
  rw [cursorKeyOf, hscope] at hkey
  cases hkey

/-- A read of what is new, of the cursor `key`. -/
theorem readMessages_advances {input : ReadInput} (hnew : input.onlyNew = true) {key : String}
    (hkey : cursorKeyOf base auth input = some key) (floor : Int) :
    Bus.Follows (talkProtocol base pid auth) (fun _ => True) (fun r g => TalkPhase.Answered (.messages r) g)
      (readMessages auth input) (.reading key floor floor) := by
  unfold readMessages
  refine (steady_talks resolveScope_steady).bind fun scope g h => ?_
  obtain ⟨hscope, rfl⟩ := h
  rw [cursorKeyOf, hscope] at hkey
  obtain rfl := Option.some.inj hkey
  have hsince : Bus.Follows (talkProtocol base pid auth) (fun _ => True)
      (fun since g => g = .reading (scope.cursorKeyFor auth input.allSessions) floor floor ∧ floor ≤ since ∧ 0 ≤ since)
      (readSince auth (scope.cursorKeyFor auth input.allSessions) input.onlyNew)
      (.reading (scope.cursorKeyFor auth input.allSessions) floor floor) := by
    rw [readSince, if_pos hnew]
    exact talk_select fun pg hs => ⟨rfl, hs.2.2, hs.1.nonneg _ _⟩
  refine hsince.bind fun since g h => ?_
  obtain ⟨rfl, hfloor, hpos⟩ := h
  refine Bus.Follows.bind
    (Q := fun rows g => g = .reading (scope.cursorKeyFor auth input.allSessions) floor floor ∧
      (rows.reverse.map (·.id)).Pairwise (· < ·) ∧ ∀ m ∈ rows.reverse, since < m.id)
    (talk_select fun pg hs => ⟨rfl, newest_ascending hs.1.ids _ _, fun info hinfo => ?_⟩) fun rows g h => ?_
  · obtain ⟨m, -, hp, hm⟩ := mem_newest (List.mem_reverse.1 hinfo)
    rw [messageInfo?_id hm]
    exact of_decide_eq_true (Bool.and_eq_true_iff.1 hp).2
  obtain ⟨rfl, hrows, habove⟩ := h
  refine .ite (fun hmove => ?_) fun hstay => .pure ⟨by simp, hrows, fun key floor' position hg m hm => ?_⟩
  · -- The cursor moves to the last message of the batch.
    have hlast : since < maxId since rows.reverse := of_decide_eq_true (Bool.and_eq_true_iff.1 hmove).2
    refine Bus.Follows.bind
      (Q := fun _ g => g = .reading (scope.cursorKeyFor auth input.allSessions) floor (maxId since rows.reverse))
      (.execute rfl fun pg hs => ?_) fun _ g h => ?_
    · by_cases hagent : pg.db.agentExists auth.agentId
      · have hadvance : TalkStep auth.agentId (.reading (scope.cursorKeyFor auth input.allSessions) floor floor) pg
            (.reading (scope.cursorKeyFor auth input.allSessions) floor (maxId since rows.reverse)) _ :=
          .advance hagent (hpos.trans hlast.le)
        refine ⟨_, ⟨?_, hadvance⟩, ?_⟩
        · simp only [Sql.effect, upsertCursor, hagent, if_true]
          exact ⟨rfl, rfl, rfl, List.Subset.refl _, fun _ h => .inl h⟩
        · simp only [Sql.answer, upsertCursor, hagent, if_true]
          rfl
      · have hfails : upsertCursor auth.agentId (scope.cursorKeyFor auth input.allSessions) (maxId since rows.reverse) pg =
            .error .db := by
          simp [upsertCursor, hagent]
        simp only [Sql.effect, Sql.answer, hfails]
        exact ⟨_, talk_still (.refl _) rfl rfl rfl _, trivial⟩
    · obtain rfl := h
      refine .pure ⟨by simp, hrows, fun key floor' position hg m hm => ?_⟩
      obtain ⟨-, rfl, rfl⟩ := TalkPhase.reading.inj hg
      exact ⟨hfloor.trans_lt (habove m hm), le_maxId hm⟩
  · -- The batch is empty.
    refine absurd ?_ hstay
    rw [hnew, Bool.true_and]
    exact decide_eq_true ((habove m hm).trans_le (le_maxId hm))

end

/-! ### A post -/

/-- The writes of a post, with the ids of the messages among them. -/
def Stages (auth : AuthCtx) (ids : List Int) (ws : List Write) : Prop :=
  (∀ w ∈ ws, w.Upload auth.agentId auth.teamId) ∧ (posted ws).map (·.id) = ids

/-- A statement inserts messages with the ids `new`: none, or one with the next value of the sequence. -/
def Draws (seqs seqs' : Seqs) (new : List Int) : Prop :=
  (new = [] ∧ seqs'.messages = seqs.messages) ∨ (new = [seqs.messages + 1] ∧ seqs'.messages = seqs.messages + 1)

section
variable {base : Pg} {pid : Nat} {auth : AuthCtx} {ids : List Int} {now : Time} {ws : List Write}

omit [Platform] in
theorem Stages.append {ids' : List Int} {ws' : List Write} (h : Stages auth ids ws) (h' : Stages auth ids' ws') :
    Stages auth (ids ++ ids') (ws ++ ws') := by
  refine ⟨fun w hw => ?_, ?_⟩
  · rcases List.mem_append.1 hw with hw | hw
    · exact h.1 w hw
    · exact h'.1 w hw
  · rw [posted_append, List.map_append, h.2, h'.2]

/-- The open transaction of a post in the phase. -/
def InPost (pid : Nat) (auth : AuthCtx) (now : Time) (c : Conn) (g : TalkPhase) : Prop :=
  ∃ ids ws, g = .posting ids ∧ Stages auth ids ws ∧ c = ⟨pid, some ⟨now, ws⟩⟩

omit [Platform] in
/-- A statement of the transaction. -/
theorem talk_execute {β : Type} {c : Conn} {g : TalkPhase} {l : Stmt} {lock : Conn.LockOf} {s : Sql β}
    (hready : ∀ tx, postReady pid auth.teamId (.tx l) = Conn.ready ⟨pid, some tx⟩ lock) (hc : InPost pid auth now c g)
    (hok : ∀ pg b seqs ws, s pg = .ok (b, seqs, ws) → ∃ new, Stages auth new ws ∧ Draws pg.seqs seqs new) :
    Bus.Follows (talkProtocol base pid auth) (fun _ => True) (fun r g => InPost pid auth now r.2 g)
      (c.execute l lock s) g := by
  obtain ⟨ids, ws, rfl, hws, rfl⟩ := hc
  refine .conn_execute (hready _) fun pg hs => ?_
  cases hsql : s (Conn.view ⟨pid, some ⟨now, ws⟩⟩ pg) with
  | error e =>
    simp only [Conn.effect, Conn.answer, hsql]
    exact ⟨_, talk_still (.refl _) rfl rfl rfl _, trivial⟩
  | ok r =>
    obtain ⟨b, seqs, ws'⟩ := r
    obtain ⟨new, hnew, hdraws⟩ := hok _ b seqs ws' hsql
    simp only [Conn.effect, Conn.answer, hsql]
    refine ⟨.posting (ids ++ new), ⟨.refl _, ?_⟩, _, _, rfl, hws.append hnew, rfl⟩
    rcases hdraws with ⟨rfl, hseqs⟩ | ⟨rfl, hseqs⟩
    · rw [List.append_nil]
      exact .still rfl rfl hseqs
    · exact .draw rfl rfl hseqs

omit [Platform] in
theorem checkAttachmentQuota_talks {c : Conn} {g : TalkPhase} (hc : InPost pid auth now c g) (bytes : Int) :
    Bus.Follows (talkProtocol base pid auth) (fun _ => True) (fun c g => InPost pid auth now c g)
      (checkAttachmentQuota c auth.teamId bytes) g := by
  refine (talk_execute (fun _ => rfl) hc fun pg b seqs ws h => ?_).bind fun r g hc => ?_
  · obtain ⟨rfl, rfl, -⟩ := quotaOf_ok h
    exact ⟨[], ⟨List.forall_mem_nil _, rfl⟩, .inl ⟨rfl, rfl⟩⟩
  · obtain ⟨limit, c⟩ := r
    cases limit with
    | none => exact .pure hc
    | some limit =>
      have hc' := hc
      obtain ⟨ids, ws, rfl, hws, hconn⟩ := hc'
      have hconn : c = ⟨pid, some ⟨now, ws⟩⟩ := hconn
      subst hconn
      refine Bus.Follows.bind (Q := fun _ g => InPost pid auth now ⟨pid, some ⟨now, ws⟩⟩ g) (.conn_select rfl fun pg hs =>
        ⟨_, talk_still (.refl _) rfl rfl rfl _, hc⟩) fun used g hc => ?_
      exact .ite (fun _ => .throw_bind trivial) fun _ => .pure hc

omit [Platform] in
theorem insertAll_talks (atts : List NewAttachment) (id : Int) {c : Conn} {g : TalkPhase} (hc : InPost pid auth now c g) :
    Bus.Follows (talkProtocol base pid auth) (fun _ => True) (fun c g => InPost pid auth now c g)
      (insertAllForMessage c auth.teamId id auth.agentId atts) g := by
  induction atts generalizing c g with
  | nil => exact .pure hc
  | cons att atts ih =>
    refine Bus.Follows.bind (Q := fun r g => InPost pid auth now r.2 g) ?_ fun r g hc => ih hc
    refine (checkAttachmentQuota_talks hc _).bind fun c g hc => ?_
    refine (talk_execute (fun _ => rfl) hc fun pg b seqs ws h => ?_).bind fun r g hc => .pure hc
    obtain ⟨a, -, rfl, -, rfl, rfl⟩ := insertAttachment_ok h
    refine ⟨[], ⟨fun w hw => ?_, rfl⟩, .inl ⟨rfl, rfl⟩⟩
    rw [List.mem_singleton.1 hw]
    rfl

theorem postBody_talks {target : Target} {body : String} {input : PostInput} {metadata : Json} {c : Conn} {g : TalkPhase}
    (hc : InPost pid auth now c g) :
    Bus.Follows (talkProtocol base pid auth) (fun _ => True) (fun r g => InPost pid auth now r.2 g)
      (postBody auth target body input metadata c) g := by
  refine (talk_execute (fun _ => rfl) hc fun pg id seqs ws h => ?_).bind fun r g hc => ?_
  · obtain ⟨hws, -, hposted⟩ := insertMessage_upload h
    obtain ⟨m, fired, hid, -, -, hfired, -⟩ := insertMessage_ok h
    refine ⟨[id], ⟨hws, by rw [hposted]; rfl⟩, .inr ⟨by rw [hid], ?_⟩⟩
    rw [← hid, show seqs = _ from congrArg Prod.fst hfired, enqueueMessage_seqs]
  · refine (insertAll_talks input.attachments r.1 hc).bind fun c g hc => ?_
    have hc' := hc
    obtain ⟨ids, ws, rfl, hws, hconn⟩ := hc'
    subst hconn
    refine Bus.Follows.bind (Q := fun _ g => InPost pid auth now ⟨pid, some ⟨now, ws⟩⟩ g) (.conn_select rfl fun pg hs =>
      ⟨_, talk_still (.refl _) rfl rfl rfl _, hc⟩) fun row g hc => ?_
    cases row with
    | none => exact .throw trivial
    | some info => exact .pure hc

theorem postMessage_talks {input : PostInput} :
    Bus.Follows (talkProtocol base pid auth) (fun _ => True) (fun _ _ => True) (postMessage auth pid input)
      (.posting []) := by
  unfold postMessage
  refine .ite (fun _ => .throw_bind trivial) fun _ => .ite (fun _ => .throw_bind trivial) fun _ =>
    .ite (fun _ => .throw_bind trivial) fun _ => ?_
  refine (steady_talks resolveTarget_steady).bind fun target g h => ?_
  obtain ⟨-, rfl⟩ := h
  have hreply : Bus.Follows (talkProtocol base pid auth) (fun _ => True) (fun _ g => g = .posting [])
      (checkReply auth input.replyTo) (.posting []) := by
    cases input.replyTo with
    | none => exact .pure rfl
    | some r =>
      refine Bus.Follows.bind (talk_select (Q := fun _ g => g = .posting []) fun _ _ => rfl) fun found g h => ?_
      exact .ite (fun _ => .throw trivial) fun _ => .pure h
  refine hreply.bind fun _ g h => ?_
  obtain rfl := h
  refine Bus.Follows.bind (Q := fun _ g => g = .posting []) (.check (fun _ _ => rfl) trivial) fun _ g h => ?_
  obtain rfl := h
  refine Bus.Follows.bind (Q := fun _ _ => True) ?_ fun _ _ _ => .pure trivial
  refine Bus.Follows.transaction (P := fun _ g => g = .posting []) (F := fun _ => True)
    (R := fun r g => ∃ now, InPost pid auth now r.2 g) ?_ (fun pg hs => ?_) (fun now g h => ?_)
    (fun a c g h pg hs => ?_) fun g _ pg hs => ?_
  · rintro l (rfl | rfl | rfl) <;> rfl
  · exact ⟨_, talk_still (.refl _) rfl rfl rfl _, rfl⟩
  · subst h
    exact (postBody_talks ⟨[], [], rfl, ⟨List.forall_mem_nil _, rfl⟩, rfl⟩).imp (fun _ h => h) fun r g h => ⟨now, h⟩
  · obtain ⟨now, ids, ws, rfl, ⟨hws, hids⟩, hc⟩ := h
    have hc : c = ⟨pid, some ⟨now, ws⟩⟩ := hc
    subst hc
    refine ⟨.posting [], ⟨hs.1.posting.write hs.2.1 hws, ?_⟩, trivial⟩
    obtain ⟨ds, ns, e⟩ := Db.write_upload hws pg.db
    refine .commit ?_ ?_ rfl
    · simp only [Conn.unlock, Conn.pending, Db.messageIds, e, List.map_append, hids]
    · simp only [Conn.unlock, Conn.pending, e]
  · have hposting : pg.db.Posting (Conn.unlock ⟨pid, none⟩ pg).db := .refl _
    exact ⟨g, talk_still hposting rfl rfl rfl _, trivial⟩

/-! ### The calls -/

/-- A read or a post. -/
def Call.talks : Call → Bool
  | .readMessages _ | .postMessage _ => true
  | _ => false

/-- Where a call starts that comes in at `pg`. -/
def Call.talkPhase (base pg : Pg) (auth : AuthCtx) : Call → TalkPhase
  | .readMessages input =>
    if input.onlyNew then
      match cursorKeyOf base auth input with
      | some key => .reading key (pg.db.lastRead auth.agentId key) (pg.db.lastRead auth.agentId key)
      | none => .lost
    else .browsing
  | _ => .posting []

theorem Call.run_talks {pg : Pg} {c : Call} (hc : c.talks = true) :
    Bus.Follows (talkProtocol base pid auth) (fun _ => True) TalkPhase.Answered (c.run auth pid)
      (c.talkPhase base pg auth) := by
  cases c with
  | postMessage input => exact postMessage_talks.map fun _ _ _ => trivial
  | readMessages input =>
    refine Bus.Follows.map (Q := fun r g => TalkPhase.Answered (.messages r) g) ?_ fun _ _ h => h
    simp only [Call.talkPhase]
    split
    · next hnew =>
      split
      · next key hkey => exact readMessages_advances hnew hkey _
      · next hkey => exact readMessages_lost hkey
    · next hold => exact readMessages_browses (by simpa using hold)
  | _ => cases hc

end

end CrewSync
