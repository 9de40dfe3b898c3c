import CrewSync.Footprint.Calls
import CrewSync.Lib.Highest

/-! What `read_messages` and `search_messages` show: the last messages of the scope. The flag `truncated` only
    compares their number with the limit, so it is wrong where exactly the limit is there. -/

namespace CrewSync
variable [Platform]

/-- The answer shows the `n` highest of the rows, and says whether it leaves some out. -/
structure LastOf (db : Db) (rows : List Message) (n : Nat) (shown : List MessageInfo) (truncated : Bool) : Prop where
  ids : Highest n (rows.map (·.id)) (shown.map (·.id))
  infos : ∀ info ∈ shown, ∃ m ∈ rows, db.messageInfo? m = some info
  truncated : truncated = true ↔ n < rows.length

/-- The messages stand in the order of their ids, which are positive. -/
structure Db.InOrder (db : Db) : Prop where
  increasing : db.messages.Pairwise fun a b => a.id < b.id
  positive : ∀ m ∈ db.messages, 0 < m.id

omit [Platform] in
theorem Db.InOrder.apply {base seqs : Seqs} {db : Db} {w : Write} (h : db.InOrder) (hbase : 0 ≤ base.messages)
    (hw : w.Legal base seqs db) : (w.apply db).InOrder := by
  cases w with
  | insertMessage r =>
    refine ⟨List.pairwise_append.2 ⟨h.increasing, List.pairwise_singleton _ _, fun a ha b hb => ?_⟩, fun m hm => ?_⟩
    · rw [List.mem_singleton.1 hb]
      exact hw.2.2.1 a ha
    · rcases List.mem_append.1 hm with hm | hm
      · exact h.positive m hm
      · rw [List.mem_singleton.1 hm]
        exact hbase.trans_lt hw.2.2.2.2
  | deleteMessages p =>
    refine ⟨List.pairwise_map.2 (h.increasing.filter _), fun m hm => ?_⟩
    obtain ⟨m', hm', rfl⟩ := List.mem_map.1 hm
    exact h.positive m' (Rows.mem_delete.1 hm').1
  | _ => exact ⟨h.increasing, h.positive⟩

theorem Pg.Reachable.inOrder {pg : Pg} (h : pg.Reachable) : 0 ≤ pg.seqs.messages ∧ pg.db.InOrder := by
  induction h with
  | init now => exact ⟨le_rfl, .nil, fun m hm => by cases hm⟩
  | next h e ih =>
    refine ⟨ih.1.trans (Pg.next_before h.valid e).messages, ?_⟩
    exact Pg.next_lift (R := fun a b => a.InOrder → b.InOrder) h.valid e (fun _ => id) (fun h h' => h' ∘ h)
      (fun _ db w _ _ hw _ hdb => hdb.apply ih.1 hw) ih.2

/-- The rows that a read of the scope finds above a position. -/
def Db.unread (db : Db) (auth : AuthCtx) (scope : Scope) (allSessions : Bool) (since : Int) : List Message :=
  db.messages.filter fun m => scope.visible auth allSessions m && decide (since < m.id)

/-- Where a read starts. -/
def Db.readFrom (db : Db) (auth : AuthCtx) (scope : Scope) (input : ReadInput) : Int :=
  if input.onlyNew then db.lastRead auth.agentId (scope.cursorKeyFor auth input.allSessions) else 0

/-- What a read answers. -/
def Db.readList (db : Db) (auth : AuthCtx) (scope : Scope) (input : ReadInput) : MessageList :=
  let since := db.readFrom auth scope input
  let limit := clamp input.limit 1 maxLimit
  let rows := db.newest (fun m => scope.visible auth input.allSessions m && decide (since < m.id)) limit
  { messages := rows.reverse, scope := scope.label, cursor := maxId since rows.reverse
    truncated := (rows.length : Int) == limit }

def rowLimit (limit : Int) : Nat := (clamp limit 1 maxLimit).toNat

section
variable {pg : Pg} {auth : AuthCtx}

omit [Platform] in
theorem rowLimit_pos (limit : Int) : 0 < rowLimit limit := by
  have : 1 ≤ clamp limit 1 maxLimit := by
    simp only [clamp, maxLimit]
    omega
  simp only [rowLimit]
  omega

omit [Platform] in
theorem newest_ids (hshown : ∀ m ∈ pg.db.messages, ∃ info, pg.db.messageInfo? m = some info) (p : Message → Bool)
    (limit : Int) :
    (pg.db.newest p limit).map (·.id) =
      (((pg.db.messages.filter p).map (·.id)).insertionSort (· ≥ ·)).take limit.toNat := by
  have hinfo : ∀ rows : List Message, rows ⊆ pg.db.messages →
      (rows.filterMap pg.db.messageInfo?).map (·.id) = rows.map (·.id) := by
    intro rows hrows
    induction rows with
    | nil => rfl
    | cons m rows ih =>
      obtain ⟨hm, hrows⟩ := List.cons_subset.1 hrows
      obtain ⟨info, hinfo⟩ := hshown m hm
      rw [List.filterMap_cons_some hinfo, List.map_cons, List.map_cons, ih hrows, messageInfo?_id hinfo]
  have hsub : Rows.orderBy (fun a b => b.id ≤ a.id) (pg.db.messages.filter p) ⊆ pg.db.messages :=
    fun m hm => (List.mem_filter.1 (Rows.mem_orderBy.1 hm)).1
  rw [Db.newest, List.map_take, hinfo _ hsub, Rows.orderBy, List.map_insertionSort _ (· ≥ ·)]
  exact fun a _ b _ => Iff.rfl

omit [Platform] in
/-- A query whose messages have distinct ids and are all shown finds the last ones. -/
theorem newest_last (hids : Rows.Keyed (·.id) pg.db.messages) (hshown : ∀ m ∈ pg.db.messages, ∃ info, pg.db.messageInfo? m = some info)
    (p : Message → Bool) (limit : Int) :
    Highest limit.toNat ((pg.db.messages.filter p).map (·.id)) ((pg.db.newest p limit).reverse.map (·.id)) := by
  rw [List.map_reverse, newest_ids hshown]
  exact .of_take (hids.sublist (List.filter_sublist.map _))

omit [Platform] in
theorem newest_highest (hv : pg.Valid) (p : Message → Bool) (limit : Int) :
    Highest limit.toNat ((pg.db.messages.filter p).map (·.id)) ((pg.db.newest p limit).reverse.map (·.id)) :=
  newest_last hv.keys.messages (fun _ => exists_messageInfo hv) p limit

omit [Platform] in
theorem newest_lastOf (hv : pg.Valid) (p : Message → Bool) (limit : Int) {truncated : Bool} :
    LastOf pg.db (pg.db.messages.filter p) limit.toNat (pg.db.newest p limit).reverse truncated ↔
      (truncated = true ↔ limit.toNat < (pg.db.messages.filter p).length) := by
  refine ⟨LastOf.truncated, fun h => ⟨newest_highest hv p limit, fun info hinfo => ?_, h⟩⟩
  obtain ⟨m, hm, hp, hinfo⟩ := mem_newest (List.mem_reverse.1 hinfo)
  exact ⟨m, List.mem_filter.2 ⟨hm, hp⟩, hinfo⟩

omit [Platform] in
theorem newest_length (hv : pg.Valid) (p : Message → Bool) (limit : Int) :
    (pg.db.newest p limit).length = min limit.toNat (pg.db.messages.filter p).length := by
  have h := congrArg List.length (newest_ids (fun _ => exists_messageInfo hv) p limit)
  rw [List.length_map, List.length_take, List.length_insertionSort, List.length_map] at h
  exact h

/-- A read of a scope, whole: what it answers, and where it leaves the cursor. -/
theorem call_read (hauth : auth.authentic pg.db = true) (pid : Nat) {input : ReadInput} {scope : Scope}
    (hscope : ((resolveScope auth input.scope).exec pg).1 = .ok scope) :
    pg.call auth pid (.readMessages input) = (.ok (.messages (pg.db.readList auth scope input)),
      if input.onlyNew = true ∧ pg.db.readFrom auth scope input < (pg.db.readList auth scope input).cursor then
        (upsertCursor auth.agentId (scope.cursorKeyFor auth input.allSessions)
          (pg.db.readList auth scope input).cursor).effect pg
      else pg) := by
  have hagent : pg.db.agentExists auth.agentId := Db.agentExists_iff.2 ⟨_, AuthCtx.authentic.caller hauth⟩
  have hresolve : (resolveScope auth input.scope).exec pg = (.ok scope, pg) :=
    Prod.ext hscope (resolveScope_readOnly pg)
  have hsince : (readSince auth (scope.cursorKeyFor auth input.allSessions) input.onlyNew).exec pg =
      (.ok (pg.db.readFrom auth scope input), pg) := by
    simp only [readSince, Db.readFrom]
    split <;> rfl
  have hupsert : ∀ last, (execute (.insert .readCursors) (upsertCursor auth.agentId
      (scope.cursorKeyFor auth input.allSessions) last)).exec pg =
        (.ok (), (upsertCursor auth.agentId (scope.cursorKeyFor auth input.allSessions) last).effect pg) := by
    intro last
    rw [Bus.exec_execute]
    simp only [Sql.answer, upsertCursor, hagent, if_true]
    rfl
  rw [Pg.call, if_pos hauth, Call.run, Bus.exec_map, readMessages, Bus.exec_bind_ok hresolve, Bus.exec_bind_ok hsince,
    Bus.exec_bind_ok (Bus.exec_select _ _)]
  by_cases h : input.onlyNew = true ∧ pg.db.readFrom auth scope input < (pg.db.readList auth scope input).cursor
  · conv_rhs => rw [if_pos h]
    rw [if_pos, Bus.exec_bind_ok (hupsert _)]
    · rfl
    · rw [Bool.and_eq_true, decide_eq_true_eq]
      exact h
  · conv_rhs => rw [if_neg h]
    rw [if_neg]
    · rfl
    · rw [Bool.and_eq_true, decide_eq_true_eq]
      exact h

theorem searchMessages_exec {query : String} (hquery : (trim query).isEmpty = false) (limit : Int) :
    let rows := pg.db.newest (found auth (trim query)) (clamp limit 1 maxLimit)
    ((searchMessages auth query limit).exec pg).1 =
      .ok { messages := rows, scope := s!"search:{trim query}", cursor := maxId 0 rows
            truncated := (rows.length : Int) == clamp limit 1 maxLimit } := by
  simp only [searchMessages, hquery, Bool.false_eq_true, if_false]
  rfl

omit [Platform] in
theorem clamp_eq_rowLimit (limit : Int) : clamp limit 1 maxLimit = rowLimit limit := by
  have hpos : 1 ≤ clamp limit 1 maxLimit := by
    simp only [clamp, maxLimit]
    omega
  simp only [rowLimit]
  omega

omit [Platform] in
/-- The flag is right unless exactly as many rows are there as the answer may show. -/
theorem newest_lastOf_iff (hv : pg.Valid) (p : Message → Bool) (limit : Int) :
    LastOf pg.db (pg.db.messages.filter p) (rowLimit limit) (pg.db.newest p (clamp limit 1 maxLimit)).reverse
        (((pg.db.newest p (clamp limit 1 maxLimit)).length : Int) == clamp limit 1 maxLimit) ↔
      (pg.db.messages.filter p).length ≠ rowLimit limit := by
  rw [rowLimit, newest_lastOf hv, ← rowLimit, newest_length hv, ← rowLimit, clamp_eq_rowLimit, beq_iff_eq]
  omega

/-- A read and a search show the last messages, and report that they leave some out exactly where they do, if and
    only if the number of messages is not the limit. -/
theorem lastOf_iff (hv : pg.Valid) (hauth : auth.authentic pg.db = true) (pid : Nat) :
    (∀ (input : ReadInput) (scope : Scope), ((resolveScope auth input.scope).exec pg).1 = .ok scope →
      let rows := pg.db.unread auth scope input.allSessions (pg.db.readFrom auth scope input)
      ∃ r, (pg.call auth pid (.readMessages input)).1 = .ok (.messages r) ∧
        (LastOf pg.db rows (rowLimit input.limit) r.messages r.truncated ↔ rows.length ≠ rowLimit input.limit)) ∧
      ∀ (query : String) (limit : Int), (trim query).isEmpty = false →
        let rows := pg.db.messages.filter (found auth (trim query))
        ∃ r, (pg.call auth pid (.searchMessages query limit)).1 = .ok (.messages r) ∧
          (LastOf pg.db rows (rowLimit limit) r.messages.reverse r.truncated ↔ rows.length ≠ rowLimit limit) := by
  refine ⟨fun input scope hscope => ?_, fun query limit hquery => ?_⟩
  · exact ⟨_, congrArg Prod.fst (call_read hauth pid hscope), newest_lastOf_iff hv _ input.limit⟩
  · have hcall : (pg.call auth pid (.searchMessages query limit)).1 =
        ((searchMessages auth query limit).exec pg).1.map .messages := by
      rw [Pg.call, if_pos hauth, Call.run, Bus.exec_map]
    rw [searchMessages_exec hquery] at hcall
    exact ⟨_, hcall, newest_lastOf_iff hv _ limit⟩

end
end CrewSync

namespace CrewSync
open Sample
attribute [local instance] Platform.ascii

/-- The crew has a channel with one message of bob's. -/
def onePost : Pg :=
  (Pg.init 0).after (crew ++ [.call ann 0 (.createChannel "ops" none),
    .call bob 0 (.postMessage ⟨some "ops", none, false, "the build is green", none, none, []⟩)])

theorem onePost_valid : onePost.Valid := (Pg.Valid.init 0).after _

theorem five_of_one :
    ∃ r, (onePost.call ann 0 (.readMessages ⟨"all", true, 5, false⟩)).1 = .ok (.messages r) ∧
      LastOf onePost.db (onePost.db.unread ann .all false 0) 5 r.messages r.truncated := by
  obtain ⟨r, hr, hlast⟩ := (@lastOf_iff Platform.ascii onePost ann onePost_valid (by decide) 0).1
    ⟨"all", true, 5, false⟩ .all rfl
  exact ⟨r, hr, hlast.2 (by decide)⟩

/-- A read of one message with room for one says that there are more. -/
theorem one_of_one :
    ∃ r, (onePost.call ann 0 (.readMessages ⟨"all", true, 1, false⟩)).1 = .ok (.messages r) ∧ r.truncated = true ∧
      (onePost.db.unread ann .all false 0).length = 1 ∧
      ¬ LastOf onePost.db (onePost.db.unread ann .all false 0) 1 r.messages r.truncated := by
  have htruncated : (onePost.db.readList ann .all ⟨"all", true, 1, false⟩).truncated = true := by decide
  have hlength : (onePost.db.unread ann .all false 0).length = 1 := by decide
  have hscope : ((resolveScope ann "all").exec onePost).1 = .ok .all := rfl
  have hauth : ann.authentic onePost.db = true := by decide
  have hcall := congrArg Prod.fst (@call_read Platform.ascii onePost ann hauth 0 ⟨"all", true, 1, false⟩ .all hscope)
  refine ⟨_, hcall, htruncated, hlength, fun h => ?_⟩
  have hmore := h.truncated.1 htruncated
  omega

end CrewSync
