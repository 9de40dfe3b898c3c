import CrewSync.Footprint.Notices
import CrewSync.Theorems.Reading
import Mathlib.Data.List.MinMax

/-! The position that a read reports. After a read of what is new it is where the stored cursor stands, which
    never moves back; a read of the history reports the last message that it shows and moves no cursor. -/

namespace CrewSync
variable [Platform]

/-- No later read of what is new in the view shows a message up to the position. -/
def NeverAgain (pg : Pg) (auth : AuthCtx) (scope : Scope) (allSessions : Bool) (position : Int) : Prop :=
  ∀ (es : List Event) (pid : Nat) (input : ReadInput) (r : MessageList),
    input.onlyNew = true → input.allSessions = allSessions →
    ((resolveScope auth input.scope).exec (pg.after es)).1 = .ok scope →
    ((pg.after es).call auth pid (.readMessages input)).1 = .ok (.messages r) → ∀ m ∈ r.messages, position < m.id

section
variable {pg : Pg} {auth : AuthCtx} {scope : Scope}

theorem Pg.after_lastRead (hv : pg.Valid) (es : List Event) (agent : Uuid) (key : String) :
    pg.db.lastRead agent key ≤ (pg.after es).db.lastRead agent key := by
  have := Runs.invariant (I := fun pg' : Pg => pg'.Valid ∧ pg.db.lastRead agent key ≤ pg'.db.lastRead agent key)
    (fun pg' e h => ⟨h.1.next e, h.2.trans (Pg.next_lastRead h.1 e agent key)⟩) ⟨hv, le_rfl⟩ es
  exact this.2

theorem Pg.Reachable.lastRead_nonneg (h : pg.Reachable) (agent : Uuid) (key : String) :
    0 ≤ pg.db.lastRead agent key := by
  induction h with
  | init now => exact le_rfl
  | next h e ih => exact ih.trans (Pg.next_lastRead h.valid e agent key)

/-- The messages of a read are rows of the view above where it starts. -/
theorem mem_readList {input : ReadInput} {info : MessageInfo} (h : info ∈ (pg.db.readList auth scope input).messages) :
    ∃ m ∈ pg.db.messages, scope.visible auth input.allSessions m = true ∧ pg.db.readFrom auth scope input < m.id ∧
      m.id = info.id := by
  obtain ⟨m, hm, hp, hinfo⟩ := mem_newest (List.mem_reverse.1 h)
  simp only [Bool.and_eq_true, decide_eq_true_eq] at hp
  exact ⟨m, hm, hp.1, hp.2, (messageInfo?_id hinfo).symm⟩

/-- A read starts at or before the position that it reports. -/
theorem readFrom_le_cursor {input : ReadInput} :
    pg.db.readFrom auth scope input ≤ (pg.db.readList auth scope input).cursor := by
  rcases maxId_mem (pg.db.readFrom auth scope input) (pg.db.readList auth scope input).messages with h | ⟨info, hinfo, h⟩
  · exact h.ge
  · obtain ⟨m, -, -, habove, hid⟩ := mem_readList hinfo
    exact (habove.trans_eq (hid.trans h)).le

/-- The last message of the view is in every read that starts before it. -/
theorem last_mem_readList (hv : pg.Valid) {input : ReadInput} {m : Message} (hm : m ∈ pg.db.messages)
    (hvisible : scope.visible auth input.allSessions m = true) (habove : pg.db.readFrom auth scope input < m.id)
    (hlast : ∀ a ∈ pg.db.messages, scope.visible auth input.allSessions a = true → a.id ≤ m.id) :
    ∃ info ∈ (pg.db.readList auth scope input).messages, info.id = m.id := by
  have hhighest := newest_highest hv (fun m => scope.visible auth input.allSessions m &&
    decide (pg.db.readFrom auth scope input < m.id)) (clamp input.limit 1 maxLimit)
  refine List.mem_map.1 (hhighest.max_mem (rowLimit_pos input.limit) (x := m.id) ?_ ?_)
  · refine List.mem_map_of_mem (List.mem_filter.2 ⟨hm, ?_⟩)
    rw [hvisible, decide_eq_true habove]
    rfl
  · intro y hy
    obtain ⟨a, ha, rfl⟩ := List.mem_map.1 hy
    obtain ⟨ha, hp⟩ := List.mem_filter.1 ha
    exact hlast a ha (Bool.and_eq_true_iff.1 hp).1

/-- After a read of what is new, the stored cursor is at the reported position or past it. -/
theorem cursor_le_lastRead (hpg : pg.Reachable) (hauth : auth.authentic pg.db = true) (pid : Nat) {input : ReadInput}
    (hscope : ((resolveScope auth input.scope).exec pg).1 = .ok scope) (hnew : input.onlyNew = true) :
    (pg.db.readList auth scope input).cursor ≤ (pg.next (.call auth pid (.readMessages input))).db.lastRead auth.agentId
      (scope.cursorKeyFor auth input.allSessions) := by
  have hfrom : pg.db.readFrom auth scope input =
      pg.db.lastRead auth.agentId (scope.cursorKeyFor auth input.allSessions) := if_pos hnew
  have hagent : pg.db.agentExists auth.agentId := Db.agentExists_iff.2 ⟨_, AuthCtx.authentic.caller hauth⟩
  have hcursor : 0 ≤ (pg.db.readList auth scope input).cursor :=
    (hpg.lastRead_nonneg ..).trans (hfrom.symm.trans_le readFrom_le_cursor)
  rw [Pg.next, call_read hauth pid hscope]
  split
  · rw [lastRead_upsertCursor hpg.valid.keys.cursors hagent hcursor, if_pos ⟨rfl, rfl⟩]
    exact le_max_right _ _
  · next h =>
    rw [← hfrom]
    exact not_lt.1 fun hlt => h ⟨hnew, hlt⟩

/-- What a read of the history reports is read again, if anything of its view is unread. -/
theorem read_again (hpg : pg.Reachable) (hauth : auth.authentic pg.db = true) (pid : Nat) {input : ReadInput}
    (hscope : ((resolveScope auth input.scope).exec pg).1 = .ok scope) (hold : input.onlyNew = false) {m : Message}
    (hm : m ∈ pg.db.messages) (hvisible : scope.visible auth input.allSessions m = true)
    (hunread : pg.db.lastRead auth.agentId (scope.cursorKeyFor auth input.allSessions) < m.id) :
    ¬ NeverAgain pg auth scope input.allSessions (pg.db.readList auth scope input).cursor := by
  -- The last message of the view is in this read and in a read of what is new right after it.
  obtain ⟨last, hlast⟩ : ∃ last, (pg.db.messages.filter (scope.visible auth input.allSessions)).argmax (·.id) = some last :=
    Option.ne_none_iff_exists'.1 fun h => by
      rw [List.argmax_eq_none, List.filter_eq_nil_iff] at h
      exact h m hm hvisible
  obtain ⟨hmem, hmax⟩ := List.mem_filter.1 (List.argmax_mem hlast)
  have hall : ∀ a ∈ pg.db.messages, scope.visible auth input.allSessions a = true → a.id ≤ last.id := fun a ha hv =>
    List.le_of_mem_argmax (List.mem_filter.2 ⟨ha, hv⟩) hlast
  have hnew : pg.db.lastRead auth.agentId (scope.cursorKeyFor auth input.allSessions) < last.id :=
    hunread.trans_le (hall m hm hvisible)
  have hfrom : pg.db.readFrom auth scope input = 0 := if_neg (by simp [hold])
  obtain ⟨info, hinfo, hid⟩ := last_mem_readList hpg.valid hmem hmax
    (hfrom.trans_lt ((hpg.lastRead_nonneg ..).trans_lt hnew)) hall
  obtain ⟨info', hinfo', hid'⟩ : ∃ info ∈ (pg.db.readList auth scope { input with onlyNew := true }).messages, info.id = last.id :=
    last_mem_readList hpg.valid hmem hmax hnew hall
  intro hnever
  have hread : (pg.call auth pid (.readMessages { input with onlyNew := true })).1 =
      .ok (.messages (pg.db.readList auth scope { input with onlyNew := true })) :=
    congrArg Prod.fst (@call_read _ pg auth hauth pid { input with onlyNew := true } scope hscope)
  have hlt := hnever [] pid { input with onlyNew := true } _ rfl rfl hscope hread info' hinfo'
  have hle : info.id ≤ (pg.db.readList auth scope input).cursor := le_maxId hinfo
  omega

/-- Where nothing of the view is unread, a read reports no position past the stored cursor. -/
theorem cursor_le_of_read (hpg : pg.Reachable) {input : ReadInput}
    (h : ∀ m ∈ pg.db.messages, scope.visible auth input.allSessions m = true →
      m.id ≤ pg.db.lastRead auth.agentId (scope.cursorKeyFor auth input.allSessions)) :
    (pg.db.readList auth scope input).cursor ≤
      pg.db.lastRead auth.agentId (scope.cursorKeyFor auth input.allSessions) := by
  rcases maxId_mem (pg.db.readFrom auth scope input) (pg.db.readList auth scope input).messages with hfrom | ⟨info, hinfo, hid⟩
  · refine hfrom.trans_le ?_
    unfold Db.readFrom
    split
    · exact le_rfl
    · exact hpg.lastRead_nonneg ..
  · obtain ⟨m, hm, hvisible, -, hm'⟩ := mem_readList hinfo
    exact (hid.symm.trans hm'.symm).trans_le (h m hm hvisible)

/-- A reported position is never read again if and only if the read was one of what is new, or left nothing unread in
    its view. -/
theorem cursor_iff (hpg : pg.Reachable) (hauth : auth.authentic pg.db = true) (pid : Nat) {input : ReadInput}
    (hscope : ((resolveScope auth input.scope).exec pg).1 = .ok scope) :
    ∃ r, (pg.call auth pid (.readMessages input)).1 = .ok (.messages r) ∧
      (NeverAgain (pg.next (.call auth pid (.readMessages input))) auth scope input.allSessions r.cursor ↔
        input.onlyNew = true ∨ ∀ m ∈ pg.db.messages, scope.visible auth input.allSessions m = true →
          m.id ≤ pg.db.lastRead auth.agentId (scope.cursorKeyFor auth input.allSessions)) := by
  have hread := call_read hauth pid hscope
  refine ⟨_, congrArg Prod.fst hread, fun hnever => ?_, fun h => ?_⟩
  · by_contra h
    push Not at h
    obtain ⟨hold, m, hm, hvisible, hunread⟩ := h
    have hnext : pg.next (.call auth pid (.readMessages input)) = pg := by
      rw [Pg.next, hread, if_neg fun h => hold h.1]
    rw [hnext] at hnever
    exact read_again hpg hauth pid hscope (by simpa using hold) hm hvisible hunread hnever
  · intro es pid' input' r' hnew hsessions hscope' hcall info hinfo
    have hauth' : auth.authentic ((pg.next (.call auth pid (.readMessages input))).after es).db = true := by
      by_contra hno
      rw [Pg.call, if_neg hno] at hcall
      cases hcall
    rw [call_read hauth' pid' hscope'] at hcall
    cases hcall
    obtain ⟨m, -, -, habove, hid⟩ := mem_readList hinfo
    rw [Db.readFrom, if_pos hnew, hsessions] at habove
    have hmove := Pg.after_lastRead (hpg.valid.next (.call auth pid (.readMessages input))) es auth.agentId
      (scope.cursorKeyFor auth input.allSessions)
    have hcursor : (pg.db.readList auth scope input).cursor ≤
        (pg.next (.call auth pid (.readMessages input))).db.lastRead auth.agentId
          (scope.cursorKeyFor auth input.allSessions) := by
      rcases h with hnew | hread
      · exact cursor_le_lastRead hpg hauth pid hscope hnew
      · exact (cursor_le_of_read hpg hread).trans (Pg.next_lastRead hpg.valid ..)
    omega

end
end CrewSync

namespace CrewSync
open Sample
attribute [local instance] Platform.ascii

theorem onePost_reachable : onePost.Reachable := (Pg.Reachable.init 0).after _

theorem one_read_once : ∃ r, (onePost.call ann 0 (.readMessages ⟨"all", true, 5, false⟩)).1 = .ok (.messages r) ∧
    NeverAgain (onePost.next (.call ann 0 (.readMessages ⟨"all", true, 5, false⟩))) ann .all false r.cursor := by
  obtain ⟨r, hr, hiff⟩ := @cursor_iff Platform.ascii onePost ann .all onePost_reachable (by decide) 0
    ⟨"all", true, 5, false⟩ rfl
  exact ⟨r, hr, hiff.2 (.inl rfl)⟩

/-- A read of the history reports bob's message; a read of what is new shows it again. -/
theorem one_read_twice : ∃ r, (onePost.call ann 0 (.readMessages ⟨"all", false, 5, false⟩)).1 = .ok (.messages r) ∧
    r.cursor = 1 ∧
      ¬ NeverAgain (onePost.next (.call ann 0 (.readMessages ⟨"all", false, 5, false⟩))) ann .all false r.cursor := by
  have hauth : ann.authentic onePost.db = true := by decide
  have hread := @call_read Platform.ascii onePost ann hauth 0 ⟨"all", false, 5, false⟩ .all rfl
  have hnew := @call_read Platform.ascii onePost ann hauth 0 ⟨"all", true, 5, false⟩ .all rfl
  have hcursor : (onePost.db.readList ann .all ⟨"all", false, 5, false⟩).cursor = 1 := by decide
  have hshown : ∃ info ∈ (onePost.db.readList ann .all ⟨"all", true, 5, false⟩).messages, info.id = 1 := by decide
  refine ⟨_, congrArg Prod.fst hread, hcursor, fun hnever => ?_⟩
  obtain ⟨info, hinfo, hid⟩ := hshown
  rw [Pg.next, hread, if_neg (by simp)] at hnever
  have hlt := hnever [] 0 ⟨"all", true, 5, false⟩ _ rfl rfl rfl (congrArg Prod.fst hnew) info hinfo
  omega

end CrewSync
