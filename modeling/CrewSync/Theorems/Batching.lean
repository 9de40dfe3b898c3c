import CrewSync.Lib.Pieces
import CrewSync.Theorems.Waiting

/-! What the grace window adds to the event that ended the wait, against what each of its events would have been
    reported as, had it been the first. -/

namespace CrewSync
variable [Platform]

/-! ### The answers of the wait -/

/-- The line about the event, from the state of the database at the time. -/
def line (pg : Pg) (e : BusEvent) : Option WaitEvent := ((describe e).exec pg).1.toOption.join

theorem describe_line (e : BusEvent) (pg : Pg) : (describe e).exec pg = (.ok (line pg e), pg) := by
  obtain ⟨d, hd⟩ := describe_exec e pg
  have hline : line pg e = d := by
    unfold line
    rw [hd]
    rfl
  rw [hd, hline]

theorem describeAll_lines (es : List BusEvent) (pg : Pg) :
    (describeAll es).exec pg = (.ok (es.filterMap (line pg)), pg) := by
  induction es with
  | nil => rfl
  | cons e es ih =>
    have hstep : (describeAll (e :: es)).exec pg = (.ok ((line pg e).toList ++ es.filterMap (line pg)), pg) := by
      simp only [describeAll, Bus.exec_bind, describe_line, ih]
      rfl
    rw [hstep]
    cases hl : line pg e with
    | none => simp [hl]
    | some d => simp [hl]

section
variable (pg : Pg) (auth : AuthCtx) (kinds : Option (List String)) (focus : Option Uuid)

/-- The `events` of a wait that receives these. -/
def reported (grace : List BusEvent) (received : List Received) : List WaitEvent :=
  ((awaitEvents auth kinds focus grace received).exec pg).1.toOption.getD []

/-- The `events` of a wait for which this was the first event, and the last. -/
def reportedAlone (e : BusEvent) : List WaitEvent := reported pg auth kinds focus [] [.event e]

/-- A message that the caller sent from another of its sessions, that the wait asks for, and that is still there. -/
def fromOtherSession (e : BusEvent) : Bool :=
  e.kind == "message" && e.senderAgentId == some auth.agentId && e.senderSession.getD "" != auth.session &&
    e.teamId == some auth.teamId && wants kinds "message" && inFocus e focus &&
    pg.db.messages.any fun m => e.messageId == some m.id

variable {pg auth kinds focus}

theorem reported_first {grace : List BusEvent} {rest : List Received} {e : BusEvent} {d : WaitEvent}
    (hq : qualifies auth kinds focus e = true) (hl : line pg e = some d) :
    reported pg auth kinds focus grace (.event e :: rest) =
      d :: (grace.filter (joins auth kinds focus)).filterMap (line pg) := by
  simp only [reported, awaitEvents, hq, if_true, Bus.exec_bind, describe_line, hl, describeAll_lines, Bus.exec_pure,
    Except.toOption, Option.getD_some]

theorem reported_skip {grace : List BusEvent} {rest : List Received} {e : BusEvent}
    (h : qualifies auth kinds focus e = true → line pg e = none) :
    reported pg auth kinds focus grace (.event e :: rest) = reported pg auth kinds focus grace rest := by
  by_cases hq : qualifies auth kinds focus e = true
  · simp only [reported, awaitEvents, hq, if_true, Bus.exec_bind, describe_line, h hq]
  · simp only [reported, awaitEvents, hq]
    rfl

theorem reportedAlone_eq (e : BusEvent) : reportedAlone pg auth kinds focus e =
    if qualifies auth kinds focus e = true then (line pg e).toList else [] := by
  unfold reportedAlone
  split
  · next hq =>
    cases hl : line pg e with
    | none => exact reported_skip fun _ => hl
    | some d => exact reported_first hq hl
  · next hq => exact reported_skip fun h => absurd h hq

theorem reported_skip_all {grace : List BusEvent} {rest : List Received} {before : List BusEvent}
    (h : ∀ e ∈ before, reportedAlone pg auth kinds focus e = []) :
    reported pg auth kinds focus grace (before.map .event ++ rest) = reported pg auth kinds focus grace rest := by
  induction before with
  | nil => rfl
  | cons e es ih =>
    obtain ⟨he, hes⟩ := List.forall_mem_cons.1 h
    have hline : qualifies auth kinds focus e = true → line pg e = none := by
      intro hq
      rw [reportedAlone_eq, if_pos hq] at he
      simpa using he
    rw [List.map_cons, List.cons_append, reported_skip hline, ih hes]

/-! ### The two copies of the filter -/

/-- The grace window takes what the wait takes, except what the caller sent from elsewhere. -/
theorem joins_eq (e : BusEvent) : joins auth kinds focus e =
    (qualifies auth kinds focus e && !(e.kind == "message" && e.senderAgentId == some auth.agentId)) := by
  unfold joins qualifies ownMessage
  cases e.visibleTo auth.teamId auth.agentId auth.session <;> cases wants kinds e.kind <;> cases inFocus e focus <;>
    cases e.kind == "message" <;> cases e.senderAgentId == some auth.agentId <;> simp

/-- A sender sees its own messages. -/
theorem visibleTo_sender {e : BusEvent} {agent team : Uuid} {session : String} (h : e.senderAgentId = some agent) :
    e.visibleTo team agent session = (e.teamId == some team) := by
  unfold BusEvent.visibleTo
  by_cases hteam : e.teamId = some team
  · simp [hteam, h]
  · simp [hteam]

/-- A message has a line as long as it is there. -/
theorem line_message (hv : pg.Valid) {e : BusEvent} (hkind : e.kind = "message") :
    (line pg e).isSome = pg.db.messages.any fun m => e.messageId == some m.id := by
  unfold line
  simp only [describe, hkind, beq_self_eq_true, if_true]
  cases hid : e.messageId with
  | none => simp [Except.toOption]
  | some id =>
    simp only [Bus.exec_select, Except.toOption, Option.join_some]
    cases hfind : pg.db.messages.find? fun x => x.id == id with
    | none =>
      have hno : ∀ m ∈ pg.db.messages, (m.id == id) = false := by simpa using List.find?_eq_none.1 hfind
      symm
      simp only [bind, Option.bind_none, Option.isSome_none, List.any_eq_false]
      intro m hm
      have := hno m hm
      simp only [beq_eq_false_iff_ne] at this
      simpa using Ne.symm this
    | some m =>
      have hm := List.mem_of_find?_eq_some hfind
      have hmid : m.id = id := by simpa using List.find?_some hfind
      obtain ⟨name, hname⟩ := Db.agentName_of_agentIn (hv.refs.senders m hm).2
      simp only [bind, Option.bind_some, hname]
      symm
      exact List.any_eq_true.2 ⟨m, hm, by simp [hmid]⟩

/-- What the grace window adds for an event. -/
theorem line_of_joins (e : BusEvent) (hv : pg.Valid) : (if joins auth kinds focus e = true then (line pg e).toList else []) =
    if fromOtherSession pg auth kinds focus e = true then [] else reportedAlone pg auth kinds focus e := by
  rw [reportedAlone_eq, joins_eq]
  by_cases hmine : e.kind = "message" ∧ e.senderAgentId = some auth.agentId
  · obtain ⟨hkind, hsender⟩ := hmine
    have hqualifies : qualifies auth kinds focus e = (e.teamId == some auth.teamId && wants kinds "message" &&
        inFocus e focus && !(e.senderSession.getD "" == auth.session)) := by
      simp [qualifies, ownMessage, visibleTo_sender hsender, hkind, hsender]
    have hother : fromOtherSession pg auth kinds focus e = (qualifies auth kinds focus e && (line pg e).isSome) := by
      rw [line_message hv hkind, hqualifies]
      simp only [fromOtherSession, hkind, hsender, beq_self_eq_true, Bool.true_and, bne]
      ac_rfl
    rw [hother]
    simp only [hkind, hsender, beq_self_eq_true, Bool.and_self, Bool.not_true, Bool.and_false, Bool.false_eq_true,
      if_false]
    cases hq : qualifies auth kinds focus e with
    | false => rfl
    | true => cases hl : line pg e <;> rfl
  · have hnot : (e.kind == "message" && e.senderAgentId == some auth.agentId) = false := by simpa using hmine
    have hother : fromOtherSession pg auth kinds focus e = false := by simp [fromOtherSession, hnot]
    simp only [hnot, hother, Bool.not_false, Bool.and_true, Bool.false_eq_true, if_false]

theorem grace_lines (hv : pg.Valid) (grace : List BusEvent) :
    (grace.filter (joins auth kinds focus)).filterMap (line pg) = grace.flatMap fun e =>
      if fromOtherSession pg auth kinds focus e = true then [] else reportedAlone pg auth kinds focus e := by
  simp only [← line_of_joins _ hv]
  induction grace with
  | nil => rfl
  | cons e es ih =>
    rw [List.flatMap_cons, ← ih]
    by_cases hj : joins auth kinds focus e = true
    · cases hl : line pg e <;> simp [hj, hl]
    · simp [hj]

/-- A message from another session of the caller would have been reported as the first event. -/
theorem reportedAlone_of_other (hv : pg.Valid) {e : BusEvent} (h : fromOtherSession pg auth kinds focus e = true) :
    reportedAlone pg auth kinds focus e ≠ [] := by
  simp only [fromOtherSession, Bool.and_eq_true, beq_iff_eq, bne_iff_ne] at h
  obtain ⟨⟨⟨⟨⟨⟨hkind, hsender⟩, hsession⟩, hteam⟩, hwants⟩, hfocus⟩, hthere⟩ := h
  have hq : qualifies auth kinds focus e = true := by
    simp [qualifies, ownMessage, visibleTo_sender hsender, hkind, hsender, hteam, hwants, hfocus, hsession]
  obtain ⟨d, hd⟩ := Option.isSome_iff_exists.1 ((line_message hv hkind).trans hthere)
  simp [reportedAlone_eq, hq, hd]

/-- The grace window leaves out nothing that would have been reported as the first event, exactly if none of its events
    is a message that the caller sent from another of its sessions. -/
theorem batching_iff {pg : Pg} (hpg : pg.Reachable) (auth : AuthCtx) (kinds : Option (List String)) (focus : Option Uuid)
    (before grace : List BusEvent) (first : BusEvent) (rest : List Received)
    (hbefore : ∀ e ∈ before, reportedAlone pg auth kinds focus e = [])
    (hfirst : reportedAlone pg auth kinds focus first ≠ []) :
    reported pg auth kinds focus grace (before.map .event ++ .event first :: rest) =
        reportedAlone pg auth kinds focus first ++ grace.flatMap (reportedAlone pg auth kinds focus) ↔
      ∀ e ∈ grace, fromOtherSession pg auth kinds focus e = false := by
  obtain ⟨hq, d, hl⟩ : qualifies auth kinds focus first = true ∧ ∃ d, line pg first = some d := by
    rw [reportedAlone_eq] at hfirst
    split at hfirst
    · next hq =>
      refine ⟨hq, Option.ne_none_iff_exists'.1 fun hnone => ?_⟩
      simp [hnone] at hfirst
    · exact absurd rfl hfirst
  have halone : reportedAlone pg auth kinds focus first = [d] := by
    rw [reportedAlone_eq, if_pos hq, hl]
    rfl
  rw [reported_skip_all hbefore, reported_first hq hl, halone, grace_lines hpg.valid, List.singleton_append, List.cons.injEq,
    and_iff_right rfl, Pieces.flatMap_eq_iff]
  · refine forall₂_congr fun e _ => ?_
    cases hother : fromOtherSession pg auth kinds focus e with
    | false => simp
    | true => simp [reportedAlone_of_other hpg.valid hother]
  · intro e _
    split
    · exact List.nil_sublist _
    · exact List.Sublist.refl _

end
end CrewSync

namespace CrewSync
open Sample
attribute [local instance] Platform.ascii

/-- The window of ann that waits. -/
def marketWindow : AuthCtx := { ann with session := "market" }

/-- Bob posts in a channel, and ann announces there from her general window. -/
def announcedElsewhere : Pg :=
  (Pg.init 0).after (crew ++ [.call ann 0 (.createChannel "general" none),
    .call bob 0 (.postMessage { channel := some "general", «to» := none, announce := false, body := "done", replyTo := none
                                metadata := none, attachments := [] }),
    .call { ann with session := "general" } 0
      (.postMessage { channel := some "general", «to» := none, announce := true, body := "freeze", replyTo := none
                      metadata := none, attachments := [] })])

/-- The two messages, in the order in which the waiting window receives them. -/
def donePosted : Message := announcedElsewhere.db.messages.head (by decide)

def freezePosted : Message := announcedElsewhere.db.messages.getLast (by decide)

/-- Then she posts from the window that waits. -/
def thenOwnPost : Pg :=
  announcedElsewhere.after [.call marketWindow 0
    (.postMessage { channel := some "general", «to» := none, announce := false, body := "mine", replyTo := none
                    metadata := none, attachments := [] })]

def minePosted : Message := thenOwnPost.db.messages.getLast (by decide)

set_option maxRecDepth 2000 in
theorem batching_of_own_session :
    reported thenOwnPost marketWindow none none [minePosted.event] (List.map .event [] ++ .event donePosted.event :: []) =
        reportedAlone thenOwnPost marketWindow none none donePosted.event ++
          List.flatMap (reportedAlone thenOwnPost marketWindow none none) [minePosted.event] ↔
      ∀ e ∈ [minePosted.event], fromOtherSession thenOwnPost marketWindow none none e = false :=
  @batching_iff Platform.ascii thenOwnPost (((Pg.Reachable.init 0).after _).after _) marketWindow none none []
    [minePosted.event] donePosted.event [] (by simp) (by decide)

/-- Her window reports the announcement alone, and drops it behind bob's message. -/
theorem batching_drops : ¬ ∀ (pg : Pg) (auth : AuthCtx) (kinds : Option (List String)) (focus : Option Uuid)
    (first : BusEvent) (grace : List BusEvent), pg.Reachable → auth.authentic pg.db = true →
    reportedAlone pg auth kinds focus first ≠ [] →
    reported pg auth kinds focus grace [.event first] =
      reportedAlone pg auth kinds focus first ++ grace.flatMap (reportedAlone pg auth kinds focus) := by
  intro h
  have := h announcedElsewhere marketWindow none none donePosted.event [freezePosted.event] ((Pg.Reachable.init 0).after _)
    (by decide) (by decide)
  revert this
  decide

end CrewSync
