import CrewSync.Footprint.Notices
import CrewSync.Theorems.WakeFilter
import CrewSync.Waiting

/-! `wait_for_updates` against the server and the hub: which messages wake it, whatever comes in between. -/

namespace CrewSync
open Broadcast
variable [Platform]

/-! ### The queries of the call -/

theorem describe_exec (e : BusEvent) (pg : Pg) : ∃ d, (describe e).exec pg = (.ok d, pg) := by
  unfold describe
  split
  · split <;> exact ⟨_, rfl⟩
  · split
    · split
      · exact ⟨_, rfl⟩
      · dsimp only
        split <;> exact ⟨_, rfl⟩
    · split
      · exact ⟨_, rfl⟩
      · split <;> exact ⟨_, rfl⟩

/-- The event of a message that is there gets its line. -/
theorem describe_event {pg : Pg} (hv : pg.Valid) {m : Message} (hm : m ∈ pg.db.messages) :
    ∃ d, (describe m.event).exec pg = (.ok (some d), pg) := by
  have hfind : (pg.db.messages.find? fun x => x.id == m.id).isSome :=
    List.find?_isSome.2 ⟨m, hm, beq_self_eq_true _⟩
  obtain ⟨x, hx⟩ := Option.isSome_iff_exists.1 hfind
  obtain ⟨name, hname⟩ := Db.agentName_of_agentIn (hv.refs.senders x (List.mem_of_find?_eq_some hx)).2
  simp only [describe, Message.event_kind, beq_self_eq_true, if_true, Message.event_messageId, Bus.exec_select, hx]
  simp only [bind, Option.bind_some, hname]
  exact ⟨_, rfl⟩

omit [Platform] in
/-- The backlog is empty only if no message is in it. -/
theorem unreadAnything_exec (auth : AuthCtx) (focus : Option Uuid) (pg : Pg) :
    ∃ n : Int, (unreadAnything auth focus).exec pg = (.ok n, pg) ∧
      (0 < n ↔ ∃ m ∈ pg.db.messages,
        pendingFor auth focus (pg.db.lastRead auth.agentId (cursorScope "all" auth.session)) m = true) := by
  refine ⟨_, rfl, ?_⟩
  rw [Int.natCast_pos, List.length_pos_iff_exists_mem]
  simp only [List.mem_filter]

/-! ### What a call keeps of a message -/

namespace Waiting
variable (auth : AuthCtx) (input : WaitInput) (m : Message)

/-- The event of the message is in the subscription of the call, or the call is about to learn that it may
    have missed it. -/
def Queued (s : Net Waiting) : Prop := ∃ r ∈ s.rx, r.Pending (· = m.event)

/-- The call is not going to end without the message: as long as `U` holds, its event is still to come, or
    `W` holds. -/
def Sure (U W : Prop) (s : Net Waiting) : Prop :=
  match s.me.pc with
  | .resolveFocus | .subscribe | .checkBacklog | .found _ => True
  | .select => U → Queued m s ∨ W
  | .describe e => U → e = m.event ∨ Queued m s ∨ W
  | .grace _ | .describeMore _ _ => s.me.events ≠ []
  | .leave => s.me.events ≠ [] ∨ ¬ U
  | .done r => ∃ w, r = .ok w ∧ (w.woke = true ∨ ¬ U)

variable {auth input m} {s : Net Waiting} {U W : Prop}

/-- Receiving at the `select!`: the event of the message comes out, or it is still to come. -/
theorem Sure.receive (h : U → Queued m s ∨ W) (hq : U → W ∨ qualifies auth input.kinds s.me.focus m.event = true)
    (hclosed : s.closed = false) (hpc : s.me.pc = .select) {x : Except RecvError BusEvent} {s' : Net Waiting}
    (hs : s.recv = some (x, s')) : Sure m U W { s' with me := receive auth input s'.me x } := by
  obtain ⟨r, r', hrx, hr, rfl⟩ := Net.recv_eq hs
  have kept : U → (x = .error .lagged) ∨ (∃ e, x = .ok e ∧ (e = m.event ∨ r'.Pending (· = m.event))) ∨ W := by
    intro hU
    obtain ⟨r₀, hr₀, hp⟩ | hW := h hU
    · rw [hrx] at hr₀
      cases hr₀
      obtain hx | hx := hp.recv hr
      · exact .inl hx
      · exact .inr (.inl hx)
    · exact .inr (.inr hW)
  cases x with
  | error x =>
    cases x with
    | lagged => exact .inl (by simp [Waiting.receive])
    | closed =>
      -- A hub with a sender left never looks closed.
      rw [hclosed] at hr
      unfold Receiver.recv at hr
      split at hr
      · cases hr
      · split at hr <;> cases hr
  | ok e =>
    simp only [Waiting.receive]
    split
    · intro hU
      obtain hx | ⟨e', he', hp⟩ | hW := kept hU
      · cases hx
      · cases he'
        exact hp.imp_right fun hp => .inl ⟨r', rfl, hp⟩
      · exact .inr (.inr hW)
    · next hne =>
      simp only [Sure, hpc]
      intro hU
      obtain hx | ⟨e', he', hp⟩ | hW := kept hU
      · cases hx
      · cases he'
        obtain rfl | hp := hp
        · exact .inr ((hq hU).resolve_right hne)
        · exact .inl ⟨r', rfl, hp⟩
      · exact .inr hW

/-- One step of the call. -/
theorem Sure.advance (h : Sure m U W s) (hw : s.me.pc = .checkBacklog → wants input.kinds "message" = true)
    (hv : s.pg.Valid) (hm : U → W ∨ m ∈ s.pg.db.messages) (hclosed : s.closed = false)
    (hpending : s.me.pc = .checkBacklog → U → W ∨ pendingFor auth s.me.focus
      (s.pg.db.lastRead auth.agentId (cursorScope "all" auth.session)) m = true)
    (hq : s.me.pc = .select → U → W ∨ qualifies auth input.kinds s.me.focus m.event = true)
    (c : Choice) (hexit : c = .timer → s.me.pc = .select → s.beforeDeadline = false → U → ¬ Queued m s ∧ ¬ W) :
    Sure m U W (advance auth input s c) := by
  unfold Waiting.advance
  cases hpc : s.me.pc with
  | resolveFocus =>
    obtain ⟨focus, hf⟩ := focusOf_exec auth input.allChannels s.pg
    simp only [Net.query_ok hf]
    trivial
  | subscribe => trivial
  | checkBacklog =>
    obtain ⟨n, hn, hcount⟩ := unreadAnything_exec auth s.me.focus s.pg
    simp only [Net.query_ok hn]
    split
    · trivial
    · next hnone =>
      intro hU
      obtain hW | hm := hm hU
      · exact .inr hW
      · obtain hW | hp := hpending hpc hU
        · exact .inr hW
        · have : 0 < n := hcount.2 ⟨m, hm, hp⟩
          simp [this, hw hpc] at hnone
  | found n =>
    simp only [unreadDms, Net.query_ok (Bus.exec_select _ _)]
    exact ⟨_, rfl, .inl rfl⟩
  | select =>
    simp only [Sure, hpc] at h
    cases c with
    | timer =>
      simp only
      split
      · simpa only [Sure, hpc] using h
      · next hd =>
        refine .inr fun hU => ?_
        obtain ⟨hnq, hnw⟩ := hexit rfl hpc (by simpa using hd) hU
        exact (h hU).elim hnq hnw
    | recv =>
      simp only
      split
      · next hs => exact Sure.receive h (hq hpc) hclosed hpc hs
      · simpa only [Sure, hpc] using h
  | describe e =>
    simp only [Sure, hpc] at h
    obtain ⟨d, hd⟩ := describe_exec e s.pg
    simp only [Net.query_ok hd]
    cases d with
    | some d => simp [Sure]
    | none =>
      intro hU
      obtain rfl | h := h hU
      · obtain hW | hm := hm hU
        · exact .inr hW
        · obtain ⟨d, hd'⟩ := describe_event hv hm
          rw [hd] at hd'
          cases hd'
      · exact h
  | grace till =>
    simp only [Sure, hpc] at h
    simp only
    split
    · next x s' hs =>
      obtain ⟨r, r', -, -, rfl⟩ := Net.recv_eq hs
      cases x with
      | error x => exact .inl h
      | ok e =>
        simp only [receiveMore]
        split
        · exact h
        · simpa only [Sure, hpc] using h
    · split
      · simpa only [Sure, hpc] using h
      · exact .inl h
  | describeMore till e =>
    simp only [Sure, hpc] at h
    obtain ⟨d, hd⟩ := describe_exec e s.pg
    simp only [Net.query_ok hd]
    simp [Sure, h]
  | leave =>
    simp only [Sure, hpc] at h
    simp only [unreadDms, Net.query_ok (Bus.exec_select _ _)]
    exact ⟨_, rfl, h.imp_left fun h => by simpa [result] using h⟩
  | done r => simpa only [Sure, hpc] using h

/-- What a step of the call leaves alone. -/
theorem advance_eq (auth : AuthCtx) (input : WaitInput) (s : Net Waiting) (c : Choice) :
    ∃ rx deadline me, advance auth input s c = { s with rx, deadline, me } ∧
      (s.me.pc ≠ .checkBacklog → deadline = s.deadline) ∧ (s.me.pc ≠ .resolveFocus → me.focus = s.me.focus) ∧
      (s.rx.isSome → rx.isSome) := by
  unfold Waiting.advance
  cases hpc : s.me.pc with
  | resolveFocus =>
    obtain ⟨focus, hf⟩ := focusOf_exec auth input.allChannels s.pg
    simp only [Net.query_ok hf]
    exact ⟨_, _, _, rfl, fun _ => rfl, fun h => absurd rfl h, id⟩
  | subscribe => exact ⟨_, _, _, rfl, fun _ => rfl, fun _ => rfl, fun _ => rfl⟩
  | checkBacklog =>
    obtain ⟨n, hn, -⟩ := unreadAnything_exec auth s.me.focus s.pg
    simp only [Net.query_ok hn]
    split
    · exact ⟨_, _, _, rfl, fun _ => rfl, fun _ => rfl, id⟩
    · exact ⟨_, _, _, rfl, fun h => absurd rfl h, fun _ => rfl, id⟩
  | found n =>
    simp only [unreadDms, Net.query_ok (Bus.exec_select _ _)]
    exact ⟨_, _, _, rfl, fun _ => rfl, fun _ => rfl, id⟩
  | select =>
    cases c with
    | timer =>
      simp only
      split
      · exact ⟨_, _, _, rfl, fun _ => rfl, fun _ => rfl, id⟩
      · exact ⟨_, _, _, rfl, fun _ => rfl, fun _ => rfl, id⟩
    | recv =>
      simp only
      split
      · next x s' hs =>
        obtain ⟨r, r', -, -, rfl⟩ := Net.recv_eq hs
        refine ⟨_, _, _, rfl, fun _ => rfl, fun _ => ?_, fun _ => rfl⟩
        cases x with
        | error x => cases x <;> rfl
        | ok e => simp only [receive]; split <;> rfl
      · exact ⟨_, _, _, rfl, fun _ => rfl, fun _ => rfl, id⟩
  | describe e =>
    obtain ⟨d, hd⟩ := describe_exec e s.pg
    simp only [Net.query_ok hd]
    cases d with
    | some d => exact ⟨_, _, _, rfl, fun _ => rfl, fun _ => rfl, id⟩
    | none => exact ⟨_, _, _, rfl, fun _ => rfl, fun _ => rfl, id⟩
  | grace till =>
    simp only
    split
    · next x s' hs =>
      obtain ⟨r, r', -, -, rfl⟩ := Net.recv_eq hs
      refine ⟨_, _, _, rfl, fun _ => rfl, fun _ => ?_, fun _ => rfl⟩
      cases x with
      | error x => rfl
      | ok e => simp only [receiveMore]; split <;> rfl
    · split
      · exact ⟨_, _, _, rfl, fun _ => rfl, fun _ => rfl, id⟩
      · exact ⟨_, _, _, rfl, fun _ => rfl, fun _ => rfl, id⟩
  | describeMore till e =>
    obtain ⟨d, hd⟩ := describe_exec e s.pg
    simp only [Net.query_ok hd]
    exact ⟨_, _, _, rfl, fun _ => rfl, fun _ => rfl, id⟩
  | leave =>
    simp only [unreadDms, Net.query_ok (Bus.exec_select _ _)]
    exact ⟨_, _, _, rfl, fun _ => rfl, fun _ => rfl, id⟩
  | done r => exact ⟨_, _, _, rfl, fun _ => rfl, fun _ => rfl, id⟩

/-! ### Every message that reaches the hub in time wakes the call -/

/-- The call waits for an event, or looks one up. -/
def Pc.waits : Pc → Bool
  | .select | .describe _ => true
  | _ => false

/-- The call has its subscription. -/
def Pc.subscribed : Pc → Bool
  | .resolveFocus | .subscribe => false
  | _ => true

/-- How far the call is: before, at and behind the backlog check, and behind the wait. -/
def Pc.stage : Pc → Nat
  | .resolveFocus => 0
  | .subscribe => 1
  | .checkBacklog => 2
  | .select | .describe _ => 3
  | _ => 4

/-- The hub delivers, and messages stay. -/
def delivers : Net.Step → Bool
  | .lose | .close => false
  | .server e => !Pg.isPrune e
  | _ => true

/-- The call has its subscription and its deadline when it needs them. -/
structure Live (s : Net Waiting) : Prop where
  subscribed : s.me.pc.subscribed = true → s.rx.isSome = true
  timed : s.me.pc.waits = true → s.deadline.isSome = true
  untimed : s.me.pc.stage ≤ 2 → s.deadline = none

/-- What every run keeps in which the hub stays: without having woken, the call leaves only at its deadline. -/
structure Base (s : Net Waiting) : Prop extends Live s where
  valid : s.pg.Valid
  isOpen : s.closed = false
  late : ∀ m, Sure m (s.beforeDeadline = true) True s

section
variable (auth input m)

/-- At the backlog check, the check and the wake filter both accept the message. -/
def accepted (s : Net Waiting) : Net.Step → Bool
  | .call _ =>
    match s.me.pc with
    | .checkBacklog =>
      pendingFor auth s.me.focus (s.pg.db.lastRead auth.agentId (cursorScope "all" auth.session)) m &&
        qualifies auth input.kinds s.me.focus m.event
    | _ => true
  | _ => true

/-- The `select!` takes the timer although an event that passes the filter is there. -/
def overtaken (s : Net Waiting) : Net.Step → Bool
  | .call .timer =>
    match s.me.pc with
    | .select => !s.beforeDeadline && s.rx.any fun r => decide (r.Pending (qualifies auth input.kinds s.me.focus · = true))
    | _ => false
  | _ => false

/-- The event of the message reaches the hub before the deadline, or the message is there at the backlog
    check. -/
def reaches (s : Net Waiting) : Net.Step → Bool
  | .publish => s.upcoming == some (notifyMessage m) && s.beforeDeadline && s.pg.db.messages.contains m
  | .call _ =>
    match s.me.pc with
    | .checkBacklog => s.pg.db.messages.contains m
    | _ => false
  | _ => false

/-- A run of the setting: the hub delivers, both filters accept the message, and no event is overtaken. -/
structure Fair (s : Net Waiting) (e : Net.Step) : Prop where
  delivers : delivers e = true
  accepted : accepted auth input m s e = true
  inTime : overtaken auth input s e = false

instance (s : Net Waiting) (e : Net.Step) : Decidable (Fair auth input m s e) :=
  decidable_of_iff (Waiting.delivers e = true ∧ Waiting.accepted auth input m s e = true ∧ overtaken auth input s e = false)
    ⟨fun ⟨h₁, h₂, h₃⟩ => ⟨h₁, h₂, h₃⟩, fun ⟨h₁, h₂, h₃⟩ => ⟨h₁, h₂, h₃⟩⟩

/-- What such a run keeps. -/
structure Kept (s : Net Waiting) : Prop extends Base s where
  accepts : s.me.pc.waits = true → qualifies auth input.kinds s.me.focus m.event = true

end

/-- The backlog check sets the deadline, unless it ends the call. -/
theorem advance_checkBacklog (auth : AuthCtx) (input : WaitInput) (s : Net Waiting) (c : Choice)
    (hpc : s.me.pc = .checkBacklog) :
    (∃ n, (advance auth input s c).me.pc = .found n) ∨
      (advance auth input s c).me.pc = .select ∧ (advance auth input s c).deadline.isSome = true := by
  obtain ⟨n, hn, -⟩ := unreadAnything_exec auth s.me.focus s.pg
  simp only [Waiting.advance, hpc, Net.query_ok hn]
  split
  · exact .inl ⟨n, rfl⟩
  · exact .inr ⟨rfl, rfl⟩

/-- The call goes on stage by stage. -/
theorem advance_stage (auth : AuthCtx) (input : WaitInput) (s : Net Waiting) (c : Choice) :
    (s.me.pc.stage < 2 → (advance auth input s c).me.pc.stage = s.me.pc.stage + 1) ∧
      (2 ≤ s.me.pc.stage → 3 ≤ (advance auth input s c).me.pc.stage) ∧
      (4 ≤ s.me.pc.stage → 4 ≤ (advance auth input s c).me.pc.stage) := by
  unfold Waiting.advance
  cases hpc : s.me.pc with
  | resolveFocus =>
    obtain ⟨focus, hf⟩ := focusOf_exec auth input.allChannels s.pg
    simp [Net.query_ok hf, Pc.stage]
  | subscribe => simp [goto, Pc.stage]
  | checkBacklog =>
    obtain ⟨n, hn, -⟩ := unreadAnything_exec auth s.me.focus s.pg
    simp only [Net.query_ok hn]
    split <;> simp [goto, Pc.stage]
  | found n => simp [unreadDms, Net.query_ok (Bus.exec_select _ _), goto, Pc.stage]
  | select =>
    cases c with
    | timer =>
      simp only
      split <;> simp [hpc, goto, Pc.stage]
    | recv =>
      simp only
      split
      · next x s' hs =>
        obtain ⟨r, r', -, -, rfl⟩ := Net.recv_eq hs
        cases x with
        | error x => cases x <;> simp [receive, goto, Pc.stage]
        | ok e =>
          simp only [receive]
          split <;> simp [hpc, goto, Pc.stage]
      · simp [hpc, Pc.stage]
  | describe e =>
    obtain ⟨d, hd⟩ := describe_exec e s.pg
    simp only [Net.query_ok hd]
    cases d <;> simp [goto, Pc.stage]
  | grace till =>
    simp only
    split
    · next x s' hs =>
      obtain ⟨r, r', -, -, rfl⟩ := Net.recv_eq hs
      cases x with
      | error x => simp [receiveMore, goto, Pc.stage]
      | ok e =>
        simp only [receiveMore]
        split <;> simp [hpc, goto, Pc.stage]
    · split <;> simp [hpc, goto, Pc.stage]
  | describeMore till e =>
    obtain ⟨d, hd⟩ := describe_exec e s.pg
    simp [Net.query_ok hd, Pc.stage]
  | leave => simp [unreadDms, Net.query_ok (Bus.exec_select _ _), goto, Pc.stage]
  | done r => simp [hpc, Pc.stage]

omit [Platform] in
theorem Pc.waits_iff {pc : Pc} : pc.waits = true ↔ pc.stage = 3 := by
  cases pc <;> simp [Pc.waits, Pc.stage]

omit [Platform] in
theorem Pc.checkBacklog_iff {pc : Pc} : pc = .checkBacklog ↔ pc.stage = 2 := by
  cases pc <;> simp [Pc.stage]

/-- The call's step ends in a wait only behind the backlog check. -/
theorem waits_of_advance {auth : AuthCtx} {input : WaitInput} {s : Net Waiting} {c : Choice}
    (h : (advance auth input s c).me.pc.waits = true) : s.me.pc = .checkBacklog ∨ s.me.pc.waits = true := by
  obtain ⟨h₁, -, h₃⟩ := advance_stage auth input s c
  rw [Pc.waits_iff] at h ⊢
  rw [Pc.checkBacklog_iff]
  omega

/-- The call subscribes once. -/
theorem subscribed_of_advance {auth : AuthCtx} {input : WaitInput} {s : Net Waiting} {c : Choice}
    (h : (advance auth input s c).me.pc.subscribed = true) :
    (advance auth input s c).rx.isSome = true ∨ s.me.pc.subscribed = true := by
  cases hpc : s.me.pc with
  | resolveFocus =>
    obtain ⟨focus, hf⟩ := focusOf_exec auth input.allChannels s.pg
    simp [Waiting.advance, hpc, Net.query_ok hf, Pc.subscribed] at h
  | subscribe => exact .inl (by simp [Waiting.advance, hpc, Net.subscribe])
  | _ => exact .inr rfl

/-- What is sure stays so while the others act. -/
theorem Sure.imp {U' W' : Prop} {s' : Net Waiting} (h : Sure m U W s) (hme : s'.me = s.me) (hU : U' → U)
    (hcome : s.me.pc.waits = true → U' → Queued m s ∨ W → Queued m s' ∨ W') : Sure m U' W' s' := by
  unfold Sure at h ⊢
  rw [hme]
  cases hpc : s.me.pc with
  | select =>
    simp only [hpc] at h ⊢
    exact fun hu => hcome (by rw [hpc]; rfl) hu (h (hU hu))
  | describe e =>
    simp only [hpc] at h ⊢
    exact fun hu => (h (hU hu)).imp_right (hcome (by rw [hpc]; rfl) hu)
  | grace till => simpa only [hpc] using h
  | describeMore till e => simpa only [hpc] using h
  | leave =>
    simp only [hpc] at h ⊢
    exact h.imp_right fun h hu => h (hU hu)
  | done r =>
    simp only [hpc] at h ⊢
    obtain ⟨w, hw, h⟩ := h
    exact ⟨w, hw, h.imp_right fun h hu => h (hU hu)⟩
  | _ => trivial

theorem Live.advance (h : Live s) (auth : AuthCtx) (input : WaitInput) (c : Choice) :
    Live (advance auth input s c) := by
  have hwaits := @waits_of_advance _ auth input s c
  have hsub := @subscribed_of_advance _ auth input s c
  have hcheck := advance_checkBacklog auth input s c
  have hstage := advance_stage auth input s c
  obtain ⟨rx, deadline, me, heq, hdeadline, -, hrx⟩ := advance_eq auth input s c
  rw [heq] at hwaits hsub hcheck hstage ⊢
  refine ⟨?_, ?_, fun hs => ?_⟩
  · intro hs
    obtain hs | hs := hsub hs
    · exact hs
    · exact hrx (h.subscribed hs)
  · intro hs
    obtain hp | hp := hwaits hs
    · obtain ⟨n, hn⟩ | ⟨-, hd⟩ := hcheck hp
      · rw [hn] at hs
        cases hs
      · exact hd
    · have hne : s.me.pc ≠ .checkBacklog := fun hc => by rw [hc] at hp; cases hp
      simp only [hdeadline hne]
      exact h.timed hp
  · have hlt : s.me.pc.stage < 2 := by
      by_contra hge
      have := hstage.2.1 (by omega)
      simp only at hs this
      omega
    have hne : s.me.pc ≠ .checkBacklog := fun hc => by rw [hc] at hlt; simp [Pc.stage] at hlt
    simp only [hdeadline hne]
    exact h.untimed hlt.le

omit [Platform] in
/-- Back at the `select!`. -/
theorem Live.again (h : Live s) (hw : s.me.pc.waits = true) {rx : Option (Receiver BusEvent)} (hrx : rx.isSome = true)
    {me : Waiting} (hme : me.pc = .select) : Live { s with rx, me } :=
  ⟨fun _ => hrx, fun _ => h.timed hw, fun hs => by simp [hme, Pc.stage] at hs⟩

theorem Base.env (h : Base s) {s' : Net Waiting} (hme : s'.me = s.me) (hv : s'.pg.Valid)
    (hopen : s'.closed = false) (hrx : s.rx.isSome = true → s'.rx.isSome = true) (hd : s'.deadline = s.deadline)
    (hlate : s'.beforeDeadline = true → s.beforeDeadline = true) : Base s' where
  valid := hv
  isOpen := hopen
  subscribed hs := hrx (h.subscribed (hme ▸ hs))
  timed hs := hd ▸ h.timed (hme ▸ hs)
  untimed hs := hd ▸ h.untimed (hme ▸ hs)
  late m := (h.late m).imp hme hlate fun _ _ _ => .inr trivial

theorem Base.call (h : Base s) (auth : AuthCtx) (input : WaitInput) (c : Choice) : Base (advance auth input s c) := by
  have hcheck := advance_checkBacklog auth input s c
  have hlive := h.toLive.advance auth input c
  have hsure : s.me.pc ≠ .checkBacklog → ∀ m, Sure m (s.beforeDeadline = true) True (advance auth input s c) :=
    fun hp m => (h.late m).advance (fun hc => absurd hc hp) h.valid (fun _ => .inl trivial) h.isOpen
      (fun _ _ => .inl trivial) (fun _ _ => .inl trivial) c fun _ _ hd hU => by rw [hd] at hU; cases hU
  obtain ⟨rx, deadline, me, heq, hdeadline, -, -⟩ := advance_eq auth input s c
  rw [heq] at hlive hsure hcheck ⊢
  refine { toLive := hlive, valid := h.valid, isOpen := h.isOpen, late := fun m => ?_ }
  by_cases hp : s.me.pc = .checkBacklog
  · unfold Sure
    obtain ⟨n, hn⟩ | ⟨hn, -⟩ := hcheck hp
    · rw [hn]
      trivial
    · rw [hn]
      exact fun _ => .inr trivial
  · exact (hsure hp m).imp rfl (fun hd => by rwa [hdeadline hp] at hd) fun _ _ h => h

theorem Base.start {pg : Pg} (hv : pg.Valid) (behind clock : Nat) : Base (.start pg behind clock begin) where
  valid := hv
  isOpen := rfl
  subscribed h := by cases h
  timed h := by cases h
  untimed _ := rfl
  late _ := trivial

theorem Base.next (h : Base s) (auth : AuthCtx) (input : WaitInput) {e : Net.Step} (he : e ≠ .close) :
    Base (next auth input s e) := by
  cases e with
  | server e => exact h.env rfl (h.valid.next e) h.isOpen id rfl id
  | publish =>
    change Base s.publish
    obtain heq | ⟨fields, -, heq⟩ := Net.publish_eq h.isOpen
    · rwa [heq]
    · rw [heq]
      exact h.env rfl h.valid h.isOpen (by simp) rfl id
  | lose =>
    change Base (if s.upcoming.isSome then { s with heard := s.heard + 1 } else s)
    split
    · exact h.env rfl h.valid h.isOpen id rfl id
    · exact h
  | close => exact absurd rfl he
  | elapse d => exact h.env rfl h.valid h.isOpen id rfl Net.beforeDeadline_elapse
  | call c => exact h.call auth input c

section
variable {e : Net.Step}

theorem wants_of_qualifies {focus : Option Uuid} (h : qualifies auth input.kinds focus m.event = true) :
    wants input.kinds "message" = true := by
  simp only [qualifies, Message.event_kind, Bool.and_eq_true] at h
  exact h.1.1.2

theorem Kept.call (h : Kept auth input m s) {c : Choice} (ha : accepted auth input m s (.call c) = true) :
    Kept auth input m (advance auth input s c) := by
  have hwaits := @waits_of_advance _ auth input s c
  have hbase := h.toBase.call auth input c
  obtain ⟨rx, deadline, me, heq, -, hfocus, -⟩ := advance_eq auth input s c
  rw [heq] at hwaits hbase ⊢
  refine { toBase := hbase, accepts := fun hs => ?_ }
  obtain hp | hp := hwaits hs
  · simp only [accepted, hp, Bool.and_eq_true] at ha
    rw [hfocus (by simp [hp])]
    exact ha.2
  · have hne : s.me.pc ≠ .resolveFocus := fun hc => by rw [hc] at hp; cases hp
    rw [hfocus hne]
    exact h.accepts hp

theorem Kept.next (h : Kept auth input m s) (he : Fair auth input m s e) : Kept auth input m (next auth input s e) := by
  have hbase := h.toBase.next auth input fun heq : e = .close => by
    subst heq
    exact absurd he.delivers (by simp [delivers])
  have kept : ∀ {s' : Net Waiting}, Base s' → s'.me = s.me → Kept auth input m s' := fun hb hme =>
    { toBase := hb, accepts := fun hs => hme ▸ h.accepts (hme ▸ hs) }
  cases e with
  | call c => exact h.call he.accepted
  | publish =>
    refine kept hbase ?_
    change s.publish.me = s.me
    obtain heq | ⟨fields, -, heq⟩ := Net.publish_eq h.isOpen <;> rw [heq]
  | lose => exact absurd he.delivers (by simp [delivers])
  | close => exact absurd he.delivers (by simp [delivers])
  | server e => exact kept hbase rfl
  | elapse d => exact kept hbase rfl

theorem Kept.start {pg : Pg} (hv : pg.Valid) (behind clock : Nat) : Kept auth input m (.start pg behind clock begin) :=
  { toBase := Base.start hv behind clock, accepts := fun h => by cases h }

/-- What is queued stays queued while the hub publishes. -/
theorem Queued.send {fields : Payload} {n : Nat} (h : Queued m s) :
    Queued m { s with heard := n, rx := s.rx.map (·.send hubCapacity { fields }) } := by
  obtain ⟨r, hr, hp⟩ := h
  exact ⟨_, Option.mem_map_of_mem _ hr, hp.send _⟩

theorem not_queued_of_inTime (ha : qualifies auth input.kinds s.me.focus m.event = true) (hpc : s.me.pc = .select)
    (hd : s.beforeDeadline = false) (he : overtaken auth input s (.call .timer) = false) : ¬ Queued m s := by
  rintro ⟨r, hr, hp⟩
  simp only [overtaken, hpc, hd, Bool.not_false, Bool.true_and] at he
  have hr : s.rx = some r := hr
  rw [hr, Option.any_some, decide_eq_false_iff_not] at he
  exact he (hp.imp fun e heq => heq ▸ ha)

/-- A call that is sure of a message stays so. -/
theorem Kept.next_sure (h : Kept auth input m s) (he : Fair auth input m s e) (hm : m ∈ s.pg.db.messages)
    (hs : Sure m True False s) :
    m ∈ (Waiting.next auth input s e).pg.db.messages ∧ Sure m True False (Waiting.next auth input s e) := by
  cases e with
  | server e => exact ⟨Pg.next_keeps h.valid (by simpa [delivers] using he.delivers) hm, hs.imp rfl id fun _ _ h => h⟩
  | publish =>
    change m ∈ s.publish.pg.db.messages ∧ Sure m True False s.publish
    obtain heq | ⟨fields, -, heq⟩ := Net.publish_eq h.isOpen
    · rw [heq]
      exact ⟨hm, hs⟩
    · rw [heq]
      exact ⟨hm, hs.imp rfl id fun _ _ h => h.imp_left Queued.send⟩
  | lose => exact absurd he.delivers (by simp [delivers])
  | close => exact absurd he.delivers (by simp [delivers])
  | elapse d => exact ⟨hm, hs.imp rfl id fun _ _ h => h⟩
  | call c =>
    refine ⟨?_, ?_⟩
    · obtain ⟨rx, deadline, me, heq, -⟩ := advance_eq auth input s c
      change m ∈ (advance auth input s c).pg.db.messages
      rwa [heq]
    · have ha := he.accepted
      refine hs.advance (fun hp => ?_) h.valid (fun _ => .inr hm) h.isOpen (fun hp _ => .inr ?_)
        (fun hp _ => .inr (h.accepts (by rw [hp]; rfl))) c fun hc hp hd _ => ⟨?_, id⟩
      · simp only [accepted, hp, Bool.and_eq_true] at ha
        exact wants_of_qualifies ha.2
      · simp only [accepted, hp, Bool.and_eq_true] at ha
        exact ha.1
      · exact not_queued_of_inTime (h.accepts (by rw [hp]; rfl)) hp hd (hc ▸ he.inTime)

/-- From the moment that the message reaches it, the call is sure of it. -/
theorem Kept.sure_of_reaches (h : Kept auth input m s) (he : Fair auth input m s e) (hr : reaches m s e = true) :
    m ∈ (Waiting.next auth input s e).pg.db.messages ∧ Sure m True False (Waiting.next auth input s e) := by
  cases e with
  | publish =>
    simp only [reaches, Bool.and_eq_true, beq_iff_eq, List.contains_iff_mem] at hr
    obtain ⟨⟨hup, hd⟩, hm⟩ := hr
    change m ∈ s.publish.pg.db.messages ∧ Sure m True False s.publish
    have heq : s.publish = { s with heard := s.heard + 1, rx := s.rx.map (·.send hubCapacity m.event) } := by
      simp [Net.publish, hup, h.isOpen, Message.event]
    rw [heq]
    refine ⟨hm, ?_⟩
    cases hrx : s.rx with
    | some r => exact (h.late m).imp rfl (fun _ => hd) fun _ _ _ => .inl ⟨_, rfl, Receiver.pending_send rfl⟩
    | none =>
      have hsub := h.subscribed
      rw [hrx] at hsub
      unfold Sure
      cases hpc : s.me.pc with
      | resolveFocus => trivial
      | subscribe => trivial
      | _ => simp [hpc, Pc.subscribed] at hsub
  | call c =>
    unfold reaches at hr
    cases hp : s.me.pc with
    | checkBacklog =>
      simp only [hp, List.contains_iff_mem] at hr
      exact h.next_sure he hr (by unfold Sure; rw [hp]; trivial)
    | _ => simp [hp] at hr
  | _ => cases hr

end

end Waiting
end CrewSync
