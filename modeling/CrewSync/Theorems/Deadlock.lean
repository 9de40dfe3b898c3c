import CrewSync.Footprint.Calls
import CrewSync.Footprint.PostThreads
import Mathlib.Algebra.Order.BigOperators.Group.Finset
import Mathlib.Logic.Relation

/-! Posts with files, statement by statement. The `INSERT` of a message shares the row of its team, and the
    quota check then wants the row for itself: two posts that both share it wait for each other. Where none
    inserts its message while another shares the row, all of them commit. -/

namespace CrewSync
open Threads
variable [Platform]

/-- The bytes of the files that the call posts. -/
def Call.bytes : Call → Int
  | .postMessage input => sizes input.attachments
  | _ => 0

namespace Concurrent

/-- A lock of the thread `j` keeps the thread `i` from its next statement. -/
def waits (s : State) (i j : Nat) : Bool :=
  match s.threads[i]? with
  | some (_, .act _ ready _ _) => !ready { s.shared with teamLocks := s.shared.teamLocks.filter (·.pid == j) }
  | _ => false

/-- Posts with files, each of which would succeed alone, and the time that passes. -/
def Step.posts (pg : Pg) : Step → Prop
  | .call auth c => ∃ input, c = .postMessage input ∧ input.attachments ≠ [] ∧ (pg.call auth 0 c).1.isOk
  | .turn _ | .server (.tick _) => True
  | .server _ => False

/-- The bytes that the step sets out to add to the team. -/
def Step.bytes (team : Uuid) : Step → Int
  | .call auth c => if auth.teamId = team then c.bytes else 0
  | _ => 0

theorem Step.bytes_nonneg {pg : Pg} {step : Step} (h : step.posts pg) (team : Uuid) : 0 ≤ step.bytes team := by
  cases step with
  | call auth c =>
    obtain ⟨input, rfl, -⟩ := h
    have hbytes : 0 ≤ (Call.postMessage input).bytes := sizes_nonneg _
    simp only [Step.bytes]
    split
    · exact hbytes
    · exact le_rfl
  | turn | server => exact le_rfl

/-- A post whose `INSERT` of the message goes through finds no lock of another on the row of its team. -/
def Alone (s : State) : Step → Prop
  | .turn i => ∀ t ∈ s.threads[i]?, t.2.next? = some (.tx (.insert .messages)) →
      s.shared.canLock i t.1.1.teamId .keyShare = true → ∀ l ∈ s.shared.teamLocks, l.team = t.1.1.teamId → l.pid = i
  | _ => True

instance decidableAlone (s : State) : ∀ step, Decidable (Alone s step)
  | .turn _ => inferInstanceAs (Decidable (∀ t ∈ _, _))
  | .call .. | .server _ => isTrue trivial

/-- The protocol of a thread, in runs of posts from the tables `base`. -/
def posting (base : Pg) (i : Nat) (who : AuthCtx × Call) : Protocol Stmt Pg PostPhase :=
  postProtocol base i who.1.teamId who.2.bytes

/-- The bytes that the post is still to add to the team. -/
def due (s : State) (phase : Nat → PostPhase) (team : Uuid) (i : Nat) : Int :=
  match s.who? i with
  | some who => if who.1.teamId = team then (phase i).due who.2.bytes else 0
  | none => 0

/-- How far the posts of a run from `base` have come; the steps to come set out to add `future` bytes to a team. -/
structure Posts (base : Pg) (future : Uuid → Int) (s : State) (phase : Nat → PostPhase) : Prop where
  kept : base.db.Posting s.shared.db
  obeys : Obeys (posting base) (Bus.Ends (fun _ => False) fun _ => (· = .committed)) s phase
  holds : ∀ i who p, s.threads[i]? = some (who, p) → (phase i).Holds i who.1.teamId s.shared.teamLocks
  bytes : ∀ i who, s.who? i = some who → 0 ≤ who.2.bytes
  owned : ∀ l ∈ s.shared.teamLocks, l.pid < s.threads.length
  /-- The row of a team is never shared. -/
  serial : ∀ l ∈ s.shared.teamLocks, ∀ l' ∈ s.shared.teamLocks, l.team = l'.team → l.pid = l'.pid
  room : ∀ team t, base.db.findTeam team = some t → ∀ limit ∈ t.attachmentBytesLimit,
    s.shared.db.attachmentBytes team + ∑ i ∈ Finset.range s.threads.length, due s phase team i + future team ≤ limit

namespace Posts
variable {base : Pg} {future : Uuid → Int} {s : State} {phase : Nat → PostPhase}

omit [Platform] in
theorem due_nonneg (h : Posts base future s phase) (team : Uuid) (i : Nat) : 0 ≤ due s phase team i := by
  unfold due
  cases hi : s.who? i with
  | none => exact le_rfl
  | some who =>
    have := h.bytes i who hi
    simp only
    split
    · cases phase i <;> simp only [PostPhase.due] <;> omega
    · exact le_rfl

omit [Platform] in
/-- What a post counts on: the quota has room for its files beside those of the others. -/
theorem sure (h : Posts base future s phase) (hfuture : ∀ team, 0 ≤ future team) :
    Sure (Concurrent.posting base) s phase := by
  intro i who p hi
  refine ⟨h.kept, h.holds i who p hi, fun t ht limit hl => ?_⟩
  have hlt : i ∈ Finset.range s.threads.length := Finset.mem_range.2 (List.getElem?_eq_some_iff.1 hi).1
  have hdue : due s phase who.1.teamId i = (phase i).due who.2.bytes := by
    simp only [due, Conf.who?, hi, Option.map_some, if_true]
  have hle := Finset.single_le_sum (fun j _ => h.due_nonneg who.1.teamId j) hlt
  have hroom := h.room who.1.teamId t ht limit hl
  have := hfuture who.1.teamId
  rw [hdue] at hle
  omega

omit [Platform] in
theorem start {pg : Pg} (hlocks : pg.teamLocks = [])
    (hroom : ∀ team t, pg.db.findTeam team = some t → ∀ limit ∈ t.attachmentBytesLimit,
      pg.db.attachmentBytes team + future team ≤ limit) : Posts pg future (start pg) fun _ => .reading where
  kept := .refl _
  obeys i who p hi := by simp [Concurrent.start] at hi
  holds i who p hi := by simp [Concurrent.start] at hi
  bytes i who hi := by simp [Concurrent.start, Conf.who?] at hi
  owned l hl := by simp [Concurrent.start, hlocks] at hl
  serial l hl := by simp [Concurrent.start, hlocks] at hl
  room team t ht limit hl := by
    have := hroom team t ht limit hl
    simpa [Concurrent.start] using this

omit [Platform] in
/-- What a turn adds to the tables, the posts owe no more. -/
theorem sum_due_turn {i : Nat} {who : AuthCtx × Call} {l : Stmt} {g' : PostPhase} (hi : s.who? i = some who)
    (hstep : PostStep i who.1.teamId who.2.bytes (phase i) l s.shared g' (s.sched i).shared) (team : Uuid) :
    (s.sched i).shared.db.attachmentBytes team +
        ∑ j ∈ Finset.range s.threads.length, due (s.sched i) (Function.update phase i g') team j =
      s.shared.db.attachmentBytes team + ∑ j ∈ Finset.range s.threads.length, due s phase team j := by
  have hmem : i ∈ Finset.range s.threads.length := by
    obtain ⟨t, ht, -⟩ := Option.map_eq_some_iff.1 hi
    exact Finset.mem_range.2 (List.getElem?_eq_some_iff.1 ht).1
  have hothers : ∑ j ∈ (Finset.range s.threads.length).erase i, due (s.sched i) (Function.update phase i g') team j =
      ∑ j ∈ (Finset.range s.threads.length).erase i, due s phase team j :=
    Finset.sum_congr rfl fun j hj => by
      simp only [due, Conf.who?_sched, Function.update_of_ne (Finset.ne_of_mem_erase hj)]
  have hself : due (s.sched i) (Function.update phase i g') team i =
      if team = who.1.teamId then g'.due who.2.bytes else 0 := by
    simp only [due, Conf.who?_sched, hi, Function.update_self, eq_comm]
  have hold : due s phase team i = if team = who.1.teamId then (phase i).due who.2.bytes else 0 := by
    simp only [due, hi, eq_comm]
  have hbytes := hstep.bytes team
  have hafter := Finset.add_sum_erase _ (fun j => due (s.sched i) (Function.update phase i g') team j) hmem
  have hbefore := Finset.add_sum_erase _ (fun j => due s phase team j) hmem
  simp only [hself, hold, hothers] at hafter hbefore
  omega

omit [Platform] in
/-- A turn: nothing, or a statement of the post; under the condition the row of a team stays unshared. -/
theorem turn (h : Posts base future s phase) (hfuture : ∀ team, 0 ≤ future team) {i : Nat} (halone : Alone s (.turn i)) :
    ∃ phase', Posts base future (s.sched i) phase' ∧
      ∀ l : TeamLock, l.pid ≠ i → (l ∈ (s.sched i).shared.teamLocks ↔ l ∈ s.shared.teamLocks) := by
  rcases h.obeys.sched (h.sure hfuture) i with heq | ⟨who, p, l, g', hi, hl, hready, hstep, hobeys⟩
  · rw [heq]
    exact ⟨phase, h, fun _ _ => .rfl⟩
  have hwho : s.who? i = some who := by simp only [Conf.who?, hi, Option.map_some]
  have hstep : PostStep i who.1.teamId who.2.bytes (phase i) l s.shared g' (s.sched i).shared := hstep
  -- Once the post holds locks, nobody else holds any on its team.
  have hown : g' = .storing → ∀ x ∈ s.shared.teamLocks, x.team = who.1.teamId → x.pid = i := by
    intro hg x hx hteam
    rcases hstep.first hg with hstoring | rfl
    · have hholds := h.holds i who p hi
      rw [hstoring] at hholds
      obtain ⟨⟨y, hy, hpid⟩, hall⟩ := hholds
      rw [h.serial x hx y hy (hteam.trans (hall y hy hpid).symm), hpid]
    · exact halone _ hi hl hready x hx hteam
  have hteams : ∀ x ∈ (s.sched i).shared.teamLocks, x.pid = i → g' = .storing ∧ x.team = who.1.teamId := by
    intro x hx hpid
    have hholds := hstep.holds
    cases g' with
    | storing => exact ⟨rfl, hholds.2 x hx hpid⟩
    | reading | begun | committed => exact absurd hpid (hholds x hx)
  refine ⟨_, ⟨h.kept.trans hstep.posting, hobeys, fun j who' p' hj => ?_, fun j who' hj => ?_, fun x hx => ?_,
    fun x hx y hy hxy => ?_, fun team t ht limit hlimit => ?_⟩, hstep.others⟩
  · obtain ⟨q, hq, -⟩ := Conf.sched_threads hj
    by_cases hij : j = i
    · subst hij
      rw [hi] at hq
      cases hq
      rw [Function.update_self]
      exact hstep.holds
    · have hholds := h.holds j who' q hq
      have hiff : ∀ x : TeamLock, x.pid = j → (x ∈ (s.sched i).shared.teamLocks ↔ x ∈ s.shared.teamLocks) :=
        fun x hx => hstep.others x (by rw [hx]; exact hij)
      rw [Function.update_of_ne hij]
      cases hg : phase j with
      | storing =>
        rw [hg] at hholds
        obtain ⟨⟨x, hx, hpid⟩, hall⟩ := hholds
        exact ⟨⟨x, (hiff x hpid).2 hx, hpid⟩, fun y hy hp => hall y ((hiff y hp).1 hy) hp⟩
      | reading | begun | committed =>
        rw [hg] at hholds
        exact fun x hx hp => hholds x ((hiff x hp).1 hx) hp
  · exact h.bytes j who' (by rwa [Conf.who?_sched] at hj)
  · rw [Conf.length_sched]
    by_cases hpid : x.pid = i
    · rw [hpid]
      exact (List.getElem?_eq_some_iff.1 hi).1
    · exact h.owned x ((hstep.others x hpid).1 hx)
  · by_cases hx' : x.pid = i <;> by_cases hy' : y.pid = i
    · rw [hx', hy']
    · obtain ⟨hg, hteam⟩ := hteams x hx hx'
      exact absurd (hown hg y ((hstep.others y hy').1 hy) (hxy.symm.trans hteam)) hy'
    · obtain ⟨hg, hteam⟩ := hteams y hy hy'
      exact absurd (hown hg x ((hstep.others x hx').1 hx) (hxy.trans hteam)) hx'
    · exact h.serial x ((hstep.others x hx').1 hx) y ((hstep.others y hy').1 hy) hxy
  · rw [Conf.length_sched, sum_due_turn hwho hstep]
    exact h.room team t ht limit hlimit

omit [Platform] in
theorem mono (h : Posts base future s phase) (future' : Uuid → Int) (hle : ∀ team, future' team ≤ future team) :
    Posts base future' s phase :=
  { h with
    room := fun team t ht limit hl => by
      have := h.room team t ht limit hl
      have := hle team
      omega }

theorem call (h : Posts base future s phase) (hv : base.Valid) {auth : AuthCtx} {c : Call}
    (hpost : Step.posts base (.call auth c)) {future' : Uuid → Int}
    (hfuture : ∀ team, future team = (Step.call auth c).bytes team + future' team) :
    ∃ phase', Posts base future' (next s (.call auth c)) phase' := by
  obtain ⟨input, rfl, -, hr⟩ := hpost
  have hbytes : 0 ≤ (Call.postMessage input).bytes := sizes_nonneg _
  simp only [next]
  split
  case isFalse =>
    refine ⟨phase, h.mono future' fun team => ?_⟩
    rw [hfuture, Step.bytes]
    split <;> omega
  have hok : Bus.Succeeds base (postMessage auth 0 input) := by
    simp only [Pg.call] at hr
    split at hr
    · have hmap : ((Call.run auth 0 (.postMessage input)).exec base).1 =
          ((postMessage auth 0 input).exec base).1.map .posted := by rw [Call.run, Bus.exec_map]
      rw [hmap] at hr
      cases hpost : ((postMessage auth 0 input).exec base).1 with
      | ok a => exact ⟨a, hpost⟩
      | error e =>
        rw [hpost] at hr
        cases hr
    · cases hr
  have hprog : Bus.Follows (Concurrent.posting base s.threads.length (auth, .postMessage input)) (fun _ => False)
      (fun _ => (· = .committed)) (Call.run auth s.threads.length (.postMessage input)) .reading :=
    (postMessage_follows s.threads.length hv input hok).map fun _ _ h => h
  have hobeys := h.obeys.spawn (auth, .postMessage input) hprog.run
  refine ⟨_, h.kept, hobeys, fun i who p hi => ?_, fun i who hi => ?_, fun l hl => ?_, h.serial, fun team t ht limit hl => ?_⟩
  · rcases Conf.spawn_threads hi with hi | ⟨rfl, rfl, -⟩
    · rw [Function.update_of_ne (Nat.ne_of_lt (List.getElem?_eq_some_iff.1 hi).1)]
      exact h.holds i who p hi
    · rw [Function.update_self]
      exact fun l hl => Nat.ne_of_lt (h.owned l hl)
  · obtain ⟨t, ht, rfl⟩ := Option.map_eq_some_iff.1 hi
    rcases Conf.spawn_threads ht with hi | ⟨-, hwho, -⟩
    · exact h.bytes i _ (by simp only [Conf.who?, hi, Option.map_some])
    · rw [hwho]
      exact hbytes
  · have := h.owned l hl
    simp only [Conf.spawn, List.length_append, List.length_singleton]
    omega
  · have hroom := h.room team t ht limit hl
    have hold : ∑ j ∈ Finset.range s.threads.length,
        due (s.spawn (auth, .postMessage input) (Call.run auth s.threads.length (.postMessage input)).run)
          (Function.update phase s.threads.length .reading) team j =
        ∑ j ∈ Finset.range s.threads.length, due s phase team j :=
      Finset.sum_congr rfl fun j hj => by
        have hlt := Finset.mem_range.1 hj
        simp only [due, Conf.who?_spawn_of_lt hlt, Function.update_of_ne (Nat.ne_of_lt hlt)]
    have hlen : (s.spawn (auth, .postMessage input)
        (Call.run auth s.threads.length (.postMessage input)).run).threads.length = s.threads.length + 1 := by
      simp [Conf.spawn]
    have hself : due (s.spawn (auth, .postMessage input) (Call.run auth s.threads.length (.postMessage input)).run)
        (Function.update phase s.threads.length .reading) team s.threads.length =
        (Step.call auth (.postMessage input)).bytes team := by
      simp only [due, Conf.who?_spawn_self, Function.update_self, PostPhase.due, Step.bytes]
    have hdb : (s.spawn (auth, .postMessage input)
        (Call.run auth s.threads.length (.postMessage input)).run).shared = s.shared := rfl
    rw [hlen, Finset.sum_range_succ, hold, hself, hdb]
    rw [hfuture] at hroom
    omega

/-- Every step of a run of posts. -/
theorem next {step : Step} (h : Posts base (fun team => step.bytes team + future team) s phase) (hv : base.Valid)
    (hfuture : ∀ team, 0 ≤ future team) (hpost : step.posts base) (halone : Alone s step) :
    ∃ phase', Posts base future (Concurrent.next s step) phase' := by
  cases step with
  | call auth c => exact h.call hv hpost fun _ => rfl
  | turn i =>
    obtain ⟨phase', h', -⟩ := (h.mono future fun team => by simp [Step.bytes]).turn hfuture halone
    exact ⟨phase', h'⟩
  | server e =>
    cases e with
    | tick d =>
      have h := h.mono future fun team => by simp [Step.bytes]
      exact ⟨phase, h.kept, h.obeys, h.holds, h.bytes, h.owned, h.serial, h.room⟩
    | _ => cases hpost

theorem after {steps : List Step} (h : Posts base (fun team => (steps.map (Step.bytes team)).sum) s phase)
    (hv : base.Valid) (hposts : ∀ step ∈ steps, step.posts base) (halone : Runs.Along Concurrent.next Alone s steps) :
    ∃ phase', Posts base (fun _ => 0) (Concurrent.after s steps) phase' := by
  induction steps generalizing s phase with
  | nil => exact ⟨phase, h⟩
  | cons step steps ih =>
    have hrest : ∀ step ∈ steps, step.posts base := fun step hs => hposts step (List.mem_cons_of_mem _ hs)
    have hnonneg : ∀ team, 0 ≤ (steps.map (Step.bytes team)).sum := by
      intro team
      refine List.sum_nonneg fun b hb => ?_
      obtain ⟨step, hs, rfl⟩ := List.mem_map.1 hb
      exact Step.bytes_nonneg (hrest step hs) team
    simp only [List.map_cons, List.sum_cons] at h
    obtain ⟨phase', h'⟩ := h.next hv hnonneg (hposts step List.mem_cons_self) halone.1
    exact ih h' hrest halone.2

/-! ### Nobody waits in a circle -/

omit [Platform] in
/-- Who waits holds no lock, and who is waited for holds one. -/
theorem waits_locks (h : Posts base future s phase) {i j : Nat} (hwaits : waits s i j = true) :
    (∀ l ∈ s.shared.teamLocks, l.pid ≠ i) ∧ ∃ l ∈ s.shared.teamLocks, l.pid = j := by
  unfold waits at hwaits
  split at hwaits
  case h_2 => cases hwaits
  next who l ready eff rest hi =>
  obtain ⟨hguard, -⟩ := h.obeys i who _ hi
  -- The lock in the way is on the row of the team of the one who waits.
  have hlock : ∃ x ∈ s.shared.teamLocks, x.pid = j ∧ x.team = who.1.teamId ∧ x.pid ≠ i := by
    by_contra hnone
    push Not at hnone
    rw [hguard] at hwaits
    have hready : postReady i who.1.teamId l
        { s.shared with teamLocks := s.shared.teamLocks.filter (·.pid == j) } = true :=
      postReady_of_own (fun x hx hteam => by
        obtain ⟨hx, hpid⟩ := List.mem_filter.1 hx
        exact hnone x hx (by simpa using hpid) hteam) l
    have hblocked : (!postReady i who.1.teamId l
        { s.shared with teamLocks := s.shared.teamLocks.filter (·.pid == j) }) = true := hwaits
    rw [hready] at hblocked
    cases hblocked
  obtain ⟨x, hx, hpid, hteam, hne⟩ := hlock
  have hholds := h.holds i who _ hi
  cases hg : phase i with
  | storing =>
    rw [hg] at hholds
    obtain ⟨⟨y, hy, hyi⟩, hall⟩ := hholds
    exact absurd ((h.serial x hx y hy (hteam.trans (hall y hy hyi).symm)).trans hyi) hne
  | reading | begun | committed =>
    rw [hg] at hholds
    exact ⟨hholds, x, hx, hpid⟩

omit [Platform] in
theorem not_waits_cycle (h : Posts base future s phase) (i : Nat) :
    ¬ Relation.TransGen (fun i j => waits s i j = true) i i := by
  intro hcycle
  obtain ⟨j, hij, -⟩ := Relation.TransGen.head'_iff.1 hcycle
  obtain ⟨k, -, hki⟩ := Relation.TransGen.tail'_iff.1 hcycle
  obtain ⟨l, hl, hpid⟩ := (h.waits_locks hki).2
  exact (h.waits_locks hij).1 l hl hpid

/-! ### Everyone gets through -/

omit [Platform] in
/-- A post that has returned has answered. -/
theorem answered (h : Posts base future s phase) {i : Nat} {who : AuthCtx × Call} {r : Except BusError Reply}
    (hi : s.threads[i]? = some (who, .ret r)) : phase i = .committed ∧ ∃ reply, r = .ok reply := by
  have hends : Bus.Ends (fun _ => False) (fun _ => (· = .committed)) r (phase i) := h.obeys i who _ hi
  cases r with
  | ok reply => exact ⟨hends, reply, rfl⟩
  | error e => exact hends.elim

/-- A post that alone holds locks on its team gets through without the others. -/
theorem finish_one (h : Posts base (fun _ => 0) s phase) {i : Nat} {who : AuthCtx × Call}
    {p : Prog Stmt Pg (Except BusError Reply)} (hi : s.threads[i]? = some (who, p))
    (hown : ∀ l ∈ s.shared.teamLocks, l.team = who.1.teamId → l.pid = i) :
    ∃ n phase' reply, let turns := List.replicate n (.turn i)
      Runs.Along Concurrent.next Alone s turns ∧ Posts base (fun _ => 0) (Concurrent.after s turns) phase' ∧
        (Concurrent.after s turns).threads = s.threads.set i (who, .ret (.ok reply)) := by
  induction p generalizing s phase with
  | ret r =>
    obtain ⟨-, reply, rfl⟩ := h.answered hi
    obtain ⟨hlt, hget⟩ := List.getElem?_eq_some_iff.1 hi
    refine ⟨0, phase, reply, trivial, h, ?_⟩
    rw [← hget, List.set_getElem_self]
    rfl
  | act l ready eff rest ih =>
    have hready : ready s.shared = true := by
      rw [(h.obeys i who _ hi).1]
      exact postReady_of_own hown l
    have halone : Alone s (.turn i) := by
      intro t ht _ _
      rw [hi] at ht
      cases ht
      exact hown
    obtain ⟨phase', h', hothers⟩ := h.turn (fun _ => le_rfl) halone
    have hsched := Conf.sched_act hi hready
    have hi' : (s.sched i).threads[i]? = some (who, rest s.shared) := by
      rw [hsched]
      exact List.getElem?_set_self (List.getElem?_eq_some_iff.1 hi).1
    obtain ⟨n, phase'', reply, halong, h'', hthreads⟩ := ih s.shared h' hi' fun l hl hteam => by
      by_contra hne
      exact hne (hown l ((hothers l hne).1 hl) hteam)
    refine ⟨n + 1, phase'', reply, ⟨halone, halong⟩, h'', ?_⟩
    have hset : (s.sched i).threads.set i (who, .ret (.ok reply)) = s.threads.set i (who, .ret (.ok reply)) := by
      rw [hsched, List.set_set]
    exact hthreads.trans hset

omit [Platform] in
/-- Where some post has not returned, one that has not alone holds locks on its team, if anyone does. -/
theorem exists_own (h : Posts base future s phase) (hopen : ∃ t ∈ s.threads, t.2.result? = none) :
    ∃ i who p, s.threads[i]? = some (who, p) ∧ p.result? = none ∧
      ∀ l ∈ s.shared.teamLocks, l.team = who.1.teamId → l.pid = i := by
  by_cases hlocks : ∃ x, x ∈ s.shared.teamLocks
  · obtain ⟨x, hx⟩ := hlocks
    cases hi : s.threads[x.pid]? with
    | none => exact absurd (List.getElem?_eq_none_iff.1 hi) (Nat.not_le_of_lt (h.owned x hx))
    | some t =>
      obtain ⟨who, p⟩ := t
      have hholds := h.holds x.pid who p hi
      cases hg : phase x.pid with
      | storing =>
        rw [hg] at hholds
        refine ⟨x.pid, who, p, hi, ?_, fun l hl hteam => h.serial l hl x hx (hteam.trans (hholds.2 x hx rfl).symm)⟩
        cases p with
        | ret r =>
          obtain ⟨hcommitted, -⟩ := h.answered hi
          rw [hg] at hcommitted
          cases hcommitted
        | act => rfl
      | reading | begun | committed =>
        rw [hg] at hholds
        exact absurd rfl (hholds x hx)
  · obtain ⟨⟨who, p⟩, ht, hp⟩ := hopen
    obtain ⟨i, hi⟩ := List.mem_iff_getElem?.1 ht
    exact ⟨i, who, p, hi, hp, fun l hl => absurd ⟨l, hl⟩ hlocks⟩

/-- One post after the other gets through. -/
theorem finish (h : Posts base (fun _ => 0) s phase) :
    ∃ turns : List Nat, Runs.Along Concurrent.next Alone s (turns.map .turn) ∧
      ∀ t ∈ (Concurrent.after s (turns.map .turn)).threads, ∃ reply, t.2.result? = some (.ok reply) := by
  induction hn : s.threads.countP (fun t => t.2.result?.isNone) generalizing s phase with
  | zero =>
    refine ⟨[], trivial, fun t ht => ?_⟩
    obtain ⟨i, hi⟩ := List.mem_iff_getElem?.1 ht
    obtain ⟨who, p⟩ := t
    cases p with
    | ret r =>
      obtain ⟨-, reply, rfl⟩ := h.answered hi
      exact ⟨reply, rfl⟩
    | act => exact absurd rfl (List.countP_eq_zero.1 hn _ ht)
  | succ n ih =>
    have hopen : ∃ t ∈ s.threads, t.2.result? = none := by
      obtain ⟨t, ht, hnone⟩ := List.countP_pos_iff.1 (by rw [hn]; exact Nat.succ_pos n)
      exact ⟨t, ht, Option.isNone_iff_eq_none.1 hnone⟩
    obtain ⟨i, who, p, hi, hp, hown⟩ := h.exists_own hopen
    obtain ⟨k, phase', reply, halong, h', hthreads⟩ := h.finish_one hi hown
    have hlt := (List.getElem?_eq_some_iff.1 hi).1
    have hcount : (Concurrent.after s (List.replicate k (.turn i))).threads.countP (fun t => t.2.result?.isNone) = n := by
      have hget : s.threads[i] = (who, p) := (List.getElem?_eq_some_iff.1 hi).2
      have hdone : (Prog.ret (.ok reply) : Prog Stmt Pg (Except BusError Reply)).result?.isNone = false := rfl
      rw [hthreads, List.countP_set hlt, hget, hn]
      simp [hp, hdone]
    obtain ⟨turns, halong', hdone⟩ := ih h' hcount
    refine ⟨List.replicate k i ++ turns, ?_, ?_⟩
    · rw [List.map_append, List.map_replicate]
      exact Runs.along_append.2 ⟨halong, halong'⟩
    · rw [List.map_append, List.map_replicate, Concurrent.after, Runs.after_append]
      exact hdone

end Posts

/-- Where no post inserts its message while another post of the team shares the row of the team, no posts wait for
    each other in a circle, and all of them can run to completion. -/
theorem posts_commit {pg : Pg} (hv : pg.Valid) (hlocks : pg.teamLocks = []) {steps : List Step}
    (hposts : ∀ step ∈ steps, step.posts pg)
    (hadmits : ∀ t ∈ pg.db.teams, ∀ limit ∈ t.attachmentBytesLimit,
      pg.db.attachmentBytes t.id + (steps.map (Step.bytes t.id)).sum ≤ limit)
    (halone : Runs.Along next Alone (start pg) steps) :
    let s := after (start pg) steps
    (∀ i, ¬ Relation.TransGen (fun i j => waits s i j = true) i i) ∧
      ∃ turns : List Nat, ∀ t ∈ (after s (turns.map .turn)).threads, ∃ reply, t.2.result? = some (.ok reply) := by
  have hstart : Posts pg (fun team => (steps.map (Step.bytes team)).sum) (start pg) fun _ => .reading :=
    Posts.start hlocks fun team t ht limit hl => by
      have hid : t.id = team := by simpa using List.find?_some ht
      exact hid ▸ hadmits t (List.mem_of_find?_eq_some ht) limit hl
  obtain ⟨phase, h⟩ := hstart.after hv hposts halone
  obtain ⟨turns, -, hdone⟩ := h.finish
  exact ⟨h.not_waits_cycle, turns, hdone⟩

end Concurrent
end CrewSync

namespace CrewSync.Concurrent
open Sample
attribute [local instance] Platform.ascii

/-- The crew has a channel and room for two bytes of files. -/
def ops : Pg :=
  (Pg.init 0).after (crew ++ [.command 0 (.teamQuota "core" (some 2)), .call ann 0 (.createChannel "ops" none)])

theorem ops_valid : ops.Valid := (Pg.Valid.init 0).after _

def upload : Call :=
  .postMessage ⟨some "ops", none, false, "the log", none, none, [⟨"log.txt", "text/plain", [1], by decide, by decide⟩]⟩

theorem turn_posts (i : Nat) : (Step.turn i).posts ops := trivial

theorem ann_posts : (Step.call ann upload).posts ops := ⟨_, rfl, by simp, by decide⟩

theorem bob_posts : (Step.call bob upload).posts ops := ⟨_, rfl, by simp, by decide⟩

/-- Ann posts up to the quota check, and bob up to his message, whose `INSERT` waits for her. -/
def queued : List Step :=
  [.call ann upload, .call bob upload] ++ List.replicate 5 (.turn 0) ++ List.replicate 4 (.turn 1)

theorem queued_commit :
    let s := after (start ops) queued
    (∀ i, ¬ Relation.TransGen (fun i j => waits s i j = true) i i) ∧
      ∃ turns : List Nat, ∀ t ∈ (after s (turns.map .turn)).threads, ∃ reply, t.2.result? = some (.ok reply) :=
  @posts_commit Platform.ascii ops ops_valid (by decide) queued
    (by simp [queued, ann_posts, bob_posts, turn_posts]) (by decide) (by decide)

/-- Ann and bob both insert their messages, and each then wants the row of the team for the quota check. -/
def racing : List Step :=
  [.call ann upload, .call bob upload] ++ List.replicate 4 (.turn 0) ++ List.replicate 4 (.turn 1)

theorem racing_waits :
    (∀ step ∈ racing, step.posts ops) ∧
      (∀ t ∈ ops.db.teams, ∀ limit ∈ t.attachmentBytesLimit,
        ops.db.attachmentBytes t.id + (racing.map (Step.bytes t.id)).sum ≤ limit) ∧
      waits (after (start ops) racing) 0 1 = true ∧ waits (after (start ops) racing) 1 0 = true := by
  refine ⟨?_, by decide, by decide, by decide⟩
  simp [racing, ann_posts, bob_posts, turn_posts]

end CrewSync.Concurrent
