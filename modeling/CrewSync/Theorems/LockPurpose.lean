import CrewSync.Theorems.LockExclusion

/-! Whose words the purpose of a lock are: those of its holder, unless the lock was taken over without a
    purpose from a holder who had stated one. -/

namespace CrewSync

def Lock.holder (l : Lock) : Identity := (some l.holderAgentId, l.holderSession.getD "")

namespace Pg

/-- The lock is in the hands of `i`. -/
def inHands (team : Uuid) (name : String) (i : Identity) (pg : Pg) : Prop := ∃ l ∈ pg.db.findLock team name, l.holder = i

section
variable [Platform]

/-- The event takes the lock for `i` with the purpose `p`. -/
def states (team : Uuid) (name : String) (i : Identity) (p : String) (pg : Pg) (e : Event) : Prop :=
  pg.lockTaken team name e = true ∧
    ∃ auth pid raw ttl, e = .call auth pid (.acquireLock raw ttl (some p)) ∧ auth.identity = i

/-- In the run the holder of the lock itself passed the purpose to `acquire_lock`, and it has held the lock
    ever since. -/
def Stated (now : Time) (es : List Event) (l : Lock) (p : String) : Prop :=
  Runs.Since next (states l.teamId l.name l.holder p) (inHands l.teamId l.name l.holder) (Pg.init now) es

/-- After the run every purpose is its holder's own. -/
def OwnPurposes (now : Time) (es : List Event) : Prop :=
  ∀ l ∈ ((Pg.init now).after es).db.locks, ∀ p ∈ l.purpose, Stated now es l p

/-- The event takes over an expired lock of somebody else that has `q`. -/
def overtakes (pg : Pg) (q : Lock → Bool) : Event → Bool
  | .call auth _ (.acquireLock raw _ _) => auth.authentic pg.db &&
      match normalizeName raw with
      | .ok name => (pg.db.findLock auth.teamId name).any fun l =>
          l.expiresAt < pg.now && l.holder != auth.identity && q l
      | .error _ => false
  | _ => false

/-- The event takes over such a lock that has a purpose, and states none. -/
def inherits (pg : Pg) : Event → Bool
  | .call auth pid (.acquireLock raw ttl none) =>
    pg.overtakes (·.purpose.isSome) (.call auth pid (.acquireLock raw ttl none))
  | _ => false

variable {pg : Pg} {now : Time} {es : List Event} {e : Event}

/-- A takeover: the row that the caller finds, and the call. -/
structure Takeover (pg : Pg) (auth : AuthCtx) (raw name : String) (l : Lock) : Prop where
  authentic : auth.authentic pg.db = true
  raw : normalizeName raw = .ok name
  row : pg.db.findLock auth.teamId name = some l
  past : l.expiresAt < pg.now
  other : l.holder ≠ auth.identity

theorem overtakes_iff {q : Lock → Bool} {auth : AuthCtx} {pid : Nat} {raw : String} {ttl : Option Int}
    {purpose : Option String} : pg.overtakes q (.call auth pid (.acquireLock raw ttl purpose)) = true ↔
      ∃ name l, Takeover pg auth raw name l ∧ q l = true := by
  simp only [overtakes, Bool.and_eq_true]
  constructor
  · rintro ⟨ha, h⟩
    split at h
    · next name hraw =>
      obtain ⟨l, hl, hq⟩ := (Option.any_eq_true _ _).1 h
      simp only [Bool.and_eq_true, decide_eq_true_eq, bne_iff_ne] at hq
      exact ⟨name, l, ⟨ha, hraw, hl, hq.1.1, hq.1.2⟩, hq.2⟩
    · cases h
  · rintro ⟨name, l, ⟨ha, hraw, hl, hpast, hother⟩, hq⟩
    simp [ha, hraw, hl, hpast, hother, hq]

theorem inherits_iff : pg.inherits e = true ↔ ∃ auth pid raw ttl name l p,
    e = .call auth pid (.acquireLock raw ttl none) ∧ Takeover pg auth raw name l ∧ l.purpose = some p := by
  constructor
  · intro h
    unfold inherits at h
    split at h
    · next auth pid raw ttl =>
      obtain ⟨name, l, htakeover, hp⟩ := overtakes_iff.1 h
      obtain ⟨p, hp⟩ := Option.isSome_iff_exists.1 hp
      exact ⟨auth, pid, raw, ttl, name, l, p, rfl, htakeover, hp⟩
    · cases h
  · rintro ⟨auth, pid, raw, ttl, name, l, p, rfl, htakeover, hp⟩
    change pg.overtakes (·.purpose.isSome) (.call auth pid (.acquireLock raw ttl none)) = true
    exact overtakes_iff.2 ⟨name, l, htakeover, by rw [hp]; rfl⟩

omit [Platform] in
theorem lockHeldBy_holder {auth : AuthCtx} {l : Lock} :
    lockHeldBy auth.agentId auth.session l = true ↔ l.holder = auth.identity := lockHeldBy_iff

/-- An event keeps the purposes the holders' own just when it inherits none. -/
theorem ownPurposes_concat (h : OwnPurposes now es) :
    OwnPurposes now (es ++ [e]) ↔ ((Pg.init now).after es).inherits e = false := by
  have hv : ((Pg.init now).after es).Valid := (Pg.Valid.init now).after es
  rw [OwnPurposes, show (Pg.init now).after (es ++ [e]) = ((Pg.init now).after es).next e from Runs.after_append ..]
  constructor
  · intro hown
    refine Bool.eq_false_iff.2 fun hinherits => ?_
    obtain ⟨auth, pid, raw, ttl, name, l, p, rfl, ⟨ha, hraw, hl, hpast, hother⟩, hp⟩ := inherits_iff.1 hinherits
    obtain ⟨-, hrow, -⟩ := acquire_updates hv ha pid hraw ttl none hl (.inl hpast)
    have hstated := hown _ (Db.findLock_some hrow).1 p hp
    change Runs.Since next (states auth.teamId name auth.identity p) (inHands auth.teamId name auth.identity)
      (Pg.init now) _ at hstated
    rcases (Runs.since_concat.1 hstated).2 with ⟨-, auth', pid', raw', ttl', he, -⟩ | hsince
    · cases he
    · -- The caller did not hold the lock before.
      obtain ⟨l', hl', hholder⟩ := hsince.last
      obtain rfl := Option.some.inj (hl.symm.trans hl')
      exact hother hholder
  · intro hinherits l hl p hp
    set pg := (Pg.init now).after es with hpg
    have hfind : (pg.next e).db.findLock l.teamId l.name = some l :=
      Db.findLock_of_mem (hv.next e).keys hl (by simp)
    have hold : ∀ l₀, pg.db.findLock l.teamId l.name = some l₀ → l₀.holder = l.holder → l₀.purpose = some p →
        Runs.Since next (states l.teamId l.name l.holder p) (inHands l.teamId l.name l.holder) (Pg.init now) es := by
      intro l₀ hl₀ hholder hp₀
      obtain ⟨hmem, hteam, hname⟩ := Db.findLock_some hl₀
      have hstated := h l₀ hmem p hp₀
      rwa [Stated, hteam, hname, hholder] at hstated
    refine Runs.since_concat.2 ⟨⟨l, ?_, rfl⟩, ?_⟩
    · rw [Runs.after_append]
      exact hfind
    cases row_step l.teamId l.name hv e with
    | kept hkept => exact .inr (hold l (hkept ▸ hfind) rfl hp)
    | inserted auth pid raw ttl purpose he htaken _ hrow =>
      have hl := Option.some.inj (hfind.symm.trans hrow)
      obtain rfl : purpose = some p := (congrArg Lock.purpose hl).symm.trans hp
      exact .inl ⟨htaken, auth, pid, raw, ttl, he, (congrArg Lock.holder hl).symm⟩
    | @updated auth pid raw ttl purpose he htaken l₀ hl₀ hcan hrow =>
      have hl := Option.some.inj (hfind.symm.trans hrow)
      have hholder : l.holder = auth.identity := congrArg Lock.holder hl
      have hpurpose : purpose.or l₀.purpose = some p := (congrArg Lock.purpose hl).symm.trans hp
      cases purpose with
      | some words =>
        obtain rfl := Option.some.inj hpurpose
        exact .inl ⟨htaken, auth, pid, raw, ttl, he, hholder.symm⟩
      | none =>
        -- The old words stay: they are the caller's own, as it inherits none.
        by_cases hsame : l₀.holder = auth.identity
        · exact .inr (hold l₀ hl₀ (hsame.trans hholder.symm) hpurpose)
        · obtain ⟨ha, hraw⟩ := acquired_named (Bool.and_eq_true_iff.1 (he ▸ htaken)).2
          have hteam : auth.teamId = l.teamId := (congrArg Lock.teamId hl).symm
          have hpast : l₀.expiresAt < pg.now := hcan.resolve_right fun h => hsame (lockHeldBy_holder.1 h)
          have : pg.inherits e = true :=
            inherits_iff.2 ⟨auth, pid, raw, ttl, l.name, l₀, p, he, ⟨ha, hraw, hteam ▸ hl₀, hpast, hsame⟩, hpurpose⟩
          simp [this] at hinherits
    | released _ _ _ _ _ _ _ hgone => exact absurd (hfind.symm.trans hgone) (by simp)

/-- Throughout a run every purpose is its holder's own, just when no event of the run inherits one. -/
theorem purposes_own_iff (now : Time) (es : List Event) :
    (∀ es', es' <+: es → OwnPurposes now es') ↔
      Runs.Along next (fun pg e => pg.inherits e = false) (Pg.init now) es := by
  induction es using List.reverseRecOn with
  | nil =>
    refine iff_of_true (fun es' h => ?_) trivial
    rw [List.prefix_nil.1 h]
    exact fun l hl => by cases hl
  | append_singleton es e ih =>
    rw [Runs.along_append, ← ih]
    constructor
    · intro h
      have hes : OwnPurposes now es := h es (List.prefix_append es [e])
      exact ⟨fun es' hes' => h es' (hes'.trans (List.prefix_append es [e])),
        (ownPurposes_concat hes).1 (h _ (List.prefix_refl _)), trivial⟩
    · rintro ⟨h, hno, -⟩ es' hes'
      rcases List.prefix_concat_iff.1 hes' with rfl | hes'
      · exact (ownPurposes_concat (h es (List.prefix_refl es))).2 hno
      · exact h es' hes'

end
end Pg

namespace Sample
attribute [local instance] Platform.ascii

/-- Ann takes the lock with a purpose; after it has lapsed bob takes it without one. -/
def lapsed : List Event :=
  crew ++ [.call ann 0 (.acquireLock "deploy" (some 5) (some "shipping 1.4.2")), .tick 6000000,
    .call bob 0 (.acquireLock "deploy" none none)]

/-- Bob's lock still says what ann is doing. -/
theorem lapsed_purpose : ¬ ∀ (now : Time) (es : List Event), Pg.OwnPurposes now es := by
  intro h
  have hinherits := (Pg.ownPurposes_concat (h 0 lapsed.dropLast)).1 (h 0 lapsed)
  revert hinherits
  decide

end Sample
end CrewSync
