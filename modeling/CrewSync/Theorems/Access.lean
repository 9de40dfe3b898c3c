import CrewSync.Footprint.Calls
import CrewSync.Front
import CrewSync.Lib.Outputs

/-! Who gets in. Behind the front there is the server of calls and commands, and every call that reaches it is that of an
    enabled agent of its team; and a request gets there exactly with a token that was issued and not revoked since. -/

namespace CrewSync
namespace Site

/-! ### What a token resolves to -/

/-- The identity of an agent, under no session. -/
def identityOf (a : Agent) (team : Team) : AuthCtx :=
  { agentId := a.id, agentName := a.name, teamId := team.id, teamSlug := team.slug, session := "" }

theorem findToken_mem {s : Site} {hash : List UInt8} {t : TokenRow} {a : Agent} {team : Team}
    (h : s.findToken hash = some (t, a, team)) : t ∈ s.tokens ∧ t.tokenHash = hash ∧ t.revokedAt = none ∧
      s.pg.db.agents.find? (·.id == t.agentId) = some a ∧ s.pg.db.teams.find? (·.id == a.teamId) = some team := by
  obtain ⟨t', ht', h⟩ := List.exists_of_findSome?_eq_some h
  split at h
  · next hlive =>
    simp only [bind, Option.bind_eq_some_iff] at h
    obtain ⟨a', ha', team', hteam', h⟩ := h
    cases h
    rw [Bool.and_eq_true, beq_iff_eq, Option.isNone_iff_eq_none] at hlive
    exact ⟨ht', hlive.1, hlive.2, ha', hteam'⟩
  · cases h

/-- The row with the hash is found, with its agent and team. -/
theorem findToken_eq {s : Site} (hkeyed : Rows.Keyed (fun t : TokenRow => t.tokenHash) s.tokens) {t : TokenRow} {a : Agent}
    {team : Team} (ht : t ∈ s.tokens) (hlive : t.revokedAt = none) (ha : s.pg.db.agents.find? (·.id == t.agentId) = some a)
    (hteam : s.pg.db.teams.find? (·.id == a.teamId) = some team) : s.findToken t.tokenHash = some (t, a, team) := by
  cases hfind : s.findToken t.tokenHash with
  | none =>
    have hnone := List.findSome?_eq_none_iff.1 hfind t ht
    rw [if_pos (by rw [hlive, beq_self_eq_true]; rfl), ha] at hnone
    simp [bind, hteam] at hnone
  | some found =>
    obtain ⟨t', a', team'⟩ := found
    obtain ⟨ht', hhash, -, ha', hteam'⟩ := findToken_mem hfind
    obtain rfl := hkeyed.eq ht' ht hhash
    obtain rfl := Option.some.inj (ha'.symm.trans ha)
    obtain rfl := Option.some.inj (hteam'.symm.trans hteam)
    rfl

/-- The same tokens, but for the time of their last use. -/
def SameTokens (s s' : Site) : Prop :=
  s'.tokens.map (fun t => { t with lastUsedAt := none }) = s.tokens.map fun t => { t with lastUsedAt := none }

/-- Another site with the same tables and tokens. -/
structure Kept (s s' : Site) : Prop where
  pg : s'.pg = s.pg
  tokens : SameTokens s s'

theorem Kept.refl (s : Site) : Kept s s := ⟨rfl, rfl⟩

theorem Kept.trans {a b c : Site} (h : Kept a b) (h' : Kept b c) : Kept a c :=
  ⟨h'.pg.trans h.pg, Eq.trans h'.tokens h.tokens⟩

theorem use_kept (s : Site) (id : Uuid) : Kept s (s.use id) := by
  refine ⟨rfl, ?_⟩
  rw [SameTokens, use, Rows.update, List.map_map]
  refine List.map_congr_left fun t _ => ?_
  rw [Function.comp_apply]
  split <;> rfl

section
variable [Sha256] {o : ServeOptions} {s : Site}

theorem resolveToken_cases (s : Site) (raw : String) :
    (∃ e, s.resolveToken raw = (.error e, s)) ∨ ∃ t a team, tokenStart.toList.isPrefixOf raw.toList = true ∧
      s.findToken (Admin.hashToken raw) = some (t, a, team) ∧ a.disabledAt = none ∧
        s.resolveToken raw = (.ok (identityOf a team), s.use t.id) := by
  unfold resolveToken
  by_cases hstart : tokenStart.toList.isPrefixOf raw.toList = true
  · rw [if_pos hstart]
    cases hfind : s.findToken (Admin.hashToken raw) with
    | none => exact .inl ⟨_, rfl⟩
    | some found =>
      obtain ⟨t, a, team⟩ := found
      dsimp only
      split
      · exact .inl ⟨_, rfl⟩
      · next hdisabled => exact .inr ⟨t, a, team, hstart, rfl, by simpa using hdisabled, rfl⟩
  · rw [if_neg hstart]
    exact .inl ⟨_, rfl⟩

theorem resolveToken_kept (s : Site) (raw : String) : Kept s (s.resolveToken raw).2 := by
  rcases resolveToken_cases s raw with ⟨e, h⟩ | ⟨t, a, team, -, -, -, h⟩
  · rw [h]
    exact .refl s
  · rw [h]
    exact use_kept s t.id

/-- What a token resolves to is an enabled agent of its team. -/
theorem resolveToken_authentic {raw : String} {ctx : AuthCtx} (h : (s.resolveToken raw).1 = .ok ctx) :
    ctx.authentic s.pg.db = true ∧ ctx.session = "" := by
  rcases resolveToken_cases s raw with ⟨e, he⟩ | ⟨t, a, team, -, hfind, hdisabled, he⟩
  · rw [he] at h
    cases h
  · rw [he] at h
    cases h
    obtain ⟨-, -, -, ha, hteam⟩ := findToken_mem hfind
    have hteamId := List.find?_some hteam
    rw [beq_iff_eq] at hteamId
    refine ⟨Bool.and_eq_true_iff.2 ⟨List.any_eq_true.2 ⟨a, List.mem_of_find?_eq_some ha, ?_⟩,
      List.any_eq_true.2 ⟨team, List.mem_of_find?_eq_some hteam, ?_⟩⟩, rfl⟩
    · simp [identityOf, hteamId, hdisabled]
    · simp [identityOf]

/-! ### The middleware -/

theorem charge_same (s : Site) (o : ServeOptions) (raw : String) (instant : Nat) :
    ∃ buckets, (s.charge o raw instant).2 = { s with buckets } := by
  unfold charge
  cases o.limiter with
  | none => exact ⟨s.buckets, rfl⟩
  | some rl => exact ⟨_, rfl⟩

theorem resolveToken_buckets (s : Site) (raw : String) (buckets : RateLimit.Inner) :
    (resolveToken { s with buckets } raw).1 = (s.resolveToken raw).1 := by
  unfold resolveToken
  split
  · have hfind : findToken { s with buckets } (Admin.hashToken raw) = s.findToken (Admin.hashToken raw) := rfl
    rw [hfind]
    cases s.findToken (Admin.hashToken raw) with
    | none => rfl
    | some found =>
      dsimp only
      split <;> rfl
  · rfl

variable [Platform]

/-- A request is let through if each of the checks lets it through. -/
theorem requireBearer_ok_iff {instant : Nat} {authorization session : Option HeaderValue} {ctx : AuthCtx} :
    (s.requireBearer o instant authorization session).1 = .ok ctx ↔ ∃ raw, bearer authorization = some raw ∧
      (s.charge o raw instant).1 = .ok () ∧ sessionFromHeaders session = .ok ctx.session ∧
        (s.resolveToken raw).1 = .ok { ctx with session := "" } := by
  unfold requireBearer
  cases hraw : bearer authorization with
  | none => simp
  | some raw =>
    obtain ⟨buckets, hbuckets⟩ := charge_same s o raw instant
    have hresolve := resolveToken_buckets s raw buckets
    rw [← hbuckets] at hresolve
    simp only [Option.some.injEq, exists_eq_left', ← hresolve]
    rcases s.charge o raw instant with ⟨t | _, s'⟩
    · simp
    · cases sessionFromHeaders session with
      | error why => simp
      | ok label =>
        dsimp only
        rcases hres : s'.resolveToken raw with ⟨e | ctx', s''⟩
        · simp
        · simp only [Except.ok.injEq, true_and]
          constructor
          · rintro rfl
            refine ⟨rfl, ?_⟩
            rw [← (resolveToken_authentic (congrArg Prod.fst hres)).2]
          · rintro ⟨rfl, rfl⟩
            rfl

theorem requireBearer_kept (s : Site) (o : ServeOptions) (instant : Nat) (authorization session : Option HeaderValue) :
    Kept s (s.requireBearer o instant authorization session).2 := by
  unfold requireBearer
  cases bearer authorization with
  | none => exact .refl s
  | some raw =>
    have hcharge : Kept s (s.charge o raw instant).2 := by
      obtain ⟨buckets, hbuckets⟩ := charge_same s o raw instant
      rw [hbuckets]
      exact ⟨rfl, rfl⟩
    dsimp only
    generalize s.charge o raw instant = r at hcharge ⊢
    rcases r with ⟨t | _, s'⟩
    · exact hcharge
    · cases sessionFromHeaders session with
      | error why => exact hcharge
      | ok label =>
        have hresolve := hcharge.trans (resolveToken_kept s' raw)
        dsimp only at hresolve ⊢
        generalize s'.resolveToken raw = r' at hresolve ⊢
        rcases r' with ⟨e | ctx, s''⟩
        · exact hresolve
        · exact hresolve

/-! ### The dashboard -/

omit [Platform] in
theorem loginAs_cases (s : Site) (token : Option String) : s.loginAs token = none ∨
    ∃ raw ctx s', token = some raw ∧ (s.resolveToken raw) = (.ok ctx, s') ∧ s.loginAs token = some (ctx, s') := by
  unfold loginAs
  cases htoken : token.filter fun t => !(trim t).isEmpty with
  | none => exact .inl rfl
  | some raw =>
    have hraw : token = some raw := (Option.filter_eq_some_iff.1 htoken).1
    dsimp only
    rcases hres : s.resolveToken raw with ⟨e | ctx, s'⟩
    · exact .inl rfl
    · exact .inr ⟨raw, ctx, s', hraw, hres, rfl⟩

theorem login_kept (s : Site) (o : ServeOptions) (token : Option String) (secure : Bool) :
    Kept s (s.login o token secure).2 := by
  unfold login
  split
  · exact .refl s
  · rcases loginAs_cases s token with h | ⟨raw, ctx, s', -, hres, h⟩
    · rw [h]
      exact .refl s
    · have hkept := resolveToken_kept s raw
      rw [hres] at hkept
      rw [h]
      exact hkept

theorem viewed_kept (s : Site) (o : ServeOptions) (authorization cookie : Option HeaderValue) :
    Kept s (s.viewed o authorization cookie).2 := by
  unfold viewed
  split
  · exact .refl s
  · cases bearer authorization with
    | none => exact .refl s
    | some raw =>
      have hkept := resolveToken_kept s raw
      dsimp only
      generalize s.resolveToken raw = r at hkept ⊢
      rcases r with ⟨e | ctx, s'⟩
      · exact hkept
      · exact hkept

theorem render_kept (s : Site) (o : ServeOptions) (authorization cookie : Option HeaderValue) :
    Kept s (s.render o authorization cookie).2 := by
  have hkept := viewed_kept s o authorization cookie
  unfold render
  generalize s.viewed o authorization cookie = r at hkept ⊢
  rcases r with ⟨e | team, s'⟩
  · exact hkept
  · dsimp only
    split <;> exact hkept

/-! ### The server behind the front -/

/-- The events that a visit is for the server. -/
def events (o : ServeOptions) (s : Site) : Visit → List Event
  | .request instant authorization session pid c =>
    match (s.requireBearer o instant authorization session).1 with
    | .ok ctx => [.call ctx pid c]
    | .error _ => []
  | .within e _ => [e]
  | _ => []

/-- The run of the server behind the front. -/
def trace (o : ServeOptions) (s : Site) (vs : List Visit) : List Event := Runs.outputs (next o) (events o) s vs

/-- A call is that of an enabled agent of its team, under a label that a header can give. -/
def Admitted (pg : Pg) (e : Event) : Prop :=
  ∀ auth pid c, e = .call auth pid c →
    auth.authentic pg.db = true ∧ ∃ header, sessionFromHeaders header = .ok auth.session

theorem next_pg (o : ServeOptions) (s : Site) (v : Visit) : (s.next o v).pg = s.pg.after (s.events o v) := by
  cases v with
  | request instant authorization session pid c =>
    have hkept := requireBearer_kept s o instant authorization session
    simp only [next, request, events]
    generalize s.requireBearer o instant authorization session = r at hkept ⊢
    rcases r with ⟨e | ctx, s'⟩
    · exact hkept.pg
    · have hpg : s'.pg = s.pg := hkept.pg
      simp only [hpg]
      rfl
  | login token secure => exact (login_kept s o token secure).pg
  | render authorization cookie => exact (render_kept s o authorization cookie).pg
  | tokenIssue bytes team agent label =>
    simp only [next]
    cases s.issued bytes team agent label <;> rfl
  | tokenRevoke id => rfl
  | within e nobody => rfl

theorem events_admitted (o : ServeOptions) (s : Site) (v : Visit) : Runs.Along Pg.next Admitted s.pg (s.events o v) := by
  cases v with
  | request instant authorization session pid c =>
    simp only [events]
    cases hbearer : (s.requireBearer o instant authorization session).1 with
    | error e => trivial
    | ok ctx =>
      refine ⟨?_, trivial⟩
      rintro auth pid' c' h
      cases h
      obtain ⟨raw, -, -, hsession, hresolve⟩ := requireBearer_ok_iff.1 hbearer
      exact ⟨(resolveToken_authentic hresolve).1, session, hsession⟩
  | within e nobody =>
    refine ⟨?_, trivial⟩
    rintro auth pid c rfl
    cases nobody
  | _ => trivial

/-- The front refines the server. Whatever comes in, the tables are those of a run of calls, commands and the dispatcher,
    and every call of that run is that of an enabled agent of its team, under a label that a header can give. -/
theorem front_refines (o : ServeOptions) (s : Site) (vs : List Visit) :
    (s.after o vs).pg = s.pg.after (s.trace o vs) ∧ Runs.Along Pg.next Admitted s.pg (s.trace o vs) :=
  Runs.drives (f := Site.pg) (next_pg o) (events_admitted o) s vs

end

/-! ### Tokens that stand -/

/-- The tokens that are not revoked: id, hash and agent. -/
def live (s : Site) : List (Uuid × List UInt8 × Uuid) :=
  (s.tokens.filter (·.revokedAt.isNone)).map fun t => (t.id, t.tokenHash, t.agentId)

structure Keys (s : Site) : Prop where
  ids : Rows.Keyed (fun t : TokenRow => t.id) s.tokens
  hashes : Rows.Keyed (fun t : TokenRow => t.tokenHash) s.tokens

theorem mem_live {s : Site} {x : Uuid × List UInt8 × Uuid} :
    x ∈ s.live ↔ ∃ t ∈ s.tokens, t.revokedAt = none ∧ (t.id, t.tokenHash, t.agentId) = x := by
  simp only [live, List.mem_map, List.mem_filter, Option.isNone_iff_eq_none, and_assoc]

theorem SameTokens.live {s s' : Site} (h : SameTokens s s') : s'.live = s.live := by
  have hclear : ∀ s : Site, s.live = ((s.tokens.map fun t => { t with lastUsedAt := none }).filter (·.revokedAt.isNone)).map
      fun t => (t.id, t.tokenHash, t.agentId) := by
    intro s
    rw [List.filter_map, List.map_map]
    rfl
  rw [hclear, hclear, h]

theorem SameTokens.keys {s s' : Site} (h : SameTokens s s') (hs : s.Keys) : s'.Keys := by
  have hsame : ∀ {α : Type} (f : TokenRow → α), (∀ t, f { t with lastUsedAt := none } = f t) →
      s'.tokens.map f = s.tokens.map f := by
    intro α f hf
    have hmap := congrArg (List.map f) h
    rw [List.map_map, List.map_map] at hmap
    have hcomp : (f ∘ fun t => { t with lastUsedAt := none }) = f := funext hf
    rwa [hcomp] at hmap
  constructor
  · rw [Rows.Keyed, hsame _ fun _ => rfl]
    exact hs.ids
  · rw [Rows.Keyed, hsame _ fun _ => rfl]
    exact hs.hashes

theorem revoke_live (s : Site) (id : Uuid) (x : Uuid × List UInt8 × Uuid) :
    x ∈ (s.revoke id).2.live ↔ x ∈ s.live ∧ x.1 ≠ id := by
  simp only [mem_live, revoke, Rows.mem_update]
  constructor
  · rintro ⟨_, ⟨t, ht, rfl⟩, hlive, rfl⟩
    by_cases hid : (t.id == id) = true
    · rw [if_pos hid] at hlive
      cases hlive
    · rw [if_neg hid] at hlive ⊢
      exact ⟨⟨t, ht, hlive, rfl⟩, fun h => hid (beq_iff_eq.2 h)⟩
  · rintro ⟨⟨t, ht, hlive, rfl⟩, hother⟩
    exact ⟨t, ⟨t, ht, if_neg fun h => hother (beq_iff_eq.1 h)⟩, hlive, rfl⟩

theorem revoke_keys {s : Site} (hs : s.Keys) (id : Uuid) : (s.revoke id).2.Keys :=
  ⟨hs.ids.update fun _ _ _ => rfl, hs.hashes.update fun _ _ _ => rfl⟩

section
variable [Platform] [Sha256] {o : ServeOptions} {s : Site}

/-- The token that a visit adds. -/
def added (s : Site) : Visit → Option TokenRow
  | .tokenIssue bytes team agent label => s.issued bytes team agent label
  | _ => none

/-- A token that is added has an id and a hash of its own. -/
theorem added_fresh {v : Visit} {row : TokenRow} (h : s.added v = some row) :
    row.revokedAt = none ∧ ∀ t ∈ s.tokens, t.id ≠ row.id ∧ t.tokenHash ≠ row.tokenHash := by
  cases v with
  | tokenIssue bytes team agent label =>
    simp only [added, issued] at h
    split at h
    · simp only [newToken] at h
      split at h
      · cases h
      · next hfresh =>
        cases h
        refine ⟨rfl, fun t ht => ?_⟩
        have hnot := List.any_eq_false.1 (Bool.eq_false_iff.2 hfresh) t ht
        simpa using hnot
    · cases h
  | _ => cases h

/-- A visit that changes the tokens adds one, or revokes one. -/
theorem next_tokens (o : ServeOptions) (s : Site) (v : Visit) :
    (s.added v = none ∧ (∀ id, v ≠ .tokenRevoke id) ∧ SameTokens s (s.next o v)) ∨
      (∃ row, s.added v = some row ∧ (∀ id, v ≠ .tokenRevoke id) ∧ (s.next o v).tokens = s.tokens ++ [row]) ∨
        ∃ id, v = .tokenRevoke id := by
  cases v with
  | request instant authorization session pid c =>
    refine .inl ⟨rfl, nofun, ?_⟩
    have hkept := requireBearer_kept s o instant authorization session
    simp only [next, request]
    generalize s.requireBearer o instant authorization session = r at hkept ⊢
    rcases r with ⟨e | ctx, s'⟩
    · exact hkept.tokens
    · exact hkept.tokens
  | login token secure => exact .inl ⟨rfl, nofun, (login_kept s o token secure).tokens⟩
  | render authorization cookie =>
    exact .inl ⟨rfl, nofun, (render_kept s o authorization cookie).tokens⟩
  | tokenIssue bytes team agent label =>
    cases hrow : s.issued bytes team agent label with
    | none =>
      refine .inl ⟨hrow, nofun, ?_⟩
      simp only [next, hrow]
      rfl
    | some row =>
      refine .inr (.inl ⟨row, hrow, nofun, ?_⟩)
      simp only [next, hrow]
  | tokenRevoke id => exact .inr (.inr ⟨id, rfl⟩)
  | within e nobody => exact .inl ⟨rfl, nofun, rfl⟩

theorem next_keys (hs : s.Keys) (v : Visit) : (s.next o v).Keys := by
  rcases next_tokens o s v with ⟨-, -, hsame⟩ | ⟨row, hrow, -, htokens⟩ | ⟨id, rfl⟩
  · exact hsame.keys hs
  · obtain ⟨-, hfresh⟩ := added_fresh hrow
    constructor
    · rw [htokens]
      exact hs.ids.append fun t ht => (hfresh t ht).1
    · rw [htokens]
      exact hs.hashes.append fun t ht => (hfresh t ht).2
  · exact revoke_keys hs id

/-- A token stands after a visit if it stood before and was not revoked, or was just issued. -/
theorem mem_live_next (v : Visit) (x : Uuid × List UInt8 × Uuid) : x ∈ (s.next o v).live ↔
    (x ∈ s.live ∧ v ≠ .tokenRevoke x.1) ∨ ∃ row, s.added v = some row ∧ (row.id, row.tokenHash, row.agentId) = x := by
  rcases next_tokens o s v with ⟨hnone, hrevoke, hsame⟩ | ⟨row, hrow, hrevoke, htokens⟩ | ⟨id, rfl⟩
  · rw [hsame.live, hnone]
    simp [hrevoke]
  · have hlive := (added_fresh hrow).1
    rw [mem_live, htokens, hrow]
    simp only [List.mem_append, List.mem_singleton, Option.some.injEq, exists_eq_left', ne_eq, hrevoke, not_false_iff, and_true]
    rw [mem_live]
    constructor
    · rintro ⟨t, ht | rfl, h, hx⟩
      · exact .inl ⟨t, ht, h, hx⟩
      · exact .inr hx
    · rintro (⟨t, ht, h, hx⟩ | hx)
      · exact ⟨t, .inl ht, h, hx⟩
      · exact ⟨row, .inr rfl, hlive, hx⟩
  · change x ∈ (s.revoke id).2.live ↔ _
    rw [revoke_live]
    simp [added, eq_comm]

theorem keys_after (hs : s.Keys) (vs : List Visit) : (s.after o vs).Keys :=
  Runs.invariant (I := Keys) (fun _ v h => next_keys h v) hs vs

/-- The tokens that stand after a run are those that were issued in it and not revoked since. -/
theorem mem_live_after (hs : s.live = []) (vs : List Visit) (x : Uuid × List UInt8 × Uuid) :
    x ∈ (s.after o vs).live ↔ ∃ vs₁ v vs₂ row, vs = vs₁ ++ v :: vs₂ ∧ (s.after o vs₁).added v = some row ∧
      (row.id, row.tokenHash, row.agentId) = x ∧ .tokenRevoke x.1 ∉ vs₂ := by
  induction vs using List.reverseRecOn with
  | nil => simp [after, hs]
  | append_singleton vs v ih =>
    have hnext : s.after o (vs ++ [v]) = (s.after o vs).next o v := Runs.after_append ..
    rw [hnext, mem_live_next, ih]
    constructor
    · rintro (⟨⟨vs₁, v', vs₂, row, rfl, hrow, hx, hkept⟩, hv⟩ | ⟨row, hrow, hx⟩)
      · refine ⟨vs₁, v', vs₂ ++ [v], row, by simp, hrow, hx, fun h => ?_⟩
        rcases List.mem_append.1 h with h | h
        · exact hkept h
        · exact hv (List.mem_singleton.1 h).symm
      · exact ⟨vs, v, [], row, rfl, hrow, hx, List.not_mem_nil⟩
    · rintro ⟨vs₁, v', vs₂, row, heq, hrow, hx, hkept⟩
      rcases List.eq_nil_or_concat vs₂ with rfl | ⟨vs₂, last, rfl⟩
      · obtain ⟨rfl, hlast⟩ := List.append_inj' heq rfl
        obtain rfl := List.singleton_inj.1 hlast
        exact .inr ⟨row, hrow, hx⟩
      · rw [List.concat_eq_append, ← List.cons_append, ← List.append_assoc] at heq
        obtain ⟨rfl, hlast⟩ := List.append_inj' heq rfl
        obtain rfl := List.singleton_inj.1 hlast
        rw [List.concat_eq_append] at hkept
        refine .inl ⟨⟨vs₁, v', vs₂, row, rfl, hrow, hx, fun h => hkept (List.mem_append_left _ h)⟩, ?_⟩
        rintro rfl
        exact hkept (List.mem_append_right _ (List.mem_singleton_self _))

/-! ### Who gets in -/

/-- Some visit of the run issued a token with the hash to the agent, and no later one revoked it. -/
def Issued (o : ServeOptions) (s : Site) (vs : List Visit) (hash : List UInt8) (agent : Uuid) : Prop :=
  ∃ vs₁ bytes team name label row vs₂, vs = vs₁ ++ .tokenIssue bytes team name label :: vs₂ ∧
    (s.after o vs₁).issued bytes team name label = some row ∧ Admin.hashToken (generateToken bytes) = hash ∧
      row.agentId = agent ∧ .tokenRevoke row.id ∉ vs₂

omit [Platform] in
theorem tokenIssue_hash {pg : Pg} {raw team name : String} {label : Option String} {token : Admin.ApiToken}
    (h : ((Admin.tokenIssue raw team name label).exec pg).1 = .ok token) : token.tokenHash = Admin.hashToken raw := by
  unfold Admin.tokenIssue at h
  rw [Bus.exec_bind] at h
  generalize (Admin.teamId team).exec pg = r at h
  rcases r with ⟨e | id, pg'⟩
  · cases h
  · dsimp only at h
    rw [Bus.exec_bind_ok (Bus.exec_select _ _)] at h
    split at h
    · obtain rfl := Except.ok.inj h
      rfl
    · cases h

theorem issued_hash {bytes : { bytes : List UInt8 // bytes.length = 32 }} {team name : String} {label : Option String}
    {row : TokenRow} (h : s.issued bytes team name label = some row) :
    row.tokenHash = Admin.hashToken (generateToken bytes) := by
  unfold issued at h
  split at h
  · next token htoken =>
    have hhash := tokenIssue_hash htoken
    simp only [newToken] at h
    split at h
    · cases h
    · cases h
      exact hhash
  · cases h

theorem issued_iff (hs : s.live = []) (vs : List Visit) (hash : List UInt8) (agent : Uuid) :
    Issued o s vs hash agent ↔ ∃ t ∈ (s.after o vs).tokens, t.tokenHash = hash ∧ t.agentId = agent ∧ t.revokedAt = none := by
  have hlive : (∃ t ∈ (s.after o vs).tokens, t.tokenHash = hash ∧ t.agentId = agent ∧ t.revokedAt = none) ↔
      ∃ id, (id, hash, agent) ∈ (s.after o vs).live := by
    simp only [mem_live, Prod.mk.injEq]
    constructor
    · rintro ⟨t, ht, hhash, hagent, hlive⟩
      exact ⟨t.id, t, ht, hlive, rfl, hhash, hagent⟩
    · rintro ⟨id, t, ht, hlive, -, hhash, hagent⟩
      exact ⟨t, ht, hhash, hagent, hlive⟩
  rw [hlive]
  simp only [mem_live_after hs, Prod.mk.injEq]
  constructor
  · rintro ⟨vs₁, bytes, team, name, label, row, vs₂, hvs, hrow, hhash, hagent, hkept⟩
    exact ⟨row.id, vs₁, _, vs₂, row, hvs, hrow, ⟨rfl, (issued_hash hrow).trans hhash, hagent⟩, hkept⟩
  · rintro ⟨id, vs₁, v, vs₂, row, hvs, hrow, ⟨rfl, hhash, hagent⟩, hkept⟩
    cases v with
    | tokenIssue bytes team name label =>
      exact ⟨vs₁, bytes, team, name, label, row, vs₂, hvs, hrow, (issued_hash hrow).symm.trans hhash, hagent, hkept⟩
    | _ => cases hrow

omit [Platform] in
/-- A token resolves to an agent if and only if its hash is that of a token of the agent that stands, and the agent is
    enabled. -/
theorem resolveToken_ok_iff (hs : s.Keys) (hv : s.pg.Valid) {raw : String} {ctx : AuthCtx} (hsession : ctx.session = "") :
    (s.resolveToken raw).1 = .ok ctx ↔ tokenStart.toList.isPrefixOf raw.toList = true ∧ ctx.authentic s.pg.db = true ∧
      ∃ t ∈ s.tokens, t.tokenHash = Admin.hashToken raw ∧ t.agentId = ctx.agentId ∧ t.revokedAt = none := by
  constructor
  · intro h
    have hauth := (resolveToken_authentic h).1
    rcases resolveToken_cases s raw with ⟨e, he⟩ | ⟨t, a, team, hstart, hfind, -, he⟩
    · rw [he] at h
      cases h
    · rw [he] at h
      cases h
      obtain ⟨ht, hhash, hlive, ha, -⟩ := findToken_mem hfind
      have hagent := List.find?_some ha
      exact ⟨hstart, hauth, t, ht, hhash, (beq_iff_eq.1 hagent).symm, hlive⟩
  · rintro ⟨hstart, hauth, t, ht, hhash, hagent, hlive⟩
    -- The identity is that of the rows which the token leads to.
    rw [AuthCtx.authentic, Bool.and_eq_true, List.any_eq_true, List.any_eq_true] at hauth
    obtain ⟨⟨a, ha, hrow⟩, team, hteam, hrow'⟩ := hauth
    simp only [Bool.and_eq_true, beq_iff_eq, Option.isNone_iff_eq_none] at hrow hrow'
    obtain ⟨⟨⟨hid, hteamId⟩, hname⟩, henabled⟩ := hrow
    have hfindAgent : s.pg.db.agents.find? (·.id == t.agentId) = some a :=
      hv.keys.agents.find?_eq_some ha (beq_iff_eq.2 (hid.trans hagent.symm)) fun r _ h => by
        rw [beq_iff_eq] at h
        exact h.trans (hagent.trans hid.symm)
    have hfindTeam : s.pg.db.teams.find? (·.id == a.teamId) = some team :=
      hv.keys.teams.find?_eq_some hteam (beq_iff_eq.2 (hrow'.1.trans hteamId.symm)) fun r _ h => by
        rw [beq_iff_eq] at h
        exact h.trans (hteamId.trans hrow'.1.symm)
    have hfind := findToken_eq hs.hashes ht hlive hfindAgent hfindTeam
    rw [hhash] at hfind
    have hctx : ctx = identityOf a team := by
      rcases ctx with ⟨agentId, agentName, teamId, teamSlug, session⟩
      dsimp only at hid hteamId hname hrow' hsession
      rw [identityOf, hid, hname, hrow'.1, hrow'.2, hsession]
    rw [resolveToken, if_pos hstart, hfind, hctx]
    simp only [henabled, Option.isSome_none]
    rfl

/-- Who gets in. In every run, a request is let through as an agent if and only if it bears a token, the rate limit leaves
    room, its session header names a session, the token is one that was issued to the agent and not revoked since, and
    the agent is enabled at the time. -/
theorem admitted_iff (o : ServeOptions) (now : Time) (vs : List Visit) (instant : Nat)
    (authorization session : Option HeaderValue) (ctx : AuthCtx) :
    let s := (start now).after o vs
    (s.requireBearer o instant authorization session).1 = .ok ctx ↔ ∃ raw, bearer authorization = some raw ∧
      (s.charge o raw instant).1 = .ok () ∧ sessionFromHeaders session = .ok ctx.session ∧
        tokenStart.toList.isPrefixOf raw.toList = true ∧ Issued o (start now) vs (Admin.hashToken raw) ctx.agentId ∧
          ctx.authentic s.pg.db = true := by
  intro s
  have hstart : (start now).Keys := ⟨List.nodup_nil, List.nodup_nil⟩
  have hkeys : s.Keys := keys_after hstart vs
  have hv : s.pg.Valid := by
    rw [(front_refines o (start now) vs).1]
    exact ((Pg.Reachable.init now).after _).valid
  rw [requireBearer_ok_iff]
  refine exists_congr fun raw => and_congr_right fun _ => and_congr_right fun _ => and_congr_right fun _ => ?_
  rw [resolveToken_ok_iff hkeys hv rfl, issued_iff (by rfl)]
  exact and_congr_right fun _ => and_comm

end
end Site
end CrewSync
