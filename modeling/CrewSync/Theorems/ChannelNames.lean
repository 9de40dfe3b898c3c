import CrewSync.Theorems.Meets
import CrewSync.Theorems.Reading
import CrewSync.Theorems.Text

/-! A channel name at the calls that take one. `normalize_channel` strips `#` and white space once, so that it can
    leave a name that it would strip again; `read_messages` keeps some names to itself, and normalises the others twice. -/

namespace CrewSync
section
variable [Platform]

/-! ### Normal names -/

theorem normalizeChannel_eq (s : String) : normalizeChannel s = Platform.toLowercase (trim (stripHash (trim s))) := rfl

section
variable [Platform.LawfulLower] {s : String}
open Platform LawfulLower

/-- Lower case first, it is the bare strip. -/
theorem normalizeChannel_lower (s : String) : normalizeChannel s = trim (stripHash (toLowercase (trim s))) := by
  rw [normalizeChannel_eq, lower_trim, lower_stripHash]

/-- Lower case and trimmed. -/
structure Settled (s : String) : Prop where
  lower : toLowercase s = s
  trimmed : trim s = s

theorem settled_lower (s : String) : Settled (toLowercase (trim s)) :=
  ⟨lower_lower _, by rw [lower_trim, trim_trim]⟩

theorem Settled.normalize (h : Settled s) : normalizeChannel s = trim (stripHash s) := by
  rw [normalizeChannel_lower, h.trimmed, h.lower]

theorem normalizeChannel_settled (s : String) : Settled (normalizeChannel s) :=
  ⟨lower_lower _, by rw [normalizeChannel_eq, ← lower_trim, trim_trim]⟩

theorem normalizeChannel_lower_trim (s : String) : normalizeChannel (toLowercase (trim s)) = normalizeChannel s := by
  rw [(settled_lower s).normalize, normalizeChannel_lower]

end

omit [Platform] in
theorem stripHash_eq_self_iff {s : String} : stripHash s = s ↔ '#' ∉ s.toList.head? := by
  rw [stripHash, String.ext_iff, String.toList_ofList]
  constructor
  · intro h hhead
    have := Strip.dropWhile_head '#' (h ▸ hhead)
    cases this
  · intro h
    refine Strip.dropWhile_eq_self fun c hc => ?_
    rw [beq_eq_false_iff_ne]
    rintro rfl
    exact h hc

/-- A normal name is stable just when it does not begin with `#`. -/
theorem normalizeChannel_stable_iff [Platform.LawfulLower] (s : String) :
    normalizeChannel (normalizeChannel s) = normalizeChannel s ↔ '#' ∉ (normalizeChannel s).toList.head? := by
  have hs := normalizeChannel_settled s
  rw [← stripHash_eq_self_iff, hs.normalize]
  constructor
  · intro h
    -- What is left after the strip is as long as the name, so that nothing was stripped.
    have hle : (trim (stripHash (normalizeChannel s))).toList.length ≤ (stripHash (normalizeChannel s)).toList.length := by
      rw [trim_toList]
      exact (Strip.strip_infix _ _).length_le
    rw [h] at hle
    have hsuffix : (stripHash (normalizeChannel s)).toList <:+ (normalizeChannel s).toList := by
      rw [stripHash, String.toList_ofList]
      exact List.dropWhile_suffix _
    exact String.ext_iff.2 (hsuffix.eq_of_length_le hle)
  · intro h
    rw [h, hs.trimmed]

/-! ### Posting to a channel -/

section
variable {auth : AuthCtx} {db : Db}

/-- The text of a call that finds no channel. -/
def noChannel (name : String) : BusError :=
  .notFound s!"no channel named '{name}'; call list_channels or create it with create_channel"

theorem channelIdByName_meets {team : Uuid} {raw : String} {c : Channel} {E : BusError → Prop}
    (hfind : db.findChannel team (normalizeChannel raw) = some c) :
    Bus.Meets (·.db = db) (channelIdByName team raw) (fun id pg => id = c.id ∧ pg.db = db) E := by
  refine .bind (Q := fun row pg => row = some c.id ∧ pg.db = db) (.select fun pg h => ⟨?_, h⟩) fun row => .lift fun hrow => ?_
  · rw [h, hfind, Option.map_some]
  · subst hrow
    exact .pure fun _ h => ⟨rfl, h⟩

/-- The error does not say that a channel is missing. -/
def FindsChannel (e : BusError) : Prop := ∀ name, e ≠ noChannel name

/-- A message to a channel goes to the one that has the normal name. -/
theorem postMessage_channel {raw : String} {c : Channel} (hfind : db.findChannel auth.teamId (normalizeChannel raw) = some c)
    (pid : Nat) {input : PostInput} (hchannel : input.channel = some raw) (hto : input.«to» = none) :
    Bus.Meets (·.db = db) (postMessage auth pid input)
      (fun _ pg => ∃ m, pg.db.messages = db.messages ++ [m] ∧ m.channelId = some c.id) FindsChannel := by
  have hreply : ∀ r : Int, FindsChannel (.notFound s!"message {r}") := by
    intro r name h
    have := congrArg (fun e : BusError => match e with | .notFound msg => msg.toList.head? | _ => none) h
    simp [noChannel, toString, String.toList_append] at this
  have hresolve : Bus.Meets (·.db = db) (resolveTarget auth input.channel input.«to»)
      (fun target pg => target.channel = some c.id ∧ pg.db = db) FindsChannel := by
    rw [hchannel, hto]
    refine .bind (channelIdByName_meets hfind) fun id => .lift fun hid => ?_
    subst hid
    exact .bind (Q := fun _ pg => pg.db = db) (.select fun _ h => h) fun names => .pure fun _ h => ⟨rfl, h⟩
  have h := postMessage_meets (fun name h => by cases h) (fun msg name h => by cases h) hreply hresolve pid
  refine ⟨fun pg hP r hr => ?_, h.fails⟩
  obtain ⟨target, htarget, -, m, hm, hbound⟩ := h.answers pg hP r hr
  exact ⟨m, hm, hbound.channel.trans htarget⟩

end

/-! ### Creating a channel -/

section
variable {pg : Pg} {auth : AuthCtx} {raw name : String} {c : Channel}

omit [Platform] in
theorem Db.findChannel_some {db : Db} {team : Uuid} (h : db.findChannel team name = some c) :
    c ∈ db.channels ∧ c.teamId = team ∧ c.name = name := by
  have := List.find?_some h
  simp only [Bool.and_eq_true, beq_iff_eq] at this
  exact ⟨List.mem_of_find?_eq_some h, this.1, this.2⟩

omit [Platform] in
theorem Db.findChannel_of_mem {db : Db} {seqs : Seqs} (hk : db.Keys seqs) (hc : c ∈ db.channels) :
    db.findChannel c.teamId c.name = some c := by
  refine hk.channelNames.find?_eq_some hc (by simp) fun r _ h => ?_
  simpa [Db.channelKey] using h

/-- A name that `create_channel` takes. -/
structure Accepted (name : String) : Prop where
  nonempty : name.isEmpty = false
  short : name.utf8ByteSize ≤ 64

/-- A `create_channel` that succeeds: the name is fine, and a channel has it. -/
theorem createChannel_ok {topic : Option String} {info : ChannelInfo} (h : ((createChannel auth raw topic).exec pg).1 = .ok info) :
    Accepted (normalizeChannel raw) ∧ info.name = normalizeChannel raw ∧
      ∃ c ∈ ((createChannel auth raw topic).exec pg).2.db.channels, Db.channelKey c = (auth.teamId, normalizeChannel raw) := by
  have hupsert : ∀ topic' : Option String, (upsertChannel auth (normalizeChannel raw) topic').answer pg = .ok info →
      info.name = normalizeChannel raw ∧ ∃ c ∈ ((upsertChannel auth (normalizeChannel raw) topic').effect pg).db.channels,
        Db.channelKey c = (auth.teamId, normalizeChannel raw) := by
    intro topic' h
    simp only [Sql.answer, Sql.effect, upsertChannel] at h ⊢
    cases hfind : pg.db.findChannel auth.teamId (normalizeChannel raw) with
    | some old =>
      obtain ⟨-, hteam, hname⟩ := Db.findChannel_some hfind
      rw [hfind] at h
      obtain rfl := Except.ok.inj h
      exact ⟨hname, _, Rows.mem_put.2 (.inl rfl), Prod.ext hteam hname⟩
    | none =>
      rw [hfind] at h
      dsimp only at h ⊢
      split at h
      · next hok =>
        obtain rfl := Except.ok.inj h
        rw [if_pos hok]
        exact ⟨rfl, _, Rows.mem_put.2 (.inl rfl), rfl⟩
      · cases h
  unfold createChannel at h ⊢
  dsimp only at h ⊢
  split at h
  · cases h
  · next hempty =>
    rw [if_neg hempty]
    split at h
    · cases h
    · next hlong =>
      rw [if_neg hlong]
      cases htopic : checkTextOpt "channel topic" topic maxTopicBytes with
      | error e =>
        rw [htopic] at h
        cases h
      | ok topic' =>
        rw [htopic, check, pure_bind] at h
        exact ⟨⟨by simpa using hempty, by omega⟩, hupsert topic' h⟩

/-- A `create_channel` on a channel that is there sets its topic. -/
theorem createChannel_exec {topic topic' : Option String} (hname : Accepted (normalizeChannel raw))
    (htopic : checkTextOpt "channel topic" topic maxTopicBytes = .ok topic')
    (hfind : pg.db.findChannel auth.teamId (normalizeChannel raw) = some c) :
    (createChannel auth raw topic).exec pg = (.ok (channelAnswer { c with topic := topic'.or c.topic }),
      { pg with db := (Write.putChannel { c with topic := topic'.or c.topic }).apply pg.db }) := by
  unfold createChannel
  rw [if_neg (by simp [hname.nonempty]), if_neg (by simpa using hname.short), htopic, check, pure_bind, Bus.exec_execute]
  simp only [Sql.answer, Sql.effect, upsertChannel, hfind]
  rfl

/-- A channel keeps its identity and its name. -/
theorem Pg.next_channel (hv : pg.Valid) (e : Event) (hc : c ∈ pg.db.channels) :
    ∃ c' ∈ (pg.next e).db.channels, c'.id = c.id ∧ Db.channelKey c' = Db.channelKey c := by
  refine next_lift (R := fun a b => ∀ c ∈ a.channels, ∃ c' ∈ b.channels, c'.id = c.id ∧ Db.channelKey c' = Db.channelKey c)
    hv e (fun db c hc => ⟨c, hc, rfl, rfl⟩) (fun h h' c hc => ?_) (fun seqs db w _ _ hw _ c hc => ?_) c hc
  · obtain ⟨d, hd, hid, hkey⟩ := h c hc
    obtain ⟨d', hd', hid', hkey'⟩ := h' d hd
    exact ⟨d', hd', hid'.trans hid, hkey'.trans hkey⟩
  · cases w with
    | putChannel r =>
      by_cases hid : c.id = r.id
      · exact ⟨r, Rows.mem_put.2 (.inl rfl), hid.symm, ((hw.2 c hc).1 hid).symm⟩
      · exact ⟨c, Rows.mem_put.2 (.inr ⟨hc, hid⟩), rfl, rfl⟩
    | _ => exact ⟨c, hc, rfl, rfl⟩

theorem Pg.after_findChannel (hv : pg.Valid) {team : Uuid} (hfind : pg.db.findChannel team name = some c) (es : List Event) :
    ∃ c', (pg.after es).db.findChannel team name = some c' ∧ c'.id = c.id := by
  refine (Runs.invariant (I := fun pg : Pg => pg.Valid ∧ ∃ c', pg.db.findChannel team name = some c' ∧ c'.id = c.id)
    (fun pg e h => ⟨h.1.next e, ?_⟩) ⟨hv, c, hfind, rfl⟩ es).2
  obtain ⟨hv, c', hfind, hid⟩ := h
  obtain ⟨hmem, hteam, hname⟩ := Db.findChannel_some hfind
  obtain ⟨d, hd, hid', hkey⟩ := Pg.next_channel hv e hmem
  obtain ⟨hteam', hname'⟩ := Prod.mk.inj hkey
  refine ⟨d, ?_, hid'.trans hid⟩
  rw [← hteam, ← hname, ← hteam', ← hname']
  exact Db.findChannel_of_mem (hv.next e).keys hd

end

/-! ### Addressing a channel -/

/-- The words that `read_messages` takes for its own scopes. -/
def reservedScopes : List String := ["all", "inbox", "dm", "direct"]

/-- Every call that takes a channel name addresses the channel, by the raw name and by its own. -/
structure Pg.Addressed (pg : Pg) (auth : AuthCtx) (raw : String) (c : Channel) : Prop where
  create : ∀ pid topic topic', checkTextOpt "channel topic" topic maxTopicBytes = .ok topic' →
    (∃ info, (pg.call auth pid (.createChannel c.name topic)).1 = .ok (.channel info) ∧ info.name = c.name) ∧
      (pg.next (.call auth pid (.createChannel c.name topic))).db.channels.map (·.id) = pg.db.channels.map (·.id)
  post : ∀ name ∈ [raw, c.name], ∀ pid input, input.channel = some name → input.«to» = none →
    (∀ r, (pg.call auth pid (.postMessage input)).1 = .ok r →
      ∃ m, (pg.next (.call auth pid (.postMessage input))).db.messages = pg.db.messages ++ [m] ∧ m.channelId = some c.id) ∧
      ∀ e, (pg.call auth pid (.postMessage input)).1 = .error e → FindsChannel e
  read : ∀ name ∈ [raw, c.name], ∀ pid input, input.scope = name →
    (pg.call auth pid (.readMessages input)).1 = .ok (.messages (pg.db.readList auth (.channel c.id c.name) input))

section
variable [Platform.LawfulLower] {pg : Pg} {auth : AuthCtx} {raw name : String} {c : Channel}

/-- The scope that a name of the channel resolves to. -/
theorem resolveScope_channel (hname : normalizeChannel raw = name) (haccepted : Accepted name)
    (hstable : normalizeChannel name = name) (hfree : name ∉ reservedScopes) (hfind : pg.db.findChannel auth.teamId name = some c) :
    (resolveScope auth raw).exec pg = (.ok (.channel c.id name), pg) := by
  have hs := settled_lower raw
  have hword : ∀ w : String, trim (stripHash w) = w → Platform.toLowercase (trim raw) = w → w = name := by
    intro w hw h
    rw [← hname, ← normalizeChannel_lower_trim, hs.normalize, h, hw]
  have hparse : parseScope raw = .inr name := by
    unfold parseScope
    dsimp only
    rw [if_neg, if_neg, normalizeChannel_lower_trim, hname]
    · intro h
      simp only [Bool.or_eq_true, beq_iff_eq] at h
      rcases h with (h | h) | h
      · exact hfree (hword _ rfl h ▸ by decide)
      · exact hfree (hword _ rfl h ▸ by decide)
      · exact hfree (hword _ rfl h ▸ by decide)
    · intro h
      simp only [Bool.or_eq_true, beq_iff_eq] at h
      rcases h with h | h
      · have := haccepted.nonempty
        rw [← hword _ rfl h] at this
        cases this
      · exact hfree (hword _ rfl h ▸ by decide)
  have hid : (channelIdByName auth.teamId name).exec pg = (.ok c.id, pg) := by
    unfold channelIdByName
    rw [hstable, Bus.exec_bind_ok (Bus.exec_select _ _), hfind]
    rfl
  unfold resolveScope
  rw [hparse]
  exact Bus.exec_bind_ok hid

/-- The channel is addressed by every call just when its name does not begin with `#` and is not a scope of its own. -/
theorem addressed_iff (hauth : auth.authentic pg.db = true) (haccepted : Accepted (normalizeChannel raw))
    (hfind : pg.db.findChannel auth.teamId (normalizeChannel raw) = some c) :
    pg.Addressed auth raw c ↔ '#' ∉ (normalizeChannel raw).toList.head? ∧ normalizeChannel raw ∉ reservedScopes := by
  obtain ⟨hmem, -, hname⟩ := Db.findChannel_some hfind
  rw [← normalizeChannel_stable_iff, ← hname]
  constructor
  · intro h
    refine ⟨?_, fun hreserved => ?_⟩
    · obtain ⟨⟨info, hcall, hinfo⟩, -⟩ := h.create 0 none none rfl
      rw [Pg.call, if_pos hauth, Call.run, Bus.exec_map] at hcall
      cases hr : ((createChannel auth c.name none).exec pg).1 with
      | error e =>
        rw [hr] at hcall
        cases hcall
      | ok info' =>
        rw [hr] at hcall
        obtain rfl := Reply.channel.inj (Except.ok.inj hcall)
        exact (createChannel_ok hr).2.1.symm.trans hinfo
    · -- A read of the name is a read of the whole team or of the inbox.
      have hread := h.read c.name (by simp) 0 ⟨c.name, false, 1, false⟩ rfl
      have hscope : ∃ scope, ((resolveScope auth c.name).exec pg).1 = .ok scope ∧ (scope = .all ∨ scope = .inbox) := by
        have hs : Settled c.name := hname ▸ normalizeChannel_settled raw
        unfold resolveScope parseScope
        simp only [hs.trimmed, hs.lower]
        simp only [reservedScopes, List.mem_cons, List.not_mem_nil, or_false] at hreserved
        rcases hreserved with h | h | h | h
        · exact ⟨.all, by rw [h]; rfl, .inl rfl⟩
        all_goals exact ⟨.inbox, by rw [h]; rfl, .inr rfl⟩
      obtain ⟨scope, hscope, hother⟩ := hscope
      have hscope : ((resolveScope auth (⟨c.name, false, 1, false⟩ : ReadInput).scope).exec pg).1 = .ok scope := hscope
      rw [congrArg Prod.fst (call_read hauth 0 hscope)] at hread
      have hlabel := congrArg MessageList.scope (Reply.messages.inj (Except.ok.inj hread))
      change scope.label = "#" ++ c.name at hlabel
      have hhead := congrArg (fun s : String => s.toList.head?) hlabel
      rcases hother with rfl | rfl
      · simp [Scope.label, String.toList_append] at hhead
      · simp [Scope.label, String.toList_append] at hhead
  · rintro ⟨hstable, hfree⟩
    have hnorm : ∀ name ∈ [raw, c.name], normalizeChannel name = c.name := by
      intro name h
      rcases List.mem_pair.1 h with rfl | rfl
      · exact hname.symm
      · exact hstable
    rw [← hname] at haccepted hfind
    refine ⟨fun pid topic topic' htopic => ?_, fun name hmem' pid input hchannel hto => ?_, fun name hmem' pid input hscope => ?_⟩
    · have hexec : (createChannel auth c.name topic).exec pg = _ :=
        createChannel_exec (hstable.symm ▸ haccepted) htopic (hstable.symm ▸ hfind)
      simp only [Pg.next, Pg.call, if_pos hauth, Call.run, Bus.exec_map, hexec]
      exact ⟨⟨_, rfl, rfl⟩, Rows.map_put ⟨c, hmem, rfl⟩⟩
    · exact Pg.call_meets (c := .postMessage input) (g := .posted) pid hauth rfl
        (postMessage_channel ((hnorm name hmem').symm ▸ hfind) pid hchannel hto) rfl |>.imp
          (fun h r hr => by obtain ⟨_, -, h⟩ := h r hr; exact h) id
    · subst hscope
      exact congrArg Prod.fst (call_read hauth pid
        (congrArg Prod.fst (resolveScope_channel (hnorm _ hmem') haccepted hstable hfree hfind)))

/-- A channel that was created by a raw name is there under its normal name from then on, and every call addresses it
    just when that does not begin with `#` and is not a scope of its own. -/
theorem created_addressed_iff (hpg : pg.Reachable) {creator : AuthCtx} {pid : Nat} {topic : Option String}
    (hcreate : (pg.call creator pid (.createChannel raw topic)).1.isOk = true) (es : List Event)
    (hteam : auth.teamId = creator.teamId)
    (hauth : auth.authentic ((pg.next (.call creator pid (.createChannel raw topic))).after es).db = true) :
    ∃ created c, (pg.next (.call creator pid (.createChannel raw topic))).db.findChannel auth.teamId (normalizeChannel raw) =
        some created ∧
      ((pg.next (.call creator pid (.createChannel raw topic))).after es).db.findChannel auth.teamId (normalizeChannel raw) =
        some c ∧ c.id = created.id ∧
      (Pg.Addressed ((pg.next (.call creator pid (.createChannel raw topic))).after es) auth raw c ↔
        '#' ∉ (normalizeChannel raw).toList.head? ∧ normalizeChannel raw ∉ reservedScopes) := by
  obtain ⟨hcreator, r, hr⟩ := Pg.call_isOk hcreate
  obtain ⟨info, hinfo⟩ : ∃ info, ((createChannel creator raw topic).exec pg).1 = .ok info := by
    rw [Pg.call, if_pos hcreator, Call.run, Bus.exec_map] at hr
    cases h : ((createChannel creator raw topic).exec pg).1 with
    | ok info => exact ⟨info, rfl⟩
    | error e =>
      rw [h] at hr
      cases hr
  have hnext : pg.next (.call creator pid (.createChannel raw topic)) = ((createChannel creator raw topic).exec pg).2 := by
    rw [Pg.next, Pg.call, if_pos hcreator, Call.run, Bus.exec_map]
  obtain ⟨haccepted, -, created, hmem, hkey⟩ := createChannel_ok hinfo
  rw [← hnext] at hmem
  have hreach := hpg.next (.call creator pid (.createChannel raw topic))
  obtain ⟨hkeyTeam, hkeyName⟩ := Prod.mk.inj hkey
  have hcreated := Db.findChannel_of_mem hreach.valid.keys hmem
  rw [hkeyTeam, hkeyName, ← hteam] at hcreated
  obtain ⟨c, hc, hid⟩ := Pg.after_findChannel hreach.valid hcreated es
  exact ⟨created, c, hcreated, hc, hid, addressed_iff hauth haccepted hc⟩

end

end

section
open Sample
attribute [local instance] Platform.ascii

/-- The crew, before ann creates a channel. -/
def teamOnly : Pg := (Pg.init 0).after crew

/-- Ann has created a channel. -/
def withChannel (name : String) : Pg := teamOnly.next (.call ann 0 (.createChannel name none))

/-- Bob uses the channel. -/
theorem deploys_addressed :
    ∃ created c, (withChannel "#Deploys").db.findChannel bob.teamId
        (normalizeChannel "#Deploys") = some created ∧
      ((withChannel "#Deploys").after []).db.findChannel bob.teamId
        (normalizeChannel "#Deploys") = some c ∧ c.id = created.id ∧
      (Pg.Addressed ((withChannel "#Deploys").after []) bob "#Deploys" c ↔
        '#' ∉ (normalizeChannel "#Deploys").toList.head? ∧ normalizeChannel "#Deploys" ∉ reservedScopes) :=
  @created_addressed_iff Platform.ascii Platform.ascii_lawfulLower teamOnly bob "#Deploys"
    ((@Pg.Reachable.init Platform.ascii 0).after crew) ann 0 none (by decide) [] rfl (by decide)

/-- A channel `#ops` that a post by its own name and a read by either miss, and a channel `all` that a read by its
    name takes for the whole team. -/
theorem hash_ops_missed :
    ((withChannel "# #ops").db.findChannel ann.teamId "#ops").isSome = true ∧
      ((withChannel "# #ops").call bob 0 (.postMessage ⟨some "#ops", none, false, "hi", none, none, []⟩)).1 =
        .error (noChannel "ops") ∧
      ((withChannel "# #ops").call bob 0 (.readMessages ⟨"# #ops", true, 50, false⟩)).1 = .error (noChannel "ops") ∧
      ((withChannel "all").db.findChannel ann.teamId "all").isSome = true ∧
      ((withChannel "all").call bob 0 (.readMessages ⟨"all", true, 50, false⟩)).1 =
        .ok (.messages { messages := [], scope := "all", cursor := 0, truncated := false }) := by
  decide

end
end CrewSync
