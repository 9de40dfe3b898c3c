import CrewSync.Lib.Sorted
import CrewSync.Theorems.Reading
import Mathlib.Data.List.Dedup

/-! The channels of the digest: one query with window functions over the messages of all channels, and the same channel by
    channel. -/

namespace CrewSync
section
variable {pg : Pg} {team : Uuid} {since : Time} {focus : Option Uuid} {c : Channel}

/-! ### Channel by channel -/

/-- The messages of the channel inside the window that pass the focus. -/
def Db.posts (db : Db) (since : Time) (focus : Option Uuid) (c : Channel) : List Message :=
  db.messages.filter fun m => m.channelId == some c.id && decide (since < m.createdAt) &&
    (focus.isNone || focus == some c.id || m.announce)

/-- How many there are, and the last five in the order of their ids. -/
def Db.naiveChannel (db : Db) (since : Time) (focus : Option Uuid) (c : Channel) : DigestChannel :=
  { name := c.name
    messageCount := (db.posts since focus c).length
    lastMessages := ((Rows.orderBy (fun a b => b.id ≤ a.id) (db.posts since focus c)).take 5).reverse.map fun m =>
      { sender := (db.agentName m.senderAgentId).getD "", body := left m.body 300, «at» := ts m.createdAt } }

/-- The channels of the team that have such messages. -/
def Db.activeChannels (db : Db) (team : Uuid) (since : Time) (focus : Option Uuid) : List Channel :=
  db.channels.filter fun c => c.teamId == team && !(db.posts since focus c).isEmpty

/-! ### The rows of the query -/

/-- A message with its channel and its sender. -/
def Db.joined (db : Db) (c : Channel) (m : Message) : Channel × String × Message :=
  (c, (db.agentName m.senderAgentId).getD "", m)

theorem inWindow_eq (hv : pg.Valid) : pg.db.inWindow team since focus = pg.db.messages.filterMap fun m =>
    ((m.channelId.bind fun id => pg.db.channels.find? (·.id == id)).filter fun c => c.teamId == team &&
      decide (since < m.createdAt) && (focus.isNone || focus == some c.id || m.announce)).map fun c => pg.db.joined c m := by
  unfold Db.inWindow
  refine List.filterMap_congr fun m hm => ?_
  obtain ⟨name, hname⟩ := Db.agentName_of_agentIn (hv.refs.senders m hm).2
  cases hchannel : m.channelId.bind fun id => pg.db.channels.find? (·.id == id) with
  | none => rfl
  | some c =>
    simp only [Option.bind_eq_bind, Option.bind_some, hname, Db.joined, Option.getD_some, Option.filter_some]
    split <;> simp_all

/-- The channel that a message was posted to. -/
theorem channel_found (hv : pg.Valid) (hc : c ∈ pg.db.channels) {id : Uuid} :
    pg.db.channels.find? (·.id == id) = some c ↔ c.id = id := by
  rw [hv.keys.channels.find?_key fun r => beq_iff_eq]
  exact and_iff_right hc

theorem mem_inWindow (hv : pg.Valid) {x : Channel × String × Message} : x ∈ pg.db.inWindow team since focus ↔
    ∃ c ∈ pg.db.channels, c.teamId = team ∧ ∃ m ∈ pg.db.posts since focus c, x = pg.db.joined c m := by
  simp only [inWindow_eq hv, List.mem_filterMap, Option.map_eq_some_iff, Option.filter_eq_some_iff, Option.bind_eq_some_iff,
    Db.posts, List.mem_filter, Bool.and_eq_true, beq_iff_eq]
  constructor
  · rintro ⟨m, hm, c, ⟨⟨id, hchannel, hfind⟩, ⟨hteam, hsince⟩, hfocus⟩, rfl⟩
    have hc := List.mem_of_find?_eq_some hfind
    obtain rfl := (channel_found hv hc).1 hfind
    exact ⟨c, hc, hteam, m, ⟨hm, ⟨hchannel, hsince⟩, hfocus⟩, rfl⟩
  · rintro ⟨c, hc, hteam, m, ⟨hm, ⟨hchannel, hsince⟩, hfocus⟩, rfl⟩
    exact ⟨m, hm, c, ⟨⟨c.id, hchannel, (channel_found hv hc).2 rfl⟩, ⟨hteam, hsince⟩, hfocus⟩, rfl⟩

/-- The partition of a channel. -/
theorem inWindow_filter (hv : pg.Valid) (hc : c ∈ pg.db.channels) (hteam : c.teamId = team) :
    (pg.db.inWindow team since focus).filter (fun x => x.1.id == c.id) =
      (pg.db.posts since focus c).map (pg.db.joined c) := by
  rw [inWindow_eq hv, List.filter_filterMap, Db.posts, ← List.filterMap_eq_map, ← List.filterMap_eq_filter,
    List.filterMap_filterMap]
  refine List.filterMap_congr fun m _ => Option.ext fun x => ?_
  simp only [Option.filter_eq_some_iff, Option.map_eq_some_iff, Option.bind_eq_some_iff, Option.guard_eq_some_iff,
    Function.comp_apply, Option.some.injEq, Bool.and_eq_true, beq_iff_eq]
  constructor
  · rintro ⟨⟨d, ⟨⟨id, hchannel, hfind⟩, ⟨-, hsince⟩, hfocus⟩, rfl⟩, hid⟩
    have hd := List.mem_of_find?_eq_some hfind
    obtain rfl := (channel_found hv hd).1 hfind
    obtain rfl := hv.keys.channels.eq hd hc hid
    exact ⟨m, ⟨rfl, ⟨hchannel, hsince⟩, hfocus⟩, rfl⟩
  · rintro ⟨m', ⟨rfl, ⟨hchannel, hsince⟩, hfocus⟩, rfl⟩
    exact ⟨⟨c, ⟨⟨c.id, hchannel, (channel_found hv hc).2 rfl⟩, ⟨hteam, hsince⟩, hfocus⟩, rfl⟩, rfl⟩

/-- The row of a message of the channel. -/
def Db.windowRow (db : Db) (since : Time) (focus : Option Uuid) (c : Channel) (m : Message) : Windowed :=
  { channel := c.name, sender := (db.agentName m.senderAgentId).getD "", body := left m.body 300, createdAt := m.createdAt
    id := m.id, messageCount := (db.posts since focus c).length
    recency := ((db.posts since focus c).filter fun r => decide (m.id ≤ r.id)).length }

/-- The group of a channel: its name stands for it. -/
theorem windowed_filter (hv : pg.Valid) (hc : c ∈ pg.db.channels) (hteam : c.teamId = team) :
    (pg.db.windowed team since focus).filter (·.channel == c.name) =
      (pg.db.posts since focus c).map (pg.db.windowRow since focus c) := by
  have hpartition := @inWindow_filter pg team since focus c hv hc hteam
  have hbelow : ∀ id : Int, (pg.db.inWindow team since focus).filter (fun x => x.1.id == c.id && decide (id ≤ x.2.2.id)) =
      ((pg.db.posts since focus c).filter fun r => decide (id ≤ r.id)).map (pg.db.joined c) := by
    intro id
    rw [← List.filter_filter, List.filter_comm, hpartition, List.filter_map]
    rfl
  have hname : ∀ x ∈ pg.db.inWindow team since focus, (x.1.name == c.name) = (x.1.id == c.id) := by
    intro x hx
    obtain ⟨d, hd, hdteam, m, -, rfl⟩ := (mem_inWindow hv).1 hx
    rw [Bool.eq_iff_iff, beq_iff_eq, beq_iff_eq]
    refine ⟨fun hname => ?_, fun hid => ?_⟩
    · exact congrArg Channel.id (hv.keys.channelNames.eq hd hc (Prod.ext (hdteam.trans hteam.symm) hname))
    · exact congrArg Channel.name (hv.keys.channels.eq hd hc hid)
  unfold Db.windowed
  simp only [List.filter_map]
  have hfilter : (pg.db.inWindow team since focus).filter (fun x => x.1.name == c.name) =
      (pg.db.posts since focus c).map (pg.db.joined c) := (List.filter_congr hname).trans hpartition
  simp only [Function.comp_def, hfilter, List.map_map]
  refine List.map_congr_left fun m _ => ?_
  have hrank := (congrArg List.length (hbelow m.id)).trans (List.length_map _)
  simp only [Db.joined, hpartition, List.length_map, Db.windowRow, Windowed.mk.injEq, true_and]
  exact hrank

theorem windowed_names (hv : pg.Valid) {name : String} : name ∈ (pg.db.windowed team since focus).map (·.channel) ↔
    ∃ c ∈ pg.db.activeChannels team since focus, c.name = name := by
  have hmap : (pg.db.windowed team since focus).map (·.channel) = (pg.db.inWindow team since focus).map fun x => x.1.name := by
    unfold Db.windowed
    simp only [List.map_map, Function.comp_def]
  rw [hmap, List.mem_map]
  simp only [mem_inWindow hv, Db.activeChannels, List.mem_filter, Bool.and_eq_true, beq_iff_eq, Bool.not_eq_true',
    List.isEmpty_eq_false_iff_exists_mem]
  constructor
  · rintro ⟨x, ⟨c, hc, hteam, m, hm, rfl⟩, rfl⟩
    exact ⟨c, ⟨hc, hteam, m, hm⟩, rfl⟩
  · rintro ⟨c, ⟨hc, hteam, m, hm⟩, rfl⟩
    exact ⟨_, ⟨c, hc, hteam, m, hm, rfl⟩, rfl⟩

/-! ### The entries -/

/-- The maximum of a count that is the same in all rows. -/
theorem foldl_max_const {l : List Nat} {n : Nat} (hne : l ≠ []) (h : ∀ x ∈ l, x = n) : l.foldl max 0 = n := by
  have hfold : ∀ (l : List Nat) (k : Nat), (∀ x ∈ l, x = n) → k ≤ n → l.foldl max k = if l = [] then k else n := by
    intro l
    induction l with
    | nil => exact fun k _ _ => rfl
    | cons x l ih =>
      intro k hall hk
      obtain rfl := hall x List.mem_cons_self
      rw [List.foldl_cons, Nat.max_eq_right hk, ih x (fun y hy => hall y (List.mem_cons_of_mem _ hy)) le_rfl]
      split <;> rfl
  rw [hfold l 0 h (Nat.zero_le n), if_neg hne]

/-- The rows of recency up to five, by their ids, are those of the last five messages. -/
theorem tail_eq (hv : pg.Valid) : Rows.orderBy (fun a b => a.id ≤ b.id)
    (((pg.db.posts since focus c).map (pg.db.windowRow since focus c)).filter fun r => decide (r.recency ≤ 5)) =
      (((Rows.orderBy (fun a b => b.id ≤ a.id) (pg.db.posts since focus c)).take 5).reverse).map
        (pg.db.windowRow since focus c) := by
  have hkeyed : Rows.Keyed (·.id) (pg.db.posts since focus c) := hv.keys.messages.filter _
  have hrank : ∀ m ∈ pg.db.posts since focus c, (pg.db.windowRow since focus c m).recency ≤ 5 ↔
      m ∈ (Rows.orderBy (fun a b => b.id ≤ a.id) (pg.db.posts since focus c)).take 5 := fun m hm =>
    (Rows.mem_take_desc_iff hkeyed hm 5).symm
  have hdesc := (Rows.orderBy_desc hkeyed).sublist (List.take_sublist 5 _)
  refine List.Pairwise.eq_of_mem_iff (r := fun a b : Windowed => a.id < b.id) (Rows.orderBy_lt ?_ fun _ _ => Iff.rfl)
    (List.pairwise_map.2 (List.pairwise_reverse.2 hdesc)) fun {r} => ?_
  · refine Rows.Keyed.filter ?_ _
    rw [Rows.Keyed, List.map_map]
    exact hkeyed
  · rw [Rows.mem_orderBy, List.mem_filter, List.mem_map, List.mem_map, decide_eq_true_iff]
    constructor
    · rintro ⟨⟨m, hm, rfl⟩, hr⟩
      exact ⟨m, List.mem_reverse.2 ((hrank m hm).1 hr), rfl⟩
    · rintro ⟨m, hm, rfl⟩
      have hm := List.mem_reverse.1 hm
      have hpost := Rows.mem_orderBy.1 (List.mem_of_mem_take hm)
      exact ⟨⟨m, hpost, rfl⟩, (hrank m hpost).2 hm⟩

/-- The entry of a channel. -/
def Db.groupedChannel (db : Db) (team : Uuid) (since : Time) (focus : Option Uuid) (name : String) : DigestChannel :=
  let group := (db.windowed team since focus).filter (·.channel == name)
  { name
    messageCount := (group.map (·.messageCount)).foldl max 0
    lastMessages := (Rows.orderBy (fun a b => a.id ≤ b.id) (group.filter (·.recency ≤ 5))).map fun r =>
      { sender := r.sender, body := r.body, «at» := ts r.createdAt } }

theorem groupedChannel_eq (hv : pg.Valid) (hc : c ∈ pg.db.activeChannels team since focus) :
    pg.db.groupedChannel team since focus c.name = pg.db.naiveChannel since focus c := by
  obtain ⟨hc, hactive⟩ := List.mem_filter.1 hc
  rw [Bool.and_eq_true, beq_iff_eq, Bool.not_eq_true', List.isEmpty_eq_false_iff] at hactive
  obtain ⟨hteam, hposts⟩ := hactive
  have hcount : (((pg.db.posts since focus c).map (pg.db.windowRow since focus c)).map (·.messageCount)).foldl max 0 =
      (pg.db.posts since focus c).length := by
    refine foldl_max_const (by simpa using hposts) fun x hx => ?_
    obtain ⟨r, hr, rfl⟩ := List.mem_map.1 hx
    obtain ⟨m, -, rfl⟩ := List.mem_map.1 hr
    rfl
  unfold Db.groupedChannel Db.naiveChannel
  simp only [windowed_filter hv hc hteam, hcount, tail_eq hv, DigestChannel.mk.injEq, true_and]
  exact List.map_map

/-- The entries of the channels that have messages, the busiest first. -/
def Db.Shows (db : Db) (team : Uuid) (since : Time) (focus : Option Uuid) (channels : List DigestChannel) : Prop :=
  channels.Perm ((db.activeChannels team since focus).map (db.naiveChannel since focus)) ∧
    channels.Pairwise fun a b => b.messageCount ≤ a.messageCount

theorem channelActivity_shows (hv : pg.Valid) (team : Uuid) (since : Time) (focus : Option Uuid) :
    pg.db.Shows team since focus (pg.db.channelActivity team since focus) := by
  have hactivity : pg.db.channelActivity team since focus = Rows.orderBy (fun a b => b.messageCount ≤ a.messageCount)
      ((((pg.db.windowed team since focus).map (·.channel)).dedup).map (pg.db.groupedChannel team since focus)) := rfl
  have hnodup : ((pg.db.activeChannels team since focus).map (·.name)).Nodup := by
    refine List.Nodup.map_on (fun a ha b hb hname => ?_) (hv.keys.channels.filter _).of_map
    obtain ⟨ha, hteam⟩ := List.mem_filter.1 ha
    obtain ⟨hb, hteam'⟩ := List.mem_filter.1 hb
    rw [Bool.and_eq_true, beq_iff_eq] at hteam hteam'
    exact hv.keys.channelNames.eq ha hb (Prod.ext (hteam.1.trans hteam'.1.symm) hname)
  have hnames : (((pg.db.windowed team since focus).map (·.channel)).dedup).Perm
      ((pg.db.activeChannels team since focus).map (·.name)) := by
    refine (List.perm_ext_iff_of_nodup (List.nodup_dedup _) hnodup).2 fun name => ?_
    rw [List.mem_dedup, windowed_names hv, List.mem_map]
  rw [hactivity]
  constructor
  · refine Rows.orderBy_perm.trans ((hnames.map _).trans (.of_eq ?_))
    rw [List.map_map]
    exact List.map_congr_left fun c hc => groupedChannel_eq hv hc
  · exact Rows.orderBy_sorted_key (fun d : DigestChannel => OrderDual.toDual d.messageCount) fun _ _ => Iff.rfl

/-- The query of the digest gives what the computation channel by channel gives, for every window and focus, and the
    digest of a call has this for its window and its focus. -/
theorem teamDigest_shows [Platform] (hv : pg.Valid) :
    (∀ team since focus, pg.db.Shows team since focus (pg.db.channelActivity team since focus)) ∧
      ∀ auth hours allChannels, ∃ focus r, (focusOf auth allChannels).exec pg = (.ok focus, pg) ∧
        (teamDigest auth hours allChannels).exec pg = (.ok r, pg) ∧
        pg.db.Shows auth.teamId (pg.now - secs (3600 * clamp hours 1 (24 * 14))) focus r.channels := by
  refine ⟨channelActivity_shows hv, fun auth hours allChannels => ?_⟩
  obtain ⟨focus, r, hfocus, hr, hchannels, -⟩ := teamDigest_exec auth hours allChannels pg
  exact ⟨focus, r, hfocus, hr, hchannels ▸ channelActivity_shows hv ..⟩

end

section
open Sample
attribute [local instance] Platform.ascii

/-- A post in a channel. -/
def saying (auth : AuthCtx) (channel body : String) (announce : Bool) : Event :=
  .call auth 0 (.postMessage ⟨some channel, none, announce, body, none, none, []⟩)

/-- Two hours ago bob has posted in his channel, and since then six times more; in the other channel there are a message
    and an announcement of ann's. -/
def busyHour : Pg :=
  (Pg.init 0).after (crew ++ [.call ann 0 (.createChannel "api" none), .call ann 0 (.createChannel "ops" none),
    saying bob "api" "zero" false, .tick 7200000000] ++
    ["one", "two", "three"].map (saying bob "api" · false) ++ [saying ann "ops" "lunch" false, saying ann "ops" "freeze" true] ++
    ["four", "five", "six"].map (saying bob "api" · false))

set_option maxRecDepth 20000 in
/-- In his window bob sees the last five of the six messages of the hour, and the announcement. -/
theorem busyHour_shows : ∃ focus r, (focusOf bob false).exec busyHour = (.ok (some focus), busyHour) ∧
    (teamDigest bob 1 false).exec busyHour = (.ok r, busyHour) ∧
    busyHour.db.Shows 0 (secs 3600) (some focus) r.channels ∧
    r.channels.map (fun c => (c.name, c.messageCount, c.lastMessages.map (·.body))) =
      [("api", 6, ["two", "three", "four", "five", "six"]), ("ops", 1, ["freeze"])] := by
  have hv : busyHour.Valid := (Pg.Valid.init 0).after _
  obtain ⟨focus, r, hfocus, hr, hshows⟩ := (@teamDigest_shows busyHour Platform.ascii hv).2 bob 1 false
  have hbodies : ((teamDigest bob 1 false).exec busyHour).1.toOption.map (fun r => r.channels.map fun c =>
      (c.name, c.messageCount, c.lastMessages.map (·.body))) =
        some [("api", 6, ["two", "three", "four", "five", "six"]), ("ops", 1, ["freeze"])] := by decide +kernel
  rw [hr] at hbodies
  cases focus with
  | none =>
    have hsome : ((focusOf bob false).exec busyHour).1 ≠ .ok none := by decide
    exact absurd (congrArg Prod.fst hfocus) hsome
  | some focus => exact ⟨focus, r, hfocus, hr, hshows, Option.some.inj hbodies⟩

end
end CrewSync
