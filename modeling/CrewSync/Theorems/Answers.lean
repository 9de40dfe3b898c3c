import CrewSync.Footprint.Calls

/-! Which message `find_answer` takes for the answer. `NULLS LAST` puts every reply before every message that
    replies to nothing, so a reply to another question can overtake an earlier plain message. -/

namespace CrewSync

/-- The message may answer the question: the target wrote it to the asker after the question, from the session that
    was asked, to the session that asked or to the person. -/
structure Candidate (auth : AuthCtx) (target : Uuid) (session : Option String) (question : Int) (m : Message) :
    Prop where
  sender : m.senderAgentId = target
  senderSession : ∀ s, session = some s → m.senderSession.getD "" = s
  recipient : m.recipientAgentId = some auth.agentId
  recipientSession : m.recipientSession = none ∨ m.recipientSession = some auth.session
  later : question < m.id

/-- The candidate that should answer: the first one that replies to the question, or else the first one. -/
def Preferred (rows : List Message) (question : Int) (m : Message) : Prop :=
  (m.replyTo = some question ∧ ∀ a ∈ rows, a.replyTo = some question → m.id ≤ a.id) ∨
    (∀ a ∈ rows, a.replyTo ≠ some question) ∧ ∀ a ∈ rows, m.id ≤ a.id

/-- The answer is the preferred one of the rows, and is none only if there are none. -/
def Documented (db : Db) (rows : List Message) (question : Int) : Option MessageInfo → Prop
  | some info => ∃ m ∈ rows, db.messageInfo? m = some info ∧ Preferred rows question m
  | none => rows = []

/-- One of the rows replies to the question, or the first one replies to something, or none does. -/
def Unmixed (rows : List Message) (question : Int) : Prop :=
  (∃ a ∈ rows, a.replyTo = some question) ∨ (∃ m ∈ rows, (∀ a ∈ rows, m.id ≤ a.id) ∧ m.replyTo ≠ none) ∨
    ∀ a ∈ rows, a.replyTo = none

instance (rows : List Message) (question : Int) (m : Message) : Decidable (Preferred rows question m) :=
  inferInstanceAs (Decidable (_ ∨ _))

instance (rows : List Message) (question : Int) : Decidable (Unmixed rows question) :=
  inferInstanceAs (Decidable (_ ∨ _))

instance (db : Db) (rows : List Message) (question : Int) : DecidablePred (Documented db rows question)
  | some _ => inferInstanceAs (Decidable (∃ m ∈ rows, _))
  | none => inferInstanceAs (Decidable (rows = []))

section
variable {pg : Pg} {auth : AuthCtx} {target : Uuid} {session : Option String} {question : Int} {m : Message}

theorem answers_iff : answers auth target session question m = true ↔
    Candidate auth target session question m := by
  simp only [answers, addressedTo, Bool.and_eq_true, beq_iff_eq, decide_eq_true_eq]
  constructor
  · rintro ⟨⟨⟨⟨hsender, hrecipient⟩, hlater⟩, hto⟩, hfrom⟩
    refine ⟨hsender, ?_, hrecipient, ?_, hlater⟩
    · rintro s rfl
      simpa using hfrom
    · cases hs : m.recipientSession with
      | none => exact .inl rfl
      | some s => exact .inr (by simpa [hs] using hto)
  · rintro ⟨hsender, hfrom, hrecipient, hto, hlater⟩
    refine ⟨⟨⟨⟨hsender, hrecipient⟩, hlater⟩, ?_⟩, ?_⟩
    · rcases hto with hto | hto <;> simp [hto]
    · cases session with
      | none => rfl
      | some s => simpa using hfrom s rfl

instance : DecidablePred (Candidate auth target session question) := fun _ => decidable_of_iff _ answers_iff

/-- The messages that may answer the question. -/
def Db.candidates (db : Db) (auth : AuthCtx) (target : Uuid) (session : Option String) (question : Int) : List Message :=
  db.messages.filter (Candidate auth target session question)

theorem candidates_eq : pg.db.candidates auth target session question =
    pg.db.messages.filter (answers auth target session question) :=
  List.filter_congr fun _ _ => Bool.eq_iff_iff.2 (decide_eq_true_iff.trans answers_iff.symm)

instance : Std.Total (answerOrder question) where
  total a b := by
    simp only [answerOrder]
    omega

instance : IsTrans Message (answerOrder question) where
  trans a b c := by
    simp only [answerOrder]
    omega

/-- What a look finds: the first of the candidates in the order of the query, if there is one. -/
theorem findAnswer_exec (hv : pg.Valid) (auth : AuthCtx) (target : Uuid) (session : Option String) (question : Int) :
    ∃ answer, (findAnswer auth target session question).exec pg = (.ok answer, pg) ∧
      (answer = none ∧ pg.db.candidates auth target session question = [] ∨
        ∃ info, answer = some info ∧ ∃ m ∈ pg.db.candidates auth target session question,
          pg.db.messageInfo? m = some info ∧
            ∀ a ∈ pg.db.candidates auth target session question, answerOrder question m a) := by
  have hexec : (findAnswer auth target session question).exec pg = (.ok ((Rows.orderBy (answerOrder question)
      (pg.db.candidates auth target session question)).filterMap pg.db.messageInfo?).head?, pg) := by
    rw [candidates_eq]
    rfl
  refine ⟨_, hexec, ?_⟩
  have hsub : pg.db.candidates auth target session question ⊆ pg.db.messages := List.filter_subset_self _
  generalize pg.db.candidates auth target session question = rows at *
  cases hsorted : Rows.orderBy (answerOrder question) rows with
  | nil =>
    have hlen : (Rows.orderBy (answerOrder question) rows).length = rows.length := Rows.length_orderBy
    rw [hsorted] at hlen
    exact .inl ⟨rfl, List.eq_nil_of_length_eq_zero hlen.symm⟩
  | cons m rest =>
    have hhead : (Rows.orderBy (answerOrder question) rows).head? = some m := by rw [hsorted]; rfl
    obtain ⟨hm, hfirst⟩ := Rows.le_of_head?_orderBy hhead
    obtain ⟨info, hinfo⟩ := exists_messageInfo hv (hsub hm)
    refine .inr ⟨info, ?_, m, hm, hinfo, hfirst⟩
    rw [List.filterMap_cons_some hinfo]
    rfl

theorem replyRank_eq_zero : replyRank question m = 0 ↔ m.replyTo = some question := by
  unfold replyRank
  split
  · next r h => rw [h]; simp
  · next h => simp [h]

theorem replyRank_eq_two : replyRank question m = 2 ↔ m.replyTo = none := by
  unfold replyRank
  split
  · next r h =>
    rw [h]
    split <;> simp
  · next h => simp [h]

theorem replyRank_le (question : Int) (m : Message) : replyRank question m ≤ 2 := by
  unfold replyRank
  split
  · split <;> omega
  · omega

/-- The first candidate in the order of the query is the preferred one, unless it overtook a plain message. -/
theorem preferred_iff {rows : List Message} (hm : m ∈ rows)
    (hfirst : ∀ a ∈ rows, answerOrder question m a) : Preferred rows question m ↔ Unmixed rows question := by
  by_cases hreply : ∃ a ∈ rows, a.replyTo = some question
  · refine ⟨fun _ => .inl hreply, fun _ => .inl ?_⟩
    obtain ⟨a, ha, hreplies⟩ := hreply
    have hrank : replyRank question m = 0 := by
      have h := hfirst a ha
      simp only [answerOrder, replyRank_eq_zero.2 hreplies] at h
      omega
    refine ⟨replyRank_eq_zero.1 hrank, fun b hb hreplies => ?_⟩
    have h := hfirst b hb
    simp only [answerOrder, replyRank_eq_zero.2 hreplies] at h
    omega
  · have hother : ∀ a ∈ rows, a.replyTo ≠ some question := fun a ha h => hreply ⟨a, ha, h⟩
    have hrank : ∀ a ∈ rows, replyRank question a = 1 ∨ replyRank question a = 2 := fun a ha => by
      have hle := replyRank_le question a
      have hne : replyRank question a ≠ 0 := fun h => hother a ha (replyRank_eq_zero.1 h)
      omega
    constructor
    · -- The first one by id came first: it replies to something, or all the others are plain as well.
      rintro (⟨hreplies, -⟩ | ⟨-, hleast⟩)
      · exact absurd hreplies (hother m hm)
      · by_cases hplain : m.replyTo = none
        · refine .inr (.inr fun a ha => ?_)
          have hrank : replyRank question a = 2 := by
            have h := hfirst a ha
            have hle := replyRank_le question a
            simp only [answerOrder, replyRank_eq_two.2 hplain] at h
            omega
          exact replyRank_eq_two.1 hrank
        · exact .inr (.inl ⟨m, hm, hleast, hplain⟩)
    · rintro (hreply' | ⟨b, hb, hleast, hreplies⟩ | hplain)
      · exact absurd hreply' hreply
      · refine .inr ⟨hother, fun a ha => ?_⟩
        have hrankb : replyRank question b ≠ 2 := fun h => hreplies (replyRank_eq_two.1 h)
        have h := hfirst b hb
        simp only [answerOrder] at h
        have hm' := hrank m hm
        have hb' := hrank b hb
        have hmb : m.id ≤ b.id := by omega
        exact hmb.trans (hleast a ha)
      · refine .inr ⟨hother, fun a ha => ?_⟩
        have h := hfirst a ha
        simp only [answerOrder, replyRank_eq_two.2 (hplain a ha), replyRank_eq_two.2 (hplain m hm)] at h
        omega

/-- `find_answer` picks the documented answer if and only if the candidates hold a reply to the question, or the
    first of them replies to something, or none of them does. -/
theorem documented_iff (hv : pg.Valid) (auth : AuthCtx) (target : Uuid) (session : Option String) (question : Int) :
    let rows := pg.db.candidates auth target session question
    ∃ answer, (findAnswer auth target session question).exec pg = (.ok answer, pg) ∧
      (Documented pg.db rows question answer ↔ Unmixed rows question) := by
  intro rows
  have hkeys : Rows.Keyed (·.id) rows := hv.keys.messages.filter _
  obtain ⟨answer, hanswer, ⟨rfl, hnone⟩ | ⟨info, rfl, m, hm, hinfo, hfirst⟩⟩ :=
    findAnswer_exec hv auth target session question
  · refine ⟨none, hanswer, fun _ => .inr (.inr fun a ha => ?_), fun _ => hnone⟩
    have ha : a ∈ ([] : List Message) := hnone ▸ ha
    cases ha
  · refine ⟨some info, hanswer, Iff.trans ⟨?_, fun h => ⟨m, hm, hinfo, h⟩⟩ (preferred_iff hm hfirst)⟩
    rintro ⟨m', hm', hinfo', h⟩
    have hid : m'.id = m.id := (messageInfo?_id hinfo').symm.trans (messageInfo?_id hinfo)
    rwa [hkeys.eq hm' hm hid] at h

end
end CrewSync

namespace CrewSync
open Sample
attribute [local instance] Platform.ascii

/-- A direct message. -/
def direct (auth : AuthCtx) («to» body : String) (replyTo : Option Int) : Event :=
  .call auth 0 (.postMessage ⟨none, some «to», false, body, replyTo, none, []⟩)

/-- Ann asked bob two questions; he writes to her, and then replies to the first one. -/
def twoQuestions : Pg :=
  (Pg.init 0).after (crew ++ [direct ann "bob" "ready?" none, direct ann "bob" "and the docs?" none,
    direct bob "ann" "nearly there" none, direct bob "ann" "yes" (some 1)])

theorem twoQuestions_valid : twoQuestions.Valid := (Pg.Valid.init 0).after _

theorem first_answered : ∃ answer, (findAnswer ann 2 none 1).exec twoQuestions = (.ok answer, twoQuestions) ∧
    Documented twoQuestions.db (twoQuestions.db.candidates ann 2 none 1) 1 answer := by
  obtain ⟨answer, hanswer, hdoc⟩ := @documented_iff twoQuestions twoQuestions_valid ann 2 none 1
  exact ⟨answer, hanswer, hdoc.2 (.inl (by decide))⟩

/-- Bob's last message. -/
def lateReply : MessageInfo :=
  ((twoQuestions.db.messages.find? (·.id == 4)).bind twoQuestions.db.messageInfo?).get (by decide)

/-- The answer to the second question is the reply to the first one, not the earlier message. -/
theorem second_misanswered : ∃ answer, (findAnswer ann 2 none 2).exec twoQuestions = (.ok answer, twoQuestions) ∧
    answer = some lateReply ∧ lateReply.replyTo = some 1 ∧
      ¬ Documented twoQuestions.db (twoQuestions.db.candidates ann 2 none 2) 2 answer := by
  have hanswer : ((findAnswer ann 2 none 2).exec twoQuestions).1 = .ok (some lateReply) := by decide
  exact ⟨some lateReply, Prod.ext hanswer (findAnswer_readOnly _), rfl, by decide, by decide⟩

end CrewSync
