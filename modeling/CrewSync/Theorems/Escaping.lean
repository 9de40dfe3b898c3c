import CrewSync.Lib.Pieces
import CrewSync.Page

/-! HTML escaping: five replacements one after the other are one pass over the text, which can be undone, and nothing
    that is put into a slot of the page opens a tag. -/

namespace CrewSync
namespace Page
open Dashboard

/-! ### One pass -/

/-- What becomes of a character. -/
def entity (c : Char) : List Char :=
  if c = '&' then "&amp;".toList
  else if c = '<' then "&lt;".toList
  else if c = '>' then "&gt;".toList
  else if c = '"' then "&quot;".toList
  else if c = '\'' then "&#39;".toList
  else [c]

/-- The characters that are escaped. -/
def special : List Char := ['&', '<', '>', '"', '\'']

theorem entity_plain {c : Char} (h : c ∉ special) : entity c = [c] := by
  simp only [special, List.mem_cons, List.not_mem_nil, or_false, not_or] at h
  obtain ⟨h₁, h₂, h₃, h₄, h₅⟩ := h
  simp only [entity, h₁, h₂, h₃, h₄, h₅, if_false]

theorem toList_replace (s : String) (c : Char) (rep : String) :
    (replace s c rep).toList = s.toList.flatMap fun x => if x = c then rep.toList else [x] :=
  String.toList_ofList

/-- No replacement touches what the ones before it have put in. -/
theorem esc_toList (s : String) : (esc s).toList = s.toList.flatMap entity := by
  simp only [esc, toList_replace, List.flatMap_assoc]
  refine List.flatMap_congr fun c _ => ?_
  by_cases hc : c ∈ special
  · simp only [special, List.mem_cons, List.not_mem_nil, or_false] at hc
    rcases hc with rfl | rfl | rfl | rfl | rfl <;> decide
  · rw [entity_plain hc]
    simp only [special, List.mem_cons, List.not_mem_nil, or_false, not_or] at hc
    obtain ⟨h₁, h₂, h₃, h₄, h₅⟩ := hc
    simp [h₁, h₂, h₃, h₄, h₅]

/-! ### What the escaped text holds -/

theorem not_mem_entity {c x : Char} (hx : x ∈ ['<', '>', '"', '\'']) : x ∉ entity c := by
  by_cases hc : c ∈ special
  · simp only [special, List.mem_cons, List.not_mem_nil, or_false] at hc hx
    rcases hc with rfl | rfl | rfl | rfl | rfl <;> rcases hx with rfl | rfl | rfl | rfl <;> decide
  · rw [entity_plain hc, List.mem_singleton]
    rintro rfl
    exact hc (List.mem_cons_of_mem '&' hx)

/-- No markup is left. -/
theorem not_mem_esc (s : String) {x : Char} (hx : x ∈ ['<', '>', '"', '\'']) : x ∉ (esc s).toList := by
  rw [esc_toList, List.mem_flatMap]
  rintro ⟨c, -, hc⟩
  exact not_mem_entity hx hc

def entities : List (List Char) := special.map entity

theorem suffix_skip {x : Char} {post tail rest : List Char} (h : x :: post <:+ tail ++ rest) (htail : x ∉ tail) :
    x :: post <:+ rest := by
  induction tail with
  | nil => exact h
  | cons c tail ih =>
    obtain ⟨hc, htail⟩ := not_or.1 (List.mem_cons.not.1 htail)
    rcases List.suffix_cons_iff.1 h with heq | h
    · exact absurd (List.cons.inj heq).1 hc
    · exact ih h htail

/-- An ampersand starts an entity. -/
theorem entity_of_ampersand (s : String) {post : List Char} (h : '&' :: post <:+ (esc s).toList) :
    ∃ e ∈ entities, e <+: '&' :: post := by
  rw [esc_toList] at h
  generalize s.toList = cs at h
  induction cs with
  | nil => exact absurd (List.suffix_nil.1 h) (List.cons_ne_nil _ _)
  | cons c cs ih =>
    rw [List.flatMap_cons] at h
    by_cases hc : c ∈ special
    · have hentity : ∃ tail, entity c = '&' :: tail ∧ '&' ∉ tail := by
        simp only [special, List.mem_cons, List.not_mem_nil, or_false] at hc
        rcases hc with rfl | rfl | rfl | rfl | rfl <;> exact ⟨_, rfl, by decide⟩
      obtain ⟨tail, htail, hno⟩ := hentity
      rw [htail, List.cons_append] at h
      rcases List.suffix_cons_iff.1 h with heq | h
      · refine ⟨entity c, List.mem_map_of_mem hc, ?_⟩
        rw [heq, htail]
        exact List.prefix_append _ _
      · exact ih (suffix_skip h hno)
    · rw [entity_plain hc] at h
      exact ih (suffix_skip h fun hmem => hc (List.mem_singleton.1 hmem ▸ List.mem_cons_self))

/-! ### Back -/

/-- The text with its entities decoded. -/
def decode : List Char → List Char
  | '&' :: 'a' :: 'm' :: 'p' :: ';' :: cs => '&' :: decode cs
  | '&' :: 'l' :: 't' :: ';' :: cs => '<' :: decode cs
  | '&' :: 'g' :: 't' :: ';' :: cs => '>' :: decode cs
  | '&' :: 'q' :: 'u' :: 'o' :: 't' :: ';' :: cs => '"' :: decode cs
  | '&' :: '#' :: '3' :: '9' :: ';' :: cs => '\'' :: decode cs
  | c :: cs => c :: decode cs
  | [] => []

theorem decode_plain {c : Char} (h : c ≠ '&') (cs : List Char) : decode (c :: cs) = c :: decode cs := by
  rw [decode.eq_def]
  split
  · next heq => exact absurd (List.cons.inj heq).1 h
  · next heq => exact absurd (List.cons.inj heq).1 h
  · next heq => exact absurd (List.cons.inj heq).1 h
  · next heq => exact absurd (List.cons.inj heq).1 h
  · next heq => exact absurd (List.cons.inj heq).1 h
  · next heq =>
    obtain ⟨rfl, rfl⟩ := List.cons.inj heq
    rfl
  · next heq => cases heq

theorem decode_entity (c : Char) (cs : List Char) : decode (entity c ++ cs) = c :: decode cs := by
  by_cases hc : c ∈ special
  · simp only [special, List.mem_cons, List.not_mem_nil, or_false] at hc
    rcases hc with rfl | rfl | rfl | rfl | rfl <;> rfl
  · rw [entity_plain hc]
    exact decode_plain (by rintro rfl; exact hc List.mem_cons_self) cs

theorem decode_esc (s : String) : decode (esc s).toList = s.toList := by
  rw [esc_toList]
  induction s.toList with
  | nil => rfl
  | cons c cs ih => rw [List.flatMap_cons, decode_entity, ih]

/-! ### Slots -/

/-- The text holds nothing that could be read as markup. -/
def Unmarked (cs : List Char) : Prop := ∀ x ∈ cs, x ∉ ['<', '>', '"', '\'']

instance (cs : List Char) : Decidable (Unmarked cs) := List.decidableBAll _ cs

theorem unmarked_esc (s : String) : Unmarked (esc s).toList := fun _ hx hmark => not_mem_esc s hmark hx

theorem unmarked_append {cs cs' : List Char} (h : Unmarked cs) (h' : Unmarked cs') : Unmarked (cs ++ cs') := by
  intro x hx
  rcases List.mem_append.1 hx with hx | hx
  · exact h x hx
  · exact h' x hx

theorem unmarked_number (n : Nat) : Unmarked (toString n).toList := by
  intro x hx hmark
  have hdigit : x.isDigit = true := by
    rw [Nat.toString_eq_ofList_toDigits, String.toList_ofList] at hx
    exact Nat.isDigit_of_mem_toDigits (by decide) (by decide) hx
  simp only [List.mem_cons, List.not_mem_nil, or_false] at hmark
  rcases hmark with rfl | rfl | rfl | rfl <;> exact absurd hdigit (by decide)

theorem unmarked_ago (now t : Time) : Unmarked (ago now t).toList := by
  have counted : ∀ (n : Nat) (unit : String), Unmarked unit.toList → Unmarked (toString n ++ unit).toList := by
    intro n unit h
    rw [String.toList_append]
    exact unmarked_append (unmarked_number n) h
  unfold ago
  dsimp only
  split
  · exact counted _ _ (by decide)
  split
  · exact counted _ _ (by decide)
  split
  · exact counted _ _ (by decide)
  · exact counted _ _ (by decide)

theorem removeText_subset (pat : List Char) (skip : Nat) (cs : List Char) : removeText pat skip cs ⊆ cs := by
  induction cs generalizing skip with
  | nil => cases skip <;> exact List.Subset.refl _
  | cons c cs ih =>
    have htail := List.subset_cons_self c cs
    cases skip with
    | zero =>
      simp only [removeText]
      split
      · exact List.Subset.trans (ih _) htail
      · exact List.cons_subset_cons c (ih 0)
    | succ skip => exact List.Subset.trans (ih skip) htail

theorem unmarked_agoBare (now t : Time) : Unmarked (agoBare now t).toList := by
  intro x hx
  rw [agoBare, String.toList_ofList] at hx
  exact unmarked_ago now t x (removeText_subset _ _ _ hx)

/-- The texts of the template, whatever the page shows: those of its rows, then those around them. -/
def templates : List String := [
  "<tr><td>", "</td><td>", "</td><td class=\"muted\">", "</td></tr>",
  "<strong>", "</strong>", "</strong> <span class=\"muted\">/", "</span>", "@",
  "<span class=\"st st-serious\">●</span> ⛔ blocked", "<span class=\"st st-warning\">●</span> ⚙ busy",
  "<span class=\"st st-muted\">●</span> ◌ idle", "<span class=\"st st-good\">●</span> ✓ active",
  "<span class=\"st st-muted\">●</span> ○ offline",
  "<tr><td><code>", "</code></td><td>", "<span class=\"st st-good\">●</span> ✓ done",
  "<span class=\"st st-warning\">●</span> ⚙ claimed by ", "<span class=\"st st-muted\">●</span> ✕ cancelled",
  "<span class=\"st st-muted\">●</span> ◌ open",
  "#", " <span class=\"st st-warning\">●</span> announced", "<tr><td class=\"muted\">", "</td><td><strong>",
  "</strong></td><td>", "</td><td class=\"muted\">expires ",
  "<tr><td colspan=4 class=\"muted\">no locks held</td></tr>", "</td><td><code>", "/",
  head, "</title>\n" ++ style ++ "\n</head>\n<body>\n<h1>ai-crew-sync · ",
  "</h1>\n<div class=\"sub\">viewed as ",
  " · refreshes every 15s · direct messages never shown</div>\n\n<div class=\"tiles\">\n" ++
    "  <div class=\"tile\"><div class=\"n\">",
  "</div><div class=\"l\">agents online</div></div>\n  <div class=\"tile\"><div class=\"n\">",
  "</div><div class=\"l\">tasks in progress</div></div>\n  <div class=\"tile\"><div class=\"n\">",
  "</div><div class=\"l\">tasks open</div></div>\n  <div class=\"tile\"><div class=\"n\">",
  "</div><div class=\"l\">channel msgs · 24h</div></div>\n</div>\n\n<h2>Agents</h2>\n<table>",
  "</table>\n\n<h2>Tasks</h2>\n<table>", "</table>\n\n<h2>Locks</h2>\n<table>",
  "</table>\n\n<h2>Latest channel messages</h2>\n<table>",
  "</table>\n\n<h2>Recently updated notes</h2>\n<table>", "</table>\n</body>\n</html>"]

/-- Markup comes from the template only, and the template says only what is fixed. -/
def Piece.Safe : Piece → Prop
  | .template t => t ∈ templates
  | .slot s => Unmarked s.toList

theorem slot_esc (s : String) : (Piece.slot (esc s)).Safe := unmarked_esc s

theorem slot_ago (now t : Time) : (Piece.slot (ago now t)).Safe := unmarked_ago now t

theorem slot_number (n : Nat) : (Piece.slot (toString n)).Safe := unmarked_number n

theorem template_safe {t : String} : (Piece.template t).Safe ↔ t ∈ templates := Iff.rfl

theorem statusDot_mem (a : AgentRow) : statusDot a ∈ templates := by
  unfold statusDot
  repeat' split
  all_goals simp [templates]

theorem place_safe (a : AgentRow) : ∀ p ∈ place a, p.Safe := by
  unfold place
  split <;> simp [template_safe, templates, slot_esc]

theorem who_safe (a : AgentRow) : ∀ p ∈ who a, p.Safe := by
  unfold who
  split <;> simp [template_safe, templates, slot_esc]

theorem agentRow_safe (now : Time) (a : AgentRow) : ∀ p ∈ agentRow now a, p.Safe := by
  have hseen : (Piece.slot ((a.updatedAt.map (ago now)).getD "")).Safe := by
    cases a.updatedAt with
    | none => exact fun x hx => by cases hx
    | some t => exact slot_ago now t
  have hdot : (Piece.template (statusDot a)).Safe := statusDot_mem a
  simp only [agentRow, List.forall_mem_append]
  refine ⟨⟨⟨⟨?_, who_safe a⟩, ?_⟩, place_safe a⟩, ?_⟩
  · simp [template_safe, templates]
  · simp [hdot, template_safe, templates]
  · simp [hseen, slot_esc, template_safe, templates]

theorem badge_safe (t : TaskRow) : ∀ p ∈ badge t, p.Safe := by
  unfold badge
  repeat' split
  all_goals simp [template_safe, templates, slot_esc]

theorem taskRow_safe (now : Time) (t : TaskRow) : ∀ p ∈ taskRow now t, p.Safe := by
  simp only [taskRow, List.forall_mem_append]
  refine ⟨⟨?_, badge_safe t⟩, ?_⟩
  · simp [slot_esc, template_safe, templates]
  · simp [slot_esc, slot_ago, template_safe, templates]

theorem channelCell_safe (m : MessageRow) : ∀ p ∈ channelCell m, p.Safe := by
  unfold channelCell
  split <;> simp [template_safe, templates, slot_esc]

theorem messageRow_safe (now : Time) (m : MessageRow) : ∀ p ∈ messageRow now m, p.Safe := by
  simp only [messageRow, List.forall_mem_append]
  refine ⟨⟨?_, channelCell_safe m⟩, ?_⟩
  · simp [slot_ago, template_safe, templates]
  · simp [slot_esc, template_safe, templates]

theorem lockRow_safe (now : Time) (l : LockRow) : ∀ p ∈ lockRow now l, p.Safe := by
  have hexpires : (Piece.slot (agoBare now l.expiresAt)).Safe := unmarked_agoBare now _
  simp [lockRow, hexpires, slot_esc, template_safe, templates]

theorem lockRows_safe (now : Time) (locks : List LockRow) : ∀ p ∈ lockRows now locks, p.Safe := by
  unfold lockRows
  split
  · simp [template_safe, templates]
  · exact List.forall_mem_flatMap.2 fun l _ => lockRow_safe now l

theorem noteRow_safe (now : Time) (n : NoteRow) : ∀ p ∈ noteRow now n, p.Safe := by
  simp [noteRow, slot_ago, slot_esc, template_safe, templates]

theorem buildPage_safe (now : Time) (viewer : String) (s : Snapshot) : ∀ p ∈ buildPage now viewer s, p.Safe := by
  have hagents : ∀ p ∈ s.agents.flatMap (agentRow now), p.Safe := List.forall_mem_flatMap.2 fun a _ => agentRow_safe now a
  have htasks : ∀ p ∈ s.tasks.flatMap (taskRow now), p.Safe := List.forall_mem_flatMap.2 fun t _ => taskRow_safe now t
  have hmessages : ∀ p ∈ s.messages.reverse.flatMap (messageRow now), p.Safe :=
    List.forall_mem_flatMap.2 fun m _ => messageRow_safe now m
  have hnotes : ∀ p ∈ s.notes.flatMap (noteRow now), p.Safe := List.forall_mem_flatMap.2 fun n _ => noteRow_safe now n
  simp only [buildPage, List.forall_mem_append]
  refine ⟨⟨⟨⟨⟨⟨⟨⟨⟨⟨?_, hagents⟩, ?_⟩, htasks⟩, ?_⟩, lockRows_safe now s.locks⟩, ?_⟩, hmessages⟩, ?_⟩, hnotes⟩, ?_⟩
  · simp [slot_esc, template_safe, templates]
    exact ⟨slot_number _, slot_number _, slot_number _, slot_number _⟩
  all_goals simp [template_safe, templates]

theorem toList_html (now : Time) (viewer : String) (s : Snapshot) :
    (html now viewer s).toList = (buildPage now viewer s).flatMap fun p => p.text.toList := by
  simp only [html, String.toList_join, List.flatMap_map]

/-- Escaping is one pass over the text; nothing of the markup is left, an ampersand starts an entity, and decoding the
    entities gives the text back. A `<` of the page is one of a fixed text of its template, in the place that it has there;
    every text of the template is fixed. -/
theorem escaping_safe :
    (∀ s : String, (esc s).toList = s.toList.flatMap entity ∧ Unmarked (esc s).toList ∧
      (∀ post, '&' :: post <:+ (esc s).toList → ∃ e ∈ entities, e <+: '&' :: post) ∧
      decode (esc s).toList = s.toList) ∧
    ∀ (now : Time) (viewer : String) (s : Snapshot), (∀ t, .template t ∈ buildPage now viewer s → t ∈ templates) ∧
      ∀ pre post : List Char, (html now viewer s).toList = pre ++ '<' :: post →
        ∃ before t after a b, buildPage now viewer s = before ++ .template t :: after ∧ t ∈ templates ∧
          t.toList = a ++ '<' :: b ∧ pre = (before.flatMap fun p => p.text.toList) ++ a ∧
          post = b ++ after.flatMap fun p => p.text.toList := by
  refine ⟨fun s => ⟨esc_toList s, unmarked_esc s, fun post h => entity_of_ampersand s h, decode_esc s⟩,
    fun now viewer s => ?_⟩
  have hfixed : ∀ t, .template t ∈ buildPage now viewer s → t ∈ templates := fun t ht => buildPage_safe now viewer s _ ht
  refine ⟨hfixed, fun pre post h => ?_⟩
  rw [toList_html] at h
  obtain ⟨before, p, after, a, b, hpage, hp, hpre, hpost⟩ := Pieces.split_flatMap h
  cases p with
  | template t =>
    exact ⟨before, t, after, a, b, hpage, hfixed t (hpage ▸ List.mem_append_right _ List.mem_cons_self), hp, hpre, hpost⟩
  | slot t =>
    have hmem : Piece.slot t ∈ buildPage now viewer s := hpage ▸ List.mem_append_right _ List.mem_cons_self
    have hsafe : Unmarked t.toList := buildPage_safe now viewer s _ hmem
    have hlt : '<' ∈ t.toList := (show t.toList = a ++ '<' :: b from hp) ▸ List.mem_append_right _ List.mem_cons_self
    exact absurd List.mem_cons_self (hsafe '<' hlt)

end Page
end CrewSync
