import CrewSync.Theorems.Access
import CrewSync.Theorems.Grants
import CrewSync.Theorems.Sessions
import Mathlib.Data.Bool.AllAny

/-! The dashboard. A page is shown to who bears a token, and for an hour to the browser of who has logged in with one: its
    cookie is read back from whatever else the browser sends, and nobody else has one. -/

namespace CrewSync
open Strip

/-! ### Cookies -/

theorem splitOnce_append {c : Char} {before : List Char} (h : c ∉ before) (after : List Char) :
    splitOnce c (before ++ c :: after) = some (before, after) := by
  induction before with
  | nil => simp [splitOnce]
  | cons x before ih =>
    obtain ⟨hx, hbefore⟩ := not_or.1 (List.mem_cons.not.1 h)
    rw [List.cons_append, splitOnce, if_neg (Ne.symm hx), ih hbefore]
    rfl

/-- A cookie as a browser may send it. -/
def Sendable (cookie : String) : Prop := ∀ c ∈ cookie.toList, c ≠ ';' ∧ c.toNat < 128 ∧ isControl c = false

instance (cookie : String) : Decidable (Sendable cookie) := List.decidableBAll _ _

/-- The header of a browser with these cookies. -/
def cookieHeader (cookies : List String) : HeaderValue := headerOf ("; ".intercalate cookies)

/-- The name of a cookie, and its value. -/
def cookiePair (cookie : String) : Option (List Char × List Char) := splitOnce '=' (trim cookie).toList

theorem mem_intercalate {cookies : List String} {c : Char} (h : c ∈ ("; ".intercalate cookies).toList) :
    c = ';' ∨ c = ' ' ∨ ∃ cookie ∈ cookies, c ∈ cookie.toList := by
  induction cookies with
  | nil => simp at h
  | cons cookie cookies ih =>
    cases cookies with
    | nil =>
      rw [String.intercalate_singleton] at h
      exact .inr (.inr ⟨cookie, List.mem_cons_self, h⟩)
    | cons next rest =>
      rw [String.intercalate_cons_cons, String.toList_append, String.toList_append, List.mem_append, List.mem_append] at h
      rcases h with (h | h) | h
      · exact .inr (.inr ⟨cookie, List.mem_cons_self, h⟩)
      · have hsep : c ∈ [';', ' '] := h
        simp only [List.mem_cons, List.not_mem_nil, or_false] at hsep
        exact hsep.imp_right .inl
      · rcases ih h with h | h | ⟨other, hother, h⟩
        · exact .inl h
        · exact .inr (.inl h)
        · exact .inr (.inr ⟨other, List.mem_cons_of_mem _ hother, h⟩)

theorem headerToStr_cookies {cookies : List String} (h : ∀ cookie ∈ cookies, Sendable cookie) :
    headerToStr (cookieHeader cookies) = some ("; ".intercalate cookies) := by
  refine headerToStr_headerOf (fun c hc => ?_) fun c hc => ?_
  · rcases mem_intercalate hc with rfl | rfl | ⟨cookie, hcookie, hc⟩
    · decide
    · decide
    · exact (h cookie hcookie c hc).2.1
  · rcases mem_intercalate hc with rfl | rfl | ⟨cookie, hcookie, hc⟩
    · decide
    · decide
    · exact (h cookie hcookie c hc).2.2

/-- White space before a cookie is no part of it. -/
theorem trim_space (cs : List Char) : trim (String.ofList (' ' :: cs)) = trim (String.ofList cs) := by
  simp only [trim, String.toList_ofList]
  rw [List.dropWhile_cons_of_pos (by decide)]

/-- The parts of the header are the cookies. -/
theorem split_cookies {cookies : List String} (hne : cookies ≠ []) (h : ∀ cookie ∈ cookies, Sendable cookie) :
    ((("; ".intercalate cookies).toList.splitOn ';').map fun part => trim (String.ofList part)) = cookies.map trim := by
  induction cookies with
  | nil => exact absurd rfl hne
  | cons cookie cookies ih =>
    have hself : ';' ∉ cookie.toList := fun hmem => (h cookie List.mem_cons_self _ hmem).1 rfl
    cases cookies with
    | nil =>
      rw [String.intercalate_singleton, List.splitOn_eq_singleton hself]
      simp
    | cons next rest =>
      have ih := ih (by simp) fun c hc => h c (List.mem_cons_of_mem _ hc)
      have hsep : "; ".toList = [';', ' '] := rfl
      rw [String.intercalate_cons_cons, String.toList_append, String.toList_append, hsep, List.append_assoc, List.cons_append,
        List.splitOn_append_cons_self_of_not_mem hself, List.map_cons, String.ofList_toList, List.map_cons]
      refine congrArg _ ?_
      rw [← ih, List.singleton_append, List.splitOn_cons_eq_if_modifyHead, if_neg (by decide)]
      -- The space goes to the first of the parts behind it.
      obtain ⟨first, parts, hparts⟩ := List.exists_cons_of_ne_nil (List.splitOn_ne_nil ';' ("; ".intercalate (next :: rest)).toList)
      rw [hparts, List.modifyHead_cons, List.map_cons, List.map_cons, trim_space]

theorem cookieValue_eq {header : HeaderValue} {text : String} (h : headerToStr header = some text) (name : String) :
    cookieValue (some header) name = (((text.toList.splitOn ';').filterMap fun part =>
      splitOnce '=' (trim (String.ofList part)).toList).find? fun p => String.ofList p.1 == name).map
        fun p => String.ofList p.2 := by
  simp only [cookieValue, Option.bind_some, h, bind, pure]
  cases ((text.toList.splitOn ';').filterMap fun part => splitOnce '=' (trim (String.ofList part)).toList).find?
    fun p => String.ofList p.1 == name <;> rfl

/-- The value of the first cookie with the name. -/
theorem cookieValue_cookies {before after : List String} {cookie name : String} {value : List Char}
    (h : ∀ c ∈ before ++ cookie :: after, Sendable c) (hpair : cookiePair cookie = some (name.toList, value))
    (hfirst : ∀ c ∈ before, ∀ p, cookiePair c = some p → String.ofList p.1 ≠ name) :
    cookieValue (some (cookieHeader (before ++ cookie :: after))) name = some (String.ofList value) := by
  have hsplit := congrArg (List.filterMap fun part : String => splitOnce '=' part.toList) (split_cookies (by simp) h)
  simp only [List.filterMap_map, Function.comp_def] at hsplit
  have hnone : (before.filterMap cookiePair).find? (fun p => String.ofList p.1 == name) = none := by
    rw [List.find?_eq_none]
    intro p hp
    obtain ⟨c, hc, hcp⟩ := List.mem_filterMap.1 hp
    rw [beq_iff_eq]
    exact hfirst c hc p hcp
  have hfind : ((before ++ cookie :: after).filterMap cookiePair).find? (fun p => String.ofList p.1 == name) =
      some (name.toList, value) := by
    rw [List.filterMap_append, List.filterMap_cons_some hpair, List.find?_append, hnone, Option.none_or,
      List.find?_cons_of_pos]
    rw [String.ofList_toList, beq_self_eq_true]
  have hpairs : (fun c : String => splitOnce '=' (trim c).toList) = cookiePair := rfl
  rw [cookieValue_eq (headerToStr_cookies h), hsplit, hpairs, hfind]
  rfl

/-! ### Grants -/

/-- What the code relies on: the text of a `UUID` is hexadecimal digits and hyphens. -/
class Platform.HexUuid [Platform] : Prop extends Platform.Lawful where
  hex (u : Uuid) : ∀ c ∈ (Platform.uuidText u).toList, c = '-' ∨ (Hex.nibble c).isSome = true

theorem nibble_of_isDigit {c : Char} (h : c.isDigit = true) : (Hex.nibble c).isSome = true := by
  rw [Char.isDigit, Bool.and_eq_true, decide_eq_true_eq, decide_eq_true_eq] at h
  rw [Hex.nibble, if_pos]
  · rfl
  · exact h

theorem Platform.ascii_hexUuid : @Platform.HexUuid Platform.ascii := by
  have hstart : ∀ c ∈ "00000000-0000-4000-8000-".toList, c = '-' ∨ (Hex.nibble c).isSome = true :=
    List.all_iff_forall_prop.1 (by decide)
  refine @Platform.HexUuid.mk Platform.ascii Platform.ascii_lawful fun u c hc => ?_
  change c ∈ ("00000000-0000-4000-8000-" ++ String.ofList (List.replicate (12 - (Nat.toDigits 10 u).length) '0' ++
    Nat.toDigits 10 u)).toList at hc
  simp only [String.toList_append, String.toList_ofList, List.mem_append] at hc
  rcases hc with hc | hc | hc
  · exact hstart c hc
  · rw [List.eq_of_mem_replicate hc]
    exact .inr (by decide)
  · exact .inr (nibble_of_isDigit (Nat.isDigit_of_mem_toDigits (by decide) (by decide) hc))

/-- A character of a grant. -/
def grantChar (c : Char) : Bool := c == '-' || c == '.' || (Hex.nibble c).isSome

theorem nibble_range {c : Char} (h : (Hex.nibble c).isSome = true) : (48 ≤ c.toNat ∧ c.toNat ≤ 57) ∨ (65 ≤ c.toNat ∧ c.toNat ≤ 102) := by
  have hrange : ∀ lo hi : Char, lo ≤ c ∧ c ≤ hi → lo.toNat ≤ c.toNat ∧ c.toNat ≤ hi.toNat := fun lo hi h => h
  unfold Hex.nibble at h
  split at h
  · next hdigit => exact .inl (hrange _ _ hdigit)
  · split at h
    · next hlower =>
      have hlower := hrange _ _ hlower
      change 97 ≤ c.toNat ∧ c.toNat ≤ 102 at hlower
      exact .inr (by omega)
    · split at h
      · next hupper =>
        have hupper := hrange _ _ hupper
        change 65 ≤ c.toNat ∧ c.toNat ≤ 70 at hupper
        exact .inr (by omega)
      · cases h

theorem grantChar_spec {c : Char} (h : grantChar c = true) :
    c ≠ ';' ∧ c.toNat < 128 ∧ isControl c = false ∧ isWhitespace c = false := by
  have hrange : 45 ≤ c.toNat ∧ c.toNat ≤ 102 ∧ c.toNat ≠ 59 := by
    simp only [grantChar, Bool.or_eq_true, beq_iff_eq] at h
    rcases h with (rfl | rfl) | h
    · decide
    · decide
    · have := nibble_range h
      omega
  refine ⟨?_, by omega, ?_, ?_⟩
  · rintro rfl
    exact hrange.2.2 rfl
  · simp only [isControl, Bool.or_eq_false_iff, Bool.and_eq_false_iff, decide_eq_false_iff_not]
    omega
  · simp only [isWhitespace, Bool.or_eq_false_iff, Bool.and_eq_false_iff, decide_eq_false_iff_not, beq_eq_false_iff_ne]
    omega

section
variable [Platform] [Sha256] [Platform.HexUuid]

theorem issue_chars (secret : List UInt8) (team : Uuid) (now ttl : Int) :
    ∀ c ∈ (Grant.issue secret team now ttl).toList, grantChar c = true := by
  intro c hc
  rw [Grant.issue, String.toList_ofList, Grant.payload] at hc
  simp only [List.mem_append, List.mem_cons] at hc
  rcases hc with (hc | rfl | hc) | rfl | hc
  · rcases Platform.HexUuid.hex team c hc with rfl | h
    · decide
    · simp [grantChar, h]
  · decide
  · rcases Decimal.of_mem_text hc with rfl | h
    · decide
    · simp [grantChar, nibble_of_isDigit h]
  · decide
  · simp [grantChar, Hex.of_mem_encode hc]

/-- What a browser keeps of a `Set-Cookie` header, and sends back. -/
def kept (setCookie : String) : String := String.ofList (setCookie.toList.takeWhile (· ≠ ';'))

omit [Platform] [Sha256] [Platform.HexUuid] in
theorem kept_eq {text : String} {cookie rest : List Char} (h : text.toList = cookie ++ ';' :: rest) (hcookie : ';' ∉ cookie) :
    kept text = String.ofList cookie := by
  rw [kept, h, List.takeWhile_append_of_pos fun c hc => by
    rw [decide_eq_true_eq]
    rintro rfl
    exact hcookie hc]
  rw [List.takeWhile_cons_of_neg (by simp), List.append_nil]

/-- The cookie of a login holds the grant. -/
theorem kept_grant {secret : List UInt8} {team : Uuid} {now ttl : Int} {text : String} {rest : List Char}
    (htext : text.toList = Site.cookieName.toList ++ '=' :: (Grant.issue secret team now ttl).toList ++ ';' :: rest) :
    Sendable (kept text) ∧ cookiePair (kept text) = some (Site.cookieName.toList, (Grant.issue secret team now ttl).toList) := by
  have hname : ∀ c ∈ Site.cookieName.toList, c ≠ ';' ∧ c ≠ '=' ∧ c.toNat < 128 ∧ isControl c = false ∧ isWhitespace c = false :=
    List.all_iff_forall_prop.1 (by decide)
  have hchar : ∀ c ∈ Site.cookieName.toList ++ '=' :: (Grant.issue secret team now ttl).toList,
      c ≠ ';' ∧ c.toNat < 128 ∧ isControl c = false ∧ isWhitespace c = false := by
    intro c hc
    rcases List.mem_append.1 hc with hc | hc
    · obtain ⟨hsep, -, hrest⟩ := hname c hc
      exact ⟨hsep, hrest⟩
    · rcases List.mem_cons.1 hc with rfl | hc
      · decide
      · exact grantChar_spec (issue_chars secret team now ttl c hc)
  have hkept := kept_eq htext fun hmem => (hchar _ hmem).1 rfl
  rw [hkept]
  constructor
  · intro c hc
    rw [String.toList_ofList] at hc
    obtain ⟨hsep, hascii, hcontrol, -⟩ := hchar c hc
    exact ⟨hsep, hascii, hcontrol⟩
  · rw [cookiePair, trim_eq_self_iff.2, String.toList_ofList]
    · exact splitOnce_append (fun hmem => (hname _ hmem).2.1 rfl) _
    · rw [String.toList_ofList]
      exact Clean.of_forall fun c hc => (hchar c hc).2.2.2

/-! ### The grants of a run -/

omit [Platform.HexUuid] in
/-- A grant is accepted until it expires. -/
theorem verify_issue [Platform.Lawful] {secret : List UInt8} {i : Grant.Issued} (hfits : i.Fits) {now : Int} (hnow : now < i.expiry) :
    Grant.verify secret (Grant.issue secret i.team i.now i.ttl) now = some i.team := by
  obtain ⟨teamText, expiryText, hsigned, hteam, hexpiry⟩ := Grant.read_payload i.team hfits
  have hgrant : rsplitOnce '.' (Grant.issue secret i.team i.now i.ttl).toList = some (Grant.payload i.team i.expiry,
      Hex.encode (Grant.hmacSha256 secret (Grant.bytes (Grant.payload i.team i.expiry)))) := by
    rw [Grant.issue, String.toList_ofList]
    exact rsplitOnce_append _ (Grant.dot_not_mem_encode _)
  exact (Grant.verify_parts hgrant hsigned).2 ⟨Hex.decode_encode _, ⟨i.expiry, hexpiry, hnow⟩, hteam⟩

omit [Platform.HexUuid] in
/-- What is accepted and not forged was issued for the team, and has not expired. -/
theorem issued_of_verify [Platform.Lawful] {secret : List UInt8} {issued : List Grant.Issued} (hfits : ∀ i ∈ issued, i.Fits)
    {grant : String} {now : Int} {team : Uuid} (hunforged : Grant.Unforged secret issued grant)
    (h : Grant.verify secret grant now = some team) : ∃ i ∈ issued, i.team = team ∧ now < i.expiry := by
  cases hgrant : rsplitOnce '.' grant.toList with
  | none => simp [Grant.verify, hgrant] at h
  | some parts =>
    obtain ⟨signed, tagHex⟩ := parts
    cases hsigned : rsplitOnce '.' signed with
    | none => simp [Grant.verify, hgrant, hsigned] at h
    | some parts =>
      obtain ⟨teamText, expiryText⟩ := parts
      obtain ⟨htag, ⟨expiry, hread, hnow⟩, hparse⟩ := (Grant.verify_parts hgrant hsigned).1 h
      obtain ⟨i, hi, rfl⟩ := hunforged signed tagHex (rsplitOnce_some hgrant) htag
      obtain ⟨teamText', expiryText', hsigned', hteam, hexpiry⟩ := Grant.read_payload i.team (hfits i hi)
      obtain ⟨rfl, rfl⟩ := Prod.mk.inj (Option.some.inj (hsigned'.symm.trans hsigned))
      obtain rfl := Option.some.inj (hread.symm.trans hexpiry)
      exact ⟨i, hi, Option.some.inj (hteam.symm.trans hparse), hnow⟩

namespace Site
variable {o : ServeOptions} {s : Site}

/-- The grants that a visit is given. -/
def mints (s : Site) : Visit → List Grant.Issued
  | .login token _ => ((s.loginAs token).map fun r => ⟨r.1.teamId, unix s.pg.now, grantTtlSecs⟩).toList
  | _ => []

def minted (o : ServeOptions) (s : Site) (vs : List Visit) : List Grant.Issued := Runs.outputs (next o) mints s vs

/-- A login of the run, with the agent that logged in and the time. -/
def LoggedIn (o : ServeOptions) (s : Site) (vs : List Visit) (team : Uuid) (time : Int) : Prop :=
  ∃ vs₁ token secure vs₂ raw ctx s', vs = vs₁ ++ .login token secure :: vs₂ ∧ token = some raw ∧
    (s.after o vs₁).resolveToken raw = (.ok ctx, s') ∧ ctx.teamId = team ∧ unix (s.after o vs₁).pg.now = time

omit [Platform.HexUuid] in
theorem mem_minted {vs : List Visit} {i : Grant.Issued} (h : i ∈ minted o s vs) :
    i.ttl = grantTtlSecs ∧ LoggedIn o s vs i.team i.now := by
  obtain ⟨vs₁, v, vs₂, hvs, hi⟩ := Runs.mem_outputs.1 h
  cases v with
  | login token secure =>
    simp only [mints, Option.mem_toList, Option.map_eq_some_iff] at hi
    obtain ⟨⟨ctx, s'⟩, hlogin, rfl⟩ := hi
    refine ⟨rfl, ?_⟩
    rcases loginAs_cases (s.after o vs₁) token with hnone | ⟨raw, ctx', s'', htoken, hresolve, hsome⟩
    · cases hnone.symm.trans hlogin
    · cases hsome.symm.trans hlogin
      exact ⟨vs₁, token, secure, vs₂, raw, ctx, s', hvs, htoken, hresolve, rfl, rfl⟩
  | _ => cases hi

omit [Platform.HexUuid] in
/-- What a login answers. -/
theorem login_eq {token : Option String} {ctx : AuthCtx} {s' : Site} (h : s.loginAs token = some (ctx, s')) (secure : Bool) :
    ∃ setCookie rest, (s.login o token secure).1 = .ok setCookie ∧ setCookie.toList = cookieName.toList ++ '=' ::
      (Grant.issue o.dashboardSecret ctx.teamId (unix s.pg.now) grantTtlSecs).toList ++ ';' :: rest := by
  have hsome : (token.filter fun t => !(trim t).isEmpty).isNone = false := by
    rw [loginAs] at h
    cases hfilter : token.filter fun t => !(trim t).isEmpty with
    | none =>
      rw [hfilter] at h
      cases h
    | some raw => rfl
  have hpg : s'.pg = s.pg := by
    rcases loginAs_cases s token with hnone | ⟨raw, ctx', s'', -, hresolve, hsome⟩
    · cases hnone.symm.trans h
    · cases hsome.symm.trans h
      have hkept := (resolveToken_kept s raw).pg
      rwa [hresolve] at hkept
  have hsep : "; Path=/dashboard; HttpOnly; SameSite=Strict; Max-Age=".toList =
      ';' :: " Path=/dashboard; HttpOnly; SameSite=Strict; Max-Age=".toList := rfl
  rw [login, hsome, if_neg (by decide), h]
  dsimp only
  rw [hpg]
  refine ⟨_, " Path=/dashboard; HttpOnly; SameSite=Strict; Max-Age=".toList ++ (toString grantTtlSecs).toList ++
    (if secure then "; Secure" else "").toList, rfl, ?_⟩
  simp only [String.toList_append, hsep, List.append_assoc, List.cons_append, toString]
  rfl

/-- The dashboard is open to members. A page of a team is shown to who bears a token of an enabled agent of the team, and
    through a cookie that is not forged, in the hour after a login with such a token; and through that hour the browser
    that logged in is shown the page, whatever other cookies it sends and whatever became of the token. -/
theorem dashboard_open (o : ServeOptions) (now : Time) (vs : List Visit) (hfits : ∀ i ∈ minted o (start now) vs, i.Fits) :
    let s := (start now).after o vs
    (∀ authorization cookie team,
      (∀ grant, cookieValue cookie cookieName = some grant →
        Grant.Unforged o.dashboardSecret (minted o (start now) vs) grant) →
      (s.viewed o authorization cookie).1 = .ok team →
        (∃ time, LoggedIn o (start now) vs team time ∧ unix s.pg.now < time + grantTtlSecs) ∨
          ∃ raw ctx, bearer authorization = some raw ∧ (s.resolveToken raw).1 = .ok ctx ∧ ctx.teamId = team) ∧
      ∀ vs₁ token secure vs₂ ctx s', vs = vs₁ ++ .login token secure :: vs₂ →
        ((start now).after o vs₁).loginAs token = some (ctx, s') →
          ∃ setCookie, (((start now).after o vs₁).login o token secure).1 = .ok setCookie ∧
            (unix s.pg.now < unix ((start now).after o vs₁).pg.now + grantTtlSecs →
              ∀ authorization before after, (∀ c ∈ before ++ after, Sendable c) →
                (∀ c ∈ before, ∀ p, cookiePair c = some p → String.ofList p.1 ≠ cookieName) →
                  (s.viewed o authorization (some (cookieHeader (before ++ kept setCookie :: after)))).1 = .ok ctx.teamId) := by
  intro s
  constructor
  · intro authorization cookie team hunforged hviewed
    unfold viewed at hviewed
    cases hcookie : (cookieValue cookie cookieName).bind fun g => Grant.verify o.dashboardSecret g (unix s.pg.now) with
    | some team' =>
      rw [hcookie] at hviewed
      obtain rfl := Except.ok.inj hviewed
      obtain ⟨grant, hgrant, hverify⟩ := Option.bind_eq_some_iff.1 hcookie
      obtain ⟨i, hi, rfl, hnow⟩ := issued_of_verify hfits (hunforged grant hgrant) hverify
      obtain ⟨httl, hlogin⟩ := mem_minted hi
      rw [Grant.Issued.expiry, httl] at hnow
      exact .inl ⟨i.now, hlogin, hnow⟩
    | none =>
      rw [hcookie] at hviewed
      cases hbearer : bearer authorization with
      | none =>
        rw [hbearer] at hviewed
        cases hviewed
      | some raw =>
        rw [hbearer] at hviewed
        dsimp only at hviewed
        rcases hresolve : s.resolveToken raw with ⟨e | ctx, s'⟩
        · rw [hresolve] at hviewed
          cases hviewed
        · rw [hresolve] at hviewed
          exact .inr ⟨raw, ctx, rfl, by rw [hresolve], Except.ok.inj hviewed⟩
  · intro vs₁ token secure vs₂ ctx s' hvs hlogin
    obtain ⟨setCookie, rest, hanswer, htext⟩ := login_eq (o := o) hlogin secure
    refine ⟨setCookie, hanswer, fun hnow authorization before after hplain hfirst => ?_⟩
    obtain ⟨hsendable, hpair⟩ := kept_grant htext
    have hmint : (⟨ctx.teamId, unix ((start now).after o vs₁).pg.now, grantTtlSecs⟩ : Grant.Issued) ∈ minted o (start now) vs := by
      refine Runs.mem_outputs.2 ⟨vs₁, .login token secure, vs₂, hvs, ?_⟩
      change _ ∈ mints ((start now).after o vs₁) (.login token secure)
      rw [mints, hlogin]
      exact List.mem_singleton_self _
    have hcookie : cookieValue (some (cookieHeader (before ++ kept setCookie :: after))) cookieName = some
        (Grant.issue o.dashboardSecret ctx.teamId (unix ((start now).after o vs₁).pg.now) grantTtlSecs) := by
      rw [cookieValue_cookies (fun c hc => ?_) hpair hfirst, String.ofList_toList]
      rcases List.mem_append.1 hc with hc | hc
      · exact hplain c (List.mem_append_left _ hc)
      · rcases List.mem_cons.1 hc with rfl | hc
        · exact hsendable
        · exact hplain c (List.mem_append_right _ hc)
    rw [viewed, hcookie, Option.bind_some, verify_issue (hfits _ hmint) hnow]

end Site
end
end CrewSync

namespace CrewSync.Sample
attribute [local instance] Platform.ascii Sha256.fips

def noLimit : ServeOptions := { limiter := none, dashboardSecret := [0x73] }

/-- The bytes of ann's token. -/
def drawnBytes : { bytes : List UInt8 // bytes.length = 32 } := ⟨List.replicate 32 0xab, rfl⟩

/-- The operator sets up the crew and hands ann a token. -/
def handedOut : List Visit :=
  [.within (.command 0 (.teamCreate "core" none)) rfl, .within (.command 0 (.agentAdd "core" "ann" none)) rfl,
   .tokenIssue drawnBytes "core" "ann" none]

def annLogin : Visit := .login (some (generateToken drawnBytes)) true

/-- Ann logs in; then her token is revoked, and half an hour passes. -/
def revokedLater : List Visit := handedOut ++ annLogin :: [.tokenRevoke 0, .within (.tick 1800000000) rfl]

theorem revoked_stays_open :
    let s := (Site.start 0).after noLimit revokedLater
    (s.resolveToken (generateToken drawnBytes)).1 = .error .invalid ∧
      ∃ setCookie, (((Site.start 0).after noLimit handedOut).login noLimit (some (generateToken drawnBytes)) true).1 = .ok setCookie ∧
        (s.viewed noLimit none (some (cookieHeader ["theme=dark", kept setCookie]))).1 = .ok 0 := by
  intro s
  refine ⟨by decide +kernel, ?_⟩
  have hfits : ∀ i ∈ Site.minted noLimit (Site.start 0) revokedLater, i.Fits := by decide +kernel
  obtain ⟨⟨ctx, s'⟩, hlogin⟩ : ∃ r, ((Site.start 0).after noLimit handedOut).loginAs (some (generateToken drawnBytes)) = some r :=
    Option.isSome_iff_exists.1 (by decide +kernel)
  have hteam : (((Site.start 0).after noLimit handedOut).loginAs (some (generateToken drawnBytes))).map (·.1.teamId) = some 0 := by
    decide +kernel
  rw [hlogin] at hteam
  have hteam : ctx.teamId = 0 := Option.some.inj hteam
  have htheme : ∀ c ∈ ["theme=dark"], ∀ p, cookiePair c = some p → String.ofList p.1 ≠ Site.cookieName := by
    intro c hc p hp
    rw [List.mem_singleton.1 hc] at hp
    obtain rfl := Option.some.inj hp
    decide
  obtain ⟨setCookie, hanswer, hopen⟩ := (@Site.dashboard_open Platform.ascii Sha256.fips Platform.ascii_hexUuid noLimit 0
    revokedLater hfits).2 handedOut _ true _ ctx s' rfl hlogin
  have hview := hopen (by decide +kernel) none ["theme=dark"] [] (by decide) htheme
  rw [hteam] at hview
  exact ⟨setCookie, hanswer, hview⟩

end CrewSync.Sample
