import CrewSync.Grant

/-! Grants are accepted as they were issued: everything that a verified grant is read for is under its tag. -/

namespace CrewSync

/-! ### Splitting from the right -/

theorem rsplitOnce_none {c : Char} {cs : List Char} (h : c ∉ cs) : rsplitOnce c cs = none := by
  induction cs with
  | nil => rfl
  | cons x xs ih =>
    obtain ⟨hx, hxs⟩ := not_or.1 (List.mem_cons.not.1 h)
    simp only [rsplitOnce, ih hxs, Ne.symm hx, if_false]

/-- The part behind the last `c`. -/
theorem rsplitOnce_append {c : Char} (before : List Char) {after : List Char} (h : c ∉ after) :
    rsplitOnce c (before ++ c :: after) = some (before, after) := by
  induction before with
  | nil => simp only [List.nil_append, rsplitOnce, rsplitOnce_none h, if_true]
  | cons x before ih => simp only [List.cons_append, rsplitOnce, ih]

theorem rsplitOnce_some {c : Char} {cs before after : List Char} (h : rsplitOnce c cs = some (before, after)) :
    cs = before ++ c :: after := by
  induction cs generalizing before with
  | nil => cases h
  | cons x xs ih =>
    simp only [rsplitOnce] at h
    cases hrest : rsplitOnce c xs with
    | some p =>
      obtain ⟨before', after'⟩ := p
      simp only [hrest, Option.some.injEq, Prod.mk.injEq] at h
      obtain ⟨rfl, rfl⟩ := h
      rw [ih hrest, List.cons_append]
    | none =>
      simp only [hrest] at h
      split at h
      · next hx =>
        simp only [Option.some.injEq, Prod.mk.injEq] at h
        obtain ⟨rfl, rfl⟩ := h
        rw [hx, List.nil_append]
      · cases h

namespace Grant

/-! ### Comparing -/

theorem foldl_or_eq_zero {bs : List UInt8} {acc : UInt8} :
    bs.foldl (· ||| ·) acc = 0 ↔ acc = 0 ∧ ∀ b ∈ bs, b = 0 := by
  induction bs generalizing acc with
  | nil => simp
  | cons b bs ih => simp [ih, and_assoc]

/-- The comparison is equality. -/
theorem eqCt_iff {a b : List UInt8} : eqCt a b = true ↔ a = b := by
  unfold eqCt
  split
  · next hlength =>
    refine iff_of_false (by simp) ?_
    rintro rfl
    exact hlength rfl
  · next hlength =>
    replace hlength := not_not.1 hlength
    rw [beq_iff_eq, foldl_or_eq_zero, and_iff_right rfl]
    induction a generalizing b with
    | nil =>
      obtain rfl := List.length_eq_zero_iff.1 hlength.symm
      simp
    | cons x xs ih =>
      cases b with
      | nil => cases hlength
      | cons y ys =>
        have hrest := ih (b := ys) (Nat.succ.inj hlength)
        simp only [List.zipWith_cons_cons, List.forall_mem_cons, UInt8.xor_eq_zero_iff, hrest, List.cons.injEq]

/-! ### Reading back -/

theorem dot_not_mem_text (n : Int) : '.' ∉ Decimal.text n := by
  intro h
  rcases Decimal.of_mem_text h with h | h <;> exact absurd h (by decide)

theorem dot_not_mem_encode (bs : List UInt8) : '.' ∉ Hex.encode bs := fun h => absurd (Hex.of_mem_encode h) (by decide)

theorem parseI64_text {n : Int} (h : -2 ^ 63 ≤ n ∧ n < 2 ^ 63) : parseI64 (Decimal.text n) = some n := by
  rw [parseI64, Decimal.parse_text, Option.filter_some, if_pos (decide_eq_true h)]

section
variable [Platform]

theorem rsplit_payload (team : Uuid) (expiry : Int) :
    rsplitOnce '.' (payload team expiry) = some ((Platform.uuidText team).toList, Decimal.text expiry) :=
  rsplitOnce_append _ (dot_not_mem_text expiry)

variable [Sha256] {secret : List UInt8} {now : Int} {team : Uuid}

/-- What the verification comes to, for a grant in its parts. -/
theorem verify_parts {grant : String} {signed tagHex teamText expiryText : List Char}
    (hgrant : rsplitOnce '.' grant.toList = some (signed, tagHex))
    (hsigned : rsplitOnce '.' signed = some (teamText, expiryText)) :
    verify secret grant now = some team ↔ Hex.decode tagHex = some (hmacSha256 secret (bytes signed)) ∧
      (∃ expiry, parseI64 expiryText = some expiry ∧ now < expiry) ∧
        Platform.parseUuid (String.ofList teamText) = some team := by
  simp only [verify, hgrant, hsigned, bind, Option.bind_some]
  cases hdecode : Hex.decode tagHex with
  | none => simp
  | some presented =>
    rw [Option.bind_some, Option.some.injEq]
    by_cases heq : presented = hmacSha256 secret (bytes signed)
    · subst heq
      have hct : eqCt (hmacSha256 secret (bytes signed)) (hmacSha256 secret (bytes signed)) = true :=
        eqCt_iff.2 rfl
      cases parseI64 expiryText with
      | none => simp [hct]
      | some expiry =>
        by_cases hlate : expiry ≤ now
        · simp [hct, hlate, Int.not_lt.2 hlate]
        · simp [hct, hlate, Int.not_le.1 hlate]
    · have hct : eqCt (hmacSha256 secret (bytes signed)) presented = false :=
        Bool.eq_false_iff.2 fun h => heq (eqCt_iff.1 h).symm
      simp [hct, heq]

variable [Platform.Lawful]

omit [Sha256] in
/-- A payload says what it was made of. -/
theorem read_payload (team : Uuid) {expiry : Int} (h : -2 ^ 63 ≤ expiry ∧ expiry < 2 ^ 63) :
    ∃ teamText expiryText, rsplitOnce '.' (payload team expiry) = some (teamText, expiryText) ∧
      Platform.parseUuid (String.ofList teamText) = some team ∧ parseI64 expiryText = some expiry := by
  refine ⟨_, _, rsplit_payload team expiry, ?_, parseI64_text h⟩
  rw [String.ofList_toList]
  exact Platform.Lawful.parse_text team

end

/-- A call of `issue`. -/
structure Issued where
  team : Uuid
  now : Int
  ttl : Int

def Issued.expiry (i : Issued) : Int := i.now + i.ttl

/-- The expiry fits in an `i64`. -/
def Issued.Fits (i : Issued) : Prop := -2 ^ 63 ≤ i.expiry ∧ i.expiry < 2 ^ 63

instance (i : Issued) : Decidable i.Fits := inferInstanceAs (Decidable (_ ∧ _))

section
variable [Platform] [Sha256]

/-- Who presents the tag of a payload has it from a grant that was issued: the tag that the text ends with is that of
    what stands before it only if that was the payload of some call of `issue`. -/
def Unforged (secret : List UInt8) (issued : List Issued) (grant : String) : Prop :=
  ∀ signed tagHex, grant.toList = signed ++ '.' :: tagHex → Hex.decode tagHex = some (hmacSha256 secret (bytes signed)) →
    ∃ i ∈ issued, signed = payload i.team i.expiry

variable [Platform.Lawful]

/-- A grant is accepted until it expires, for the team it was issued for, and a text that carries no forged tag is
    accepted only for a team and up to an expiry for which a grant was issued. -/
theorem grants_accepted (secret : List UInt8) (issued : List Issued) (hfits : ∀ i ∈ issued, i.Fits) (now : Int) :
    (∀ i ∈ issued, verify secret (issue secret i.team i.now i.ttl) now = if now < i.expiry then some i.team else none) ∧
      ∀ (grant : String) (team : Uuid), Unforged secret issued grant → verify secret grant now = some team →
        ∃ i ∈ issued, i.team = team ∧ now < i.expiry := by
  constructor
  · intro i hi
    obtain ⟨teamText, expiryText, hsigned, hteam, hexpiry⟩ := read_payload i.team (hfits i hi)
    have hgrant : rsplitOnce '.' (issue secret i.team i.now i.ttl).toList =
        some (payload i.team i.expiry, Hex.encode (hmacSha256 secret (bytes (payload i.team i.expiry)))) := by
      rw [issue, String.toList_ofList]
      exact rsplitOnce_append _ (dot_not_mem_encode _)
    have hparts := @verify_parts _ _ secret now i.team _ _ _ _ _ hgrant hsigned
    split
    · next hlive => exact hparts.2 ⟨Hex.decode_encode _, ⟨i.expiry, hexpiry, hlive⟩, hteam⟩
    · next hlate =>
      refine Option.eq_none_iff_forall_ne_some.2 fun team hsome => hlate ?_
      obtain ⟨-, ⟨expiry, hread, hlt⟩, -⟩ := (verify_parts hgrant hsigned).1 hsome
      rwa [Option.some.inj (hread.symm.trans hexpiry)] at hlt
  · intro grant team hunforged hsome
    -- Whatever is accepted is in parts, and its tag is that of the part before it.
    obtain ⟨⟨signed, tagHex⟩, hgrant⟩ : ∃ p, rsplitOnce '.' grant.toList = some p := by
      cases h : rsplitOnce '.' grant.toList with
      | none => simp [verify, h] at hsome
      | some p => exact ⟨p, rfl⟩
    obtain ⟨⟨teamText, expiryText⟩, hsigned⟩ : ∃ p, rsplitOnce '.' signed = some p := by
      cases h : rsplitOnce '.' signed with
      | none => simp [verify, hgrant, h] at hsome
      | some p => exact ⟨p, rfl⟩
    obtain ⟨htag, ⟨expiry, hread, hlt⟩, hparse⟩ := (verify_parts hgrant hsigned).1 hsome
    obtain ⟨i, hi, rfl⟩ := hunforged signed tagHex (rsplitOnce_some hgrant) htag
    obtain ⟨teamText', expiryText', hsigned', hteam, hexpiry⟩ := read_payload i.team (hfits i hi)
    obtain ⟨rfl, rfl⟩ := Prod.mk.inj (Option.some.inj (hsigned'.symm.trans hsigned))
    refine ⟨i, hi, Option.some.inj (hteam.symm.trans hparse), ?_⟩
    rwa [Option.some.inj (hread.symm.trans hexpiry)] at hlt

end
end Grant
end CrewSync

namespace CrewSync.Grant
attribute [local instance] Platform.ascii Sha256.fips

/-- Two grants, for two teams. -/
def twoGrants : List Issued := [{ team := 1, now := 1000, ttl := 60 }, { team := 2, now := 2000, ttl := 60 }]

theorem grants_accepted_two :
    (∀ i ∈ twoGrants, verify [0x73] (issue [0x73] i.team i.now i.ttl) 1030 =
        if 1030 < i.expiry then some i.team else none) ∧
      ∀ (grant : String) (team : Uuid), Unforged [0x73] twoGrants grant → verify [0x73] grant 1030 = some team →
        ∃ i ∈ twoGrants, i.team = team ∧ 1030 < i.expiry :=
  @grants_accepted Platform.ascii Sha256.fips Platform.ascii_lawful [0x73] twoGrants (by decide) 1030

end CrewSync.Grant
