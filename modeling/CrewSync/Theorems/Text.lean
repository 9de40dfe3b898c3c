import CrewSync.Lib.Strip
import CrewSync.Store.Messaging
import CrewSync.Store.Tasks

/-! The checks on text: what `trim` and the normal forms of names leave. -/

namespace CrewSync
open Strip

theorem trim_toList (s : String) : (trim s).toList = strip isWhitespace s.toList := by
  rw [trim, String.toList_ofList]
  rfl

@[simp] theorem trim_trim (s : String) : trim (trim s) = trim s := by
  have h : (trim (trim s)).toList = (trim s).toList := by rw [trim_toList, trim_toList, strip_strip]
  exact String.ext_iff.2 h

theorem trim_eq_self_iff {s : String} : trim s = s ↔ Clean isWhitespace s.toList := by
  rw [← strip_eq_self_iff, ← trim_toList, String.ext_iff]

/-- A task key is the trimmed text. -/
theorem normalizeKey_ok {raw key : String} (h : normalizeKey raw = .ok key) : trim raw = key := by
  unfold normalizeKey at h
  dsimp only at h
  split at h
  · cases h
  · split at h
    · cases h
    · exact Except.ok.inj h

/-- A task key is its own normal form. -/
theorem normalizeKey_self {raw key : String} (h : normalizeKey raw = .ok key) : normalizeKey key = .ok key := by
  obtain rfl := normalizeKey_ok h
  unfold normalizeKey at h ⊢
  rwa [trim_trim]

theorem normalizeKey_error {raw : String} {e : BusError} (h : normalizeKey raw = .error e) : ∃ msg, e = .invalid msg := by
  unfold normalizeKey at h
  dsimp only at h
  split at h
  · exact ⟨_, (Except.error.inj h).symm⟩
  · split at h
    · exact ⟨_, (Except.error.inj h).symm⟩
    · cases h

theorem checkText_error {field value : String} {max : Nat} {e : BusError} (h : checkText field value max = .error e) :
    ∃ msg, e = .invalid msg := by
  unfold checkText at h
  dsimp only at h
  split at h
  · exact ⟨_, (Except.error.inj h).symm⟩
  · split at h
    · exact ⟨_, (Except.error.inj h).symm⟩
    · cases h

theorem checkTextOpt_error {field : String} {value : Option String} {max : Nat} {e : BusError}
    (h : checkTextOpt field value max = .error e) : ∃ msg, e = .invalid msg := by
  cases value with
  | none => cases h
  | some v =>
    unfold checkTextOpt at h
    cases hv : checkText field v max with
    | ok s => simp [hv, Except.map] at h
    | error e' =>
      simp only [hv, Except.map] at h
      obtain rfl := Except.error.inj h
      exact checkText_error hv

theorem checkMetadata_error {field : String} {metadata : Option Json} {e : BusError}
    (h : checkMetadata field metadata = .error e) : ∃ msg, e = .invalid msg := by
  cases metadata with
  | none => cases h
  | some value =>
    unfold checkMetadata at h
    dsimp only at h
    split at h
    · exact ⟨_, (Except.error.inj h).symm⟩
    · cases h

/-! ### Lower case -/

/-- `str::trim_start_matches('#')`. -/
def stripHash (s : String) : String := String.ofList (s.toList.dropWhile (· == '#'))

/-- What the code relies on in `str::to_lowercase`: it is idempotent and leaves no upper case letter of ASCII; white
    space and `#` have no case, so that they can be taken away before or after it. -/
class Platform.LawfulLower [Platform] : Prop where
  lower_lower (s : String) : Platform.toLowercase (Platform.toLowercase s) = Platform.toLowercase s
  not_upper (s : String) : ∀ c ∈ (Platform.toLowercase s).toList, c.isUpper = false
  lower_trim (s : String) : Platform.toLowercase (trim s) = trim (Platform.toLowercase s)
  lower_stripHash (s : String) : Platform.toLowercase (stripHash s) = stripHash (Platform.toLowercase s)

theorem isUpper_iff (c : Char) : c.isUpper = true ↔ 65 ≤ c.toNat ∧ c.toNat ≤ 90 := by
  refine decide_eq_true_iff.trans ?_
  rw [ge_iff_le, UInt32.le_iff_toNat_le, UInt32.le_iff_toNat_le]
  exact Iff.rfl

theorem toLower_cases (c : Char) :
    c.isUpper = false ∧ c.toLower = c ∨ 65 ≤ c.toNat ∧ c.toNat ≤ 90 ∧ c.toLower.toNat = c.toNat + 32 := by
  by_cases h : c.val ≥ 'A'.val ∧ c.val ≤ 'Z'.val
  · right
    have hrange := (isUpper_iff c).1 (decide_eq_true h)
    have hlower : c.toLower.val = c.val + ('a'.val - 'A'.val) := congrArg Char.val (dif_pos h)
    have hdiff : ('a'.val - 'A'.val).toNat = 32 := rfl
    refine ⟨hrange.1, hrange.2, ?_⟩
    have hsum : c.toLower.val.toNat = (c.toNat + 32) % 2 ^ 32 := by rw [hlower, UInt32.toNat_add, hdiff, Char.toNat]
    rw [Char.toNat, hsum]
    omega
  · exact .inl ⟨decide_eq_false h, dif_neg h⟩

theorem toLower_of_not_upper {c : Char} (h : c.isUpper = false) : c.toLower = c := by
  rcases toLower_cases c with ⟨-, hc⟩ | ⟨hlow, hhigh, -⟩
  · exact hc
  · rw [(isUpper_iff c).2 ⟨hlow, hhigh⟩] at h
    cases h

theorem toLower_not_upper (c : Char) : c.toLower.isUpper = false := by
  rcases toLower_cases c with ⟨h, hc⟩ | ⟨hlow, hhigh, hc⟩
  · rwa [hc]
  · rw [Bool.eq_false_iff, ne_eq, isUpper_iff]
    omega

/-- A letter is neither white space nor `#`. -/
theorem toLower_kept (c : Char) : isWhitespace c.toLower = isWhitespace c ∧ (c.toLower == '#') = (c == '#') := by
  rcases toLower_cases c with ⟨-, hc⟩ | ⟨hlow, hhigh, hc⟩
  · rw [hc]
    exact ⟨rfl, rfl⟩
  · have hspace : ∀ d : Char, 65 ≤ d.toNat → d.toNat ≤ 122 → isWhitespace d = false ∧ (d == '#') = false := by
      intro d hd hd'
      refine ⟨?_, ?_⟩
      · simp only [isWhitespace, Bool.or_eq_false_iff, Bool.and_eq_false_iff, beq_eq_false_iff_ne, decide_eq_false_iff_not]
        omega
      · rw [beq_eq_false_iff_ne]
        rintro rfl
        exact absurd hd (by decide)
    obtain ⟨hspace₁, hhash₁⟩ := hspace c (by omega) (by omega)
    obtain ⟨hspace₂, hhash₂⟩ := hspace c.toLower (by omega) (by omega)
    rw [hspace₁, hspace₂, hhash₁, hhash₂]
    exact ⟨rfl, rfl⟩

theorem dropWhile_map {p : Char → Bool} {f : Char → Char} (h : ∀ c, p (f c) = p c) (l : List Char) :
    (l.map f).dropWhile p = (l.dropWhile p).map f := by
  rw [List.dropWhile_map, show p ∘ f = p from funext h]

theorem Platform.ascii_lawfulLower : @Platform.LawfulLower Platform.ascii := by
  refine @Platform.LawfulLower.mk Platform.ascii (fun s => ?_) (fun s c hc => ?_) (fun s => ?_) fun s => ?_
  · change String.ofList ((String.ofList (s.toList.map Char.toLower)).toList.map Char.toLower) =
      String.ofList (s.toList.map Char.toLower)
    rw [String.toList_ofList, List.map_map]
    exact congrArg String.ofList (List.map_congr_left fun c _ => toLower_of_not_upper (toLower_not_upper c))
  · change c ∈ (String.ofList (s.toList.map Char.toLower)).toList at hc
    rw [String.toList_ofList] at hc
    obtain ⟨d, -, rfl⟩ := List.mem_map.1 hc
    exact toLower_not_upper d
  · change String.ofList ((trim s).toList.map Char.toLower) = trim (String.ofList (s.toList.map Char.toLower))
    simp only [trim, String.toList_ofList]
    rw [dropWhile_map fun c => (toLower_kept c).1, ← List.map_reverse, dropWhile_map fun c => (toLower_kept c).1,
      ← List.map_reverse]
  · change String.ofList ((stripHash s).toList.map Char.toLower) = stripHash (String.ofList (s.toList.map Char.toLower))
    simp only [stripHash, String.toList_ofList]
    rw [dropWhile_map fun c => (toLower_kept c).2]

end CrewSync
