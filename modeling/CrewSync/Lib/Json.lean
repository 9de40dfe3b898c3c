import CrewSync.Lib.Digits
import Mathlib.Data.List.TakeDrop

/-! Flat JSON objects as text: an encoder that escapes what must be escaped, and a parser. A value is a scalar, and a
    number an integer. -/

namespace Json

inductive Scalar where
  | null
  | bool (b : Bool)
  | num (n : Int)
  | str (s : List Char)
  deriving DecidableEq

abbrev Object := List (List Char × Scalar)

/-! ### The encoder -/

def escapeChar (c : Char) : List Char :=
  if c = '"' then ['\\', '"']
  else if c = '\\' then ['\\', '\\']
  else if c = '\x08' then ['\\', 'b']
  else if c = '\x0c' then ['\\', 'f']
  else if c = '\n' then ['\\', 'n']
  else if c = '\r' then ['\\', 'r']
  else if c = '\t' then ['\\', 't']
  else if c.toNat < 0x20 then ['\\', 'u', '0', '0', Nat.digitChar (c.toNat / 16), Nat.digitChar (c.toNat % 16)]
  else [c]

def stringText (s : List Char) : List Char := '"' :: (s.flatMap escapeChar ++ ['"'])

def Scalar.text : Scalar → List Char
  | .null => ['n', 'u', 'l', 'l']
  | .bool true => ['t', 'r', 'u', 'e']
  | .bool false => ['f', 'a', 'l', 's', 'e']
  | .num n => Decimal.text n
  | .str s => stringText s

def memberText (m : List Char × Scalar) : List Char := stringText m.1 ++ [' ', ':', ' '] ++ m.2.text

/-- The members behind the first one. -/
def restText : Object → List Char
  | [] => ['}']
  | m :: o => [',', ' '] ++ memberText m ++ restText o

def text : Object → List Char
  | [] => ['{', '}']
  | m :: o => '{' :: (memberText m ++ restText o)

/-! ### The parser -/

def skip (cs : List Char) : List Char := cs.dropWhile fun c => c == ' ' || c == '\n' || c == '\t' || c == '\r'

/-- The character that an escape names with a letter. -/
def unescape (c : Char) : Option Char :=
  match c with
  | '"' => some '"'
  | '\\' => some '\\'
  | '/' => some '/'
  | 'b' => some '\x08'
  | 'f' => some '\x0c'
  | 'n' => some '\n'
  | 'r' => some '\r'
  | 't' => some '\t'
  | _ => none

/-- A code point that four digits name; half of a surrogate pair is none. -/
def codePoint (a b c d : Char) : Option Char := do
  let a ← Hex.nibble a
  let b ← Hex.nibble b
  let c ← Hex.nibble c
  let d ← Hex.nibble d
  let n := ((a * 16 + b) * 16 + c) * 16 + d
  if n.isValidChar then some (Char.ofNat n) else none

/-- A string, behind its opening quote. -/
def parseString : List Char → Option (List Char × List Char)
  | [] => none
  | '"' :: cs => some ([], cs)
  | '\\' :: 'u' :: a :: b :: c :: d :: cs => do
    let ch ← codePoint a b c d
    let (s, rest) ← parseString cs
    return (ch :: s, rest)
  | '\\' :: e :: cs => do
    let ch ← unescape e
    let (s, rest) ← parseString cs
    return (ch :: s, rest)
  | ['\\'] => none
  | c :: cs =>
    if c.toNat < 0x20 then none
    else do
      let (s, rest) ← parseString cs
      return (c :: s, rest)

/-- A number without a leading zero. -/
def parseNum (cs : List Char) : Option (Scalar × List Char) :=
  let (sign, cs) := match cs with
    | '-' :: cs => (['-'], cs)
    | cs => ([], cs)
  let (digits, rest) := cs.span Char.isDigit
  if digits.head? = some '0' ∧ digits ≠ ['0'] then none
  else (Decimal.parse (sign ++ digits)).map fun n => (.num n, rest)

def parseScalar : List Char → Option (Scalar × List Char)
  | 'n' :: 'u' :: 'l' :: 'l' :: cs => some (.null, cs)
  | 't' :: 'r' :: 'u' :: 'e' :: cs => some (.bool true, cs)
  | 'f' :: 'a' :: 'l' :: 's' :: 'e' :: cs => some (.bool false, cs)
  | '"' :: cs => (parseString cs).map fun (s, rest) => (.str s, rest)
  | cs => parseNum cs

/-- The value of a member, behind its name. -/
def parseValue (cs : List Char) : Option (Scalar × List Char) :=
  match skip cs with
  | ':' :: cs => parseScalar (skip cs)
  | _ => none

/-- Members, at least one, and the closing brace; no more of them than the fuel. -/
def parseMembers : Nat → List Char → Option (Object × List Char)
  | 0, _ => none
  | fuel + 1, cs =>
    match skip cs with
    | '"' :: cs => do
      let (name, cs) ← parseString cs
      let (value, cs) ← parseValue cs
      match skip cs with
      | '}' :: cs => return ([(name, value)], cs)
      | ',' :: cs => do
        let (o, cs) ← parseMembers fuel cs
        return ((name, value) :: o, cs)
      | _ => none
    | _ => none

/-- Of two members with one name the later stands. -/
def insert (o : Object) (m : List Char × Scalar) : Object := o.filter (fun m' => m'.1 != m.1) ++ [m]

/-- An object, and nothing behind it. -/
def parse (cs : List Char) : Option Object :=
  match skip cs with
  | '{' :: cs =>
    match skip cs with
    | '}' :: cs => if (skip cs).isEmpty then some [] else none
    | cs => do
      let (o, cs) ← parseMembers cs.length cs
      if (skip cs).isEmpty then some (o.foldl insert []) else none
  | _ => none

/-! ### What is encoded is parsed back -/

/-- A control character by its code. -/
theorem codePoint_control {c : Char} (h : c.toNat < 0x20) :
    codePoint '0' '0' (Nat.digitChar (c.toNat / 16)) (Nat.digitChar (c.toNat % 16)) = some c := by
  have hzero : Hex.nibble '0' = some 0 := by decide
  have hhi := Hex.nibble_digitChar (c.toNat / 16) (by omega)
  have hlo := Hex.nibble_digitChar (c.toNat % 16) (Nat.mod_lt _ (by decide))
  have hsum : ((0 * 16 + 0) * 16 + c.toNat / 16) * 16 + c.toNat % 16 = c.toNat := by omega
  simp only [codePoint, hzero, hhi, hlo, bind, Option.bind_some, hsum]
  rw [if_pos (Or.inl (by omega)), Char.ofNat_toNat]

theorem parseString_plain {c : Char} (hquote : c ≠ '"') (hslash : c ≠ '\\') (hcontrol : ¬ c.toNat < 0x20) (rest : List Char) :
    parseString (c :: rest) = (parseString rest).map fun p => (c :: p.1, p.2) := by
  rw [parseString.eq_def]
  split
  · next heq => cases heq
  · next heq => exact absurd (List.cons.inj heq).1 hquote
  · next heq => exact absurd (List.cons.inj heq).1 hslash
  · next heq => exact absurd (List.cons.inj heq).1 hslash
  · next heq => exact absurd (List.cons.inj heq).1 hslash
  · next heq =>
    obtain ⟨rfl, rfl⟩ := List.cons.inj heq
    rw [if_neg hcontrol]
    cases parseString rest <;> rfl

theorem parseString_named {c e : Char} (hu : e ≠ 'u') (he : unescape e = some c) (rest : List Char) :
    parseString ('\\' :: e :: rest) = (parseString rest).map fun p => (c :: p.1, p.2) := by
  rw [parseString.eq_def]
  split
  · next heq => cases heq
  · next heq => exact absurd (List.cons.inj heq).1 (by decide)
  · next heq => exact absurd (List.cons.inj (List.cons.inj heq).2).1 hu
  · next heq =>
    obtain ⟨rfl, rfl⟩ := List.cons.inj (List.cons.inj heq).2
    simp only [he, bind, Option.bind_some]
    cases parseString rest <;> rfl
  · next heq => cases (List.cons.inj heq).2
  · next hne _ heq =>
    obtain ⟨rfl, rfl⟩ := List.cons.inj heq
    exact (hne e rest rfl rfl).elim

theorem parseString_escapeChar (c : Char) (rest : List Char) :
    parseString (escapeChar c ++ rest) = (parseString rest).map fun p => (c :: p.1, p.2) := by
  unfold escapeChar
  split
  · next h => exact parseString_named (by decide) (by rw [h]; rfl) rest
  split
  · next h => exact parseString_named (by decide) (by rw [h]; rfl) rest
  split
  · next h => exact parseString_named (by decide) (by rw [h]; rfl) rest
  split
  · next h => exact parseString_named (by decide) (by rw [h]; rfl) rest
  split
  · next h => exact parseString_named (by decide) (by rw [h]; rfl) rest
  split
  · next h => exact parseString_named (by decide) (by rw [h]; rfl) rest
  split
  · next h => exact parseString_named (by decide) (by rw [h]; rfl) rest
  split
  · next h =>
    simp only [List.cons_append, List.nil_append, parseString, codePoint_control h, bind, Option.bind_some]
    cases parseString rest <;> rfl
  · next hquote hslash _ _ _ _ _ hcontrol => exact parseString_plain hquote hslash hcontrol rest

theorem parseString_text (s rest : List Char) : parseString (s.flatMap escapeChar ++ '"' :: rest) = some (s, rest) := by
  induction s with
  | nil => rfl
  | cons c s ih =>
    rw [List.flatMap_cons, List.append_assoc, parseString_escapeChar, ih]
    rfl

/-- What follows a number does not go on with it. -/
def NoDigit (rest : List Char) : Prop := ∀ c ∈ rest.head?, c.isDigit = false

theorem span_digits {ds rest : List Char} (hd : ∀ c ∈ ds, c.isDigit = true) (hr : NoDigit rest) :
    (ds ++ rest).span Char.isDigit = (ds, rest) := by
  have htake : (ds ++ rest).takeWhile Char.isDigit = ds := by
    rw [List.takeWhile_append_of_pos hd]
    cases rest with
    | nil => simp
    | cons c rest => simp [hr c rfl]
  have hdrop : (ds ++ rest).dropWhile Char.isDigit = rest := by
    rw [List.dropWhile_append_of_pos hd]
    cases rest with
    | nil => rfl
    | cons c rest => simp [hr c rfl]
  rw [List.span_eq_takeWhile_dropWhile, htake, hdrop]

theorem parseNum_text (n : Int) {rest : List Char} (hr : NoDigit rest) :
    parseNum (Decimal.text n ++ rest) = some (.num n, rest) := by
  have hdigits : ∀ c ∈ Nat.toDigits 10 n.natAbs, c.isDigit = true :=
    fun c hc => Nat.isDigit_of_mem_toDigits (by decide) (by decide) hc
  have hzero : ¬ ((Nat.toDigits 10 n.natAbs).head? = some '0' ∧ Nat.toDigits 10 n.natAbs ≠ ['0']) := by
    rintro ⟨hhead, hne⟩
    rcases Nat.eq_zero_or_pos n.natAbs with h | h
    · exact hne (by rw [h, Nat.toDigits_zero])
    · exact Decimal.head?_toDigits h hhead
  have hparse := Decimal.parse_text n
  unfold Decimal.text at hparse ⊢
  split
  · next hneg =>
    rw [if_pos hneg] at hparse
    simp only [parseNum, List.cons_append, span_digits hdigits hr, if_neg hzero, List.nil_append, hparse,
      Option.map_some]
  · next hneg =>
    rw [if_neg hneg] at hparse
    have hsign : (match Nat.toDigits 10 n.natAbs ++ rest with
        | '-' :: cs => (['-'], cs)
        | cs => ([], cs)) = ([], Nat.toDigits 10 n.natAbs ++ rest) := by
      cases hds : Nat.toDigits 10 n.natAbs with
      | nil => exact absurd hds Nat.toDigits_ne_nil
      | cons d ds =>
        have hd : d.isDigit = true := hdigits d (by rw [hds]; exact List.mem_cons_self)
        have hne : d ≠ '-' := by rintro rfl; exact absurd hd (by decide)
        simp only [List.cons_append]
        split
        · next heq => exact absurd (List.cons.inj heq).1 hne
        · rfl
    simp only [parseNum, hsign, span_digits hdigits hr, if_neg hzero, List.nil_append, hparse, Option.map_some]

theorem parseScalar_text (v : Scalar) {rest : List Char} (hr : NoDigit rest) :
    parseScalar (v.text ++ rest) = some (v, rest) := by
  cases v with
  | null => rfl
  | bool b => cases b <;> rfl
  | num n =>
    have hnum := parseNum_text n hr
    simp only [Scalar.text]
    cases htext : Decimal.text n with
    | nil => exact absurd htext (Decimal.text_ne_nil n)
    | cons c cs =>
      have hc : c = '-' ∨ c.isDigit = true := Decimal.of_mem_text (htext ▸ List.mem_cons_self)
      rw [htext] at hnum
      rw [List.cons_append] at hnum ⊢
      have hne : ∀ d, d ≠ '-' → d.isDigit = false → c ≠ d := by
        rintro d hminus hdigit rfl
        rcases hc with rfl | hd
        · exact hminus rfl
        · simp [hdigit] at hd
      rw [parseScalar.eq_def]
      split
      · next heq => exact absurd (List.cons.inj heq).1 (hne _ (by decide) (by decide))
      · next heq => exact absurd (List.cons.inj heq).1 (hne _ (by decide) (by decide))
      · next heq => exact absurd (List.cons.inj heq).1 (hne _ (by decide) (by decide))
      · next heq => exact absurd (List.cons.inj heq).1 (hne _ (by decide) (by decide))
      · exact hnum
  | str s =>
    have hstring := parseString_text s rest
    simp only [Scalar.text, stringText, List.cons_append, List.append_assoc, List.nil_append, parseScalar, hstring,
      Option.map_some]

/-! ### Members -/

theorem skip_space (cs : List Char) : skip (' ' :: cs) = skip cs := rfl

theorem skip_quote (cs : List Char) : skip ('"' :: cs) = '"' :: cs := rfl

theorem skip_scalar (v : Scalar) (rest : List Char) : skip (v.text ++ rest) = v.text ++ rest := by
  cases v with
  | null => rfl
  | bool b => cases b <;> rfl
  | num n =>
    simp only [Scalar.text]
    cases htext : Decimal.text n with
    | nil => exact absurd htext (Decimal.text_ne_nil n)
    | cons c cs =>
      have hc : c = '-' ∨ c.isDigit = true := Decimal.of_mem_text (htext ▸ List.mem_cons_self)
      refine List.dropWhile_cons_of_neg fun hblank => ?_
      simp only [Bool.or_eq_true, beq_iff_eq] at hblank
      rcases hblank with ((rfl | rfl) | rfl) | rfl <;> exact absurd hc (by decide)
  | str s => rfl

theorem noDigit_restText (o : Object) (rest : List Char) : NoDigit (restText o ++ rest) := by
  cases o with
  | nil =>
    rintro c hc
    obtain rfl := Option.some.inj hc
    rfl
  | cons m o =>
    rintro c hc
    obtain rfl := Option.some.inj hc
    rfl

theorem length_restText (o : Object) : o.length < (restText o).length := by
  induction o with
  | nil => exact Nat.one_pos
  | cons m o ih =>
    simp only [restText, List.length_append, List.length_cons, List.length_nil]
    omega

theorem parseValue_text (v : Scalar) {rest : List Char} (hr : NoDigit rest) :
    parseValue (' ' :: ':' :: ' ' :: (v.text ++ rest)) = some (v, rest) := by
  have hcolon : skip (' ' :: ':' :: ' ' :: (v.text ++ rest)) = ':' :: ' ' :: (v.text ++ rest) := rfl
  rw [parseValue, hcolon]
  simp only [skip_space, skip_scalar, parseScalar_text v hr]

theorem memberText_append (m : List Char × Scalar) (rest : List Char) : memberText m ++ rest =
    '"' :: (m.1.flatMap escapeChar ++ '"' :: (' ' :: ':' :: ' ' :: (m.2.text ++ rest))) := by
  simp [memberText, stringText]

theorem parseMembers_text {fuel : Nat} {m : List Char × Scalar} {o : Object} {rest cs : List Char} (hfuel : o.length < fuel)
    (hcs : skip cs = memberText m ++ (restText o ++ rest)) : parseMembers fuel cs = some (m :: o, rest) := by
  induction o generalizing fuel m cs with
  | nil =>
    obtain ⟨fuel, rfl⟩ := Nat.exists_eq_add_one_of_ne_zero (Nat.ne_of_gt hfuel)
    have hr := noDigit_restText [] rest
    have hclose : skip (restText [] ++ rest) = '}' :: rest := rfl
    rw [memberText_append] at hcs
    simp only [parseMembers, hcs, parseString_text, parseValue_text m.2 hr, bind, Option.bind_some, hclose, pure]
  | cons m' o ih =>
    obtain ⟨fuel, rfl⟩ := Nat.exists_eq_add_one_of_ne_zero (Nat.ne_of_gt (Nat.zero_lt_of_lt hfuel))
    have hr := noDigit_restText (m' :: o) rest
    have hcomma : skip (restText (m' :: o) ++ rest) = ',' :: ' ' :: (memberText m' ++ (restText o ++ rest)) := by
      simp only [restText, List.append_assoc, List.cons_append, List.nil_append]
      rfl
    have hmember : skip (' ' :: (memberText m' ++ (restText o ++ rest))) = memberText m' ++ (restText o ++ rest) := by
      rw [memberText_append, skip_space, skip_quote]
    have hrest : parseMembers fuel _ = some (m' :: o, rest) := ih (Nat.succ_lt_succ_iff.1 hfuel) hmember
    rw [memberText_append] at hcs
    simp only [parseMembers, hcs, parseString_text, parseValue_text m.2 hr, bind, Option.bind_some, hcomma, hrest, pure]

theorem foldl_insert {o acc : Object} (h : ((acc ++ o).map (·.1)).Nodup) : o.foldl insert acc = acc ++ o := by
  induction o generalizing acc with
  | nil => simp
  | cons m o ih =>
    have hfresh : acc.filter (fun m' => m'.1 != m.1) = acc := by
      refine List.filter_eq_self.2 fun m' hm' => ?_
      rw [List.map_append, List.map_cons] at h
      have hne := (List.nodup_append.1 h).2.2 m'.1 (List.mem_map_of_mem hm') m.1 List.mem_cons_self
      simpa using hne
    have hassoc : insert acc m ++ o = acc ++ m :: o := by
      rw [insert, hfresh, List.append_assoc, List.singleton_append]
    rw [List.foldl_cons, ih (by rwa [hassoc]), hassoc]

/-- An object with distinct names is read back from its text. -/
theorem parse_text {o : Object} (h : (o.map (·.1)).Nodup) : parse (text o) = some o := by
  cases o with
  | nil => rfl
  | cons m o =>
    have hopen : skip (text (m :: o)) = text (m :: o) := rfl
    have hmember : skip (memberText m ++ restText o) = memberText m ++ restText o := by
      rw [memberText_append, skip_quote]
    have hfuel : o.length < (memberText m ++ restText o).length := by
      have := length_restText o
      rw [List.length_append]
      omega
    have hmembers : parseMembers (memberText m ++ restText o).length (memberText m ++ restText o) = some (m :: o, []) :=
      parseMembers_text hfuel (by rw [hmember, List.append_nil])
    have hinsert : (m :: o).foldl insert [] = m :: o := foldl_insert (by simpa using h)
    have hhead : ∃ cs, memberText m ++ restText o = '"' :: cs := ⟨_, memberText_append m (restText o)⟩
    obtain ⟨cs, hcs⟩ := hhead
    rw [hcs] at hmembers
    rw [parse, hopen, text, hcs]
    simp only [skip_quote]
    split
    · next heq => exact absurd (List.cons.inj heq).1 (by decide)
    · simp only [hmembers, bind, Option.bind_some, hinsert]
      rfl

end Json
