import Mathlib.Data.List.Basic
import Mathlib.Data.Nat.Basic

/-! Numbers as text, and back: integers in decimal, bytes in hexadecimal. -/

namespace Decimal

/-- The digits, behind a minus sign if there is need of one. -/
def text (n : Int) : List Char :=
  if n < 0 then '-' :: Nat.toDigits 10 n.natAbs else Nat.toDigits 10 n.natAbs

/-- Digits, at least one. -/
def parseNat (cs : List Char) : Option Nat :=
  if cs.isEmpty || cs.any (!·.isDigit) then none else some (Nat.ofDigitChars 10 cs 0)

/-- Digits, behind a sign if there is one. -/
def parse : List Char → Option Int
  | '-' :: cs => (parseNat cs).map fun n : Nat => -(n : Int)
  | '+' :: cs => (parseNat cs).map fun n : Nat => (n : Int)
  | cs => (parseNat cs).map fun n : Nat => (n : Int)

theorem parseNat_toDigits (n : Nat) : parseNat (Nat.toDigits 10 n) = some n := by
  have hdigits : (Nat.toDigits 10 n).any (!·.isDigit) = false := by
    rw [List.any_eq_false]
    intro c hc
    simp [Nat.isDigit_of_mem_toDigits (by decide) (by decide) hc]
  have hsome : (Nat.toDigits 10 n).isEmpty = false := by simp [Nat.toDigits_ne_nil]
  rw [parseNat, hdigits, hsome, Nat.ofDigitChars_ten_toDigits]
  rfl

/-- What starts with a digit has no sign. -/
theorem parse_digits {cs : List Char} (h : ∀ c ∈ cs.head?, c.isDigit = true) :
    parse cs = (parseNat cs).map fun n : Nat => (n : Int) := by
  unfold parse
  split
  · exact absurd (h _ rfl) (by decide)
  · exact absurd (h _ rfl) (by decide)
  · rfl

theorem parse_text (n : Int) : parse (text n) = some n := by
  unfold text
  split
  · next h =>
    simp only [parse, parseNat_toDigits, Option.map_some, Option.some.injEq]
    omega
  · next h =>
    rw [parse_digits fun c hc => Nat.isDigit_of_mem_toDigits (by decide) (by decide) (List.mem_of_mem_head? hc),
      parseNat_toDigits, Option.map_some, Int.natAbs_of_nonneg (Int.not_lt.1 h)]

theorem of_mem_text {n : Int} {c : Char} (h : c ∈ text n) : c = '-' ∨ c.isDigit = true := by
  unfold text at h
  split at h
  · exact (List.mem_cons.1 h).imp_right (Nat.isDigit_of_mem_toDigits (by decide) (by decide))
  · exact .inr (Nat.isDigit_of_mem_toDigits (by decide) (by decide) h)

theorem text_ne_nil (n : Int) : text n ≠ [] := by
  unfold text
  split
  · exact List.cons_ne_nil _ _
  · exact Nat.toDigits_ne_nil

/-- No leading zero but the number zero. -/
theorem head?_toDigits {n : Nat} (hn : 0 < n) : (Nat.toDigits 10 n).head? ≠ some '0' := by
  induction n using Nat.strongRecOn with
  | ind n ih =>
    by_cases hlt : n < 10
    · rw [Nat.toDigits_of_lt_base hlt, List.head?_cons, Ne, Option.some.injEq, Nat.digitChar_eq_zero]
      omega
    · have hne := Nat.toDigits_ne_nil (n := n / 10) (b := 10)
      rw [Nat.toDigits_of_base_le (by decide) (by omega), List.head?_append_of_ne_nil _ hne]
      exact ih (n / 10) (by omega) (by omega)

end Decimal

namespace Hex

/-- A digit of either case. -/
def nibble (c : Char) : Option Nat :=
  if '0' ≤ c ∧ c ≤ '9' then some (c.toNat - '0'.toNat)
  else if 'a' ≤ c ∧ c ≤ 'f' then some (c.toNat - 'a'.toNat + 10)
  else if 'A' ≤ c ∧ c ≤ 'F' then some (c.toNat - 'A'.toNat + 10)
  else none

def encodeByte (b : UInt8) : List Char := [Nat.digitChar (b.toNat / 16), Nat.digitChar (b.toNat % 16)]

/-- Two digits for each byte, in lower case. -/
def encode (bytes : List UInt8) : List Char := bytes.flatMap encodeByte

def decodeByte (hi lo : Char) : Option UInt8 := do
  let hi ← nibble hi
  let lo ← nibble lo
  return UInt8.ofNat (16 * hi + lo)

def decode : List Char → Option (List UInt8)
  | [] => some []
  | [_] => none
  | hi :: lo :: cs => do
    let b ← decodeByte hi lo
    let bytes ← decode cs
    return b :: bytes

theorem nibble_digitChar : ∀ n < 16, nibble (Nat.digitChar n) = some n := by decide

theorem decodeByte_encodeByte (b : UInt8) :
    decodeByte (Nat.digitChar (b.toNat / 16)) (Nat.digitChar (b.toNat % 16)) = some b := by
  have hb := b.toNat_lt
  have hhi := nibble_digitChar (b.toNat / 16) (by omega)
  have hlo := nibble_digitChar (b.toNat % 16) (Nat.mod_lt _ (by decide))
  have hsum : 16 * (b.toNat / 16) + b.toNat % 16 = b.toNat := Nat.div_add_mod _ _
  simp only [decodeByte, hhi, hlo, bind, Option.bind_some, hsum, pure, UInt8.ofNat_toNat]

theorem decode_encode (bytes : List UInt8) : decode (encode bytes) = some bytes := by
  induction bytes with
  | nil => rfl
  | cons b bytes ih =>
    have hcons : encode (b :: bytes) = Nat.digitChar (b.toNat / 16) :: Nat.digitChar (b.toNat % 16) :: encode bytes := rfl
    simp only [hcons, decode, decodeByte_encodeByte, ih, bind, Option.bind_some, pure]

theorem of_mem_encode {bytes : List UInt8} {c : Char} (h : c ∈ encode bytes) : (nibble c).isSome = true := by
  obtain ⟨b, -, hc⟩ := List.mem_flatMap.1 h
  have hb := b.toNat_lt
  rcases List.mem_pair.1 hc with rfl | rfl
  · rw [nibble_digitChar _ (by omega)]
    rfl
  · rw [nibble_digitChar _ (Nat.mod_lt _ (by decide))]
    rfl

end Hex
