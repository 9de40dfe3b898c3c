import Mathlib.Algebra.Group.Int.Defs
import Mathlib.Algebra.Group.Nat.Defs
import CrewSync.Lib.Digits
import CrewSync.Platform

/-! Grants for the dashboard (`src/dashboard/grant.rs`): a team and an expiry under a keyed tag, as text. -/

namespace CrewSync

/-- SHA-256, which lies outside the repository: 32 bytes for any input. -/
class Sha256 where
  digest : List UInt8 → { bytes : List UInt8 // bytes.length = 32 }

namespace Sha256

/-! ### The function that the crate computes -/

def constants : List Nat :=
  [0x428a2f98, 0x71374491, 0xb5c0fbcf, 0xe9b5dba5, 0x3956c25b, 0x59f111f1, 0x923f82a4, 0xab1c5ed5,
   0xd807aa98, 0x12835b01, 0x243185be, 0x550c7dc3, 0x72be5d74, 0x80deb1fe, 0x9bdc06a7, 0xc19bf174,
   0xe49b69c1, 0xefbe4786, 0x0fc19dc6, 0x240ca1cc, 0x2de92c6f, 0x4a7484aa, 0x5cb0a9dc, 0x76f988da,
   0x983e5152, 0xa831c66d, 0xb00327c8, 0xbf597fc7, 0xc6e00bf3, 0xd5a79147, 0x06ca6351, 0x14292967,
   0x27b70a85, 0x2e1b2138, 0x4d2c6dfc, 0x53380d13, 0x650a7354, 0x766a0abb, 0x81c2c92e, 0x92722c85,
   0xa2bfe8a1, 0xa81a664b, 0xc24b8b70, 0xc76c51a3, 0xd192e819, 0xd6990624, 0xf40e3585, 0x106aa070,
   0x19a4c116, 0x1e376c08, 0x2748774c, 0x34b0bcb5, 0x391c0cb3, 0x4ed8aa4a, 0x5b9cca4f, 0x682e6ff3,
   0x748f82ee, 0x78a5636f, 0x84c87814, 0x8cc70208, 0x90befffa, 0xa4506ceb, 0xbef9a3f7, 0xc67178f2]

/-- The eight words of the state. -/
structure State where
  (a b c d e f g h : Nat)

def State.init : State :=
  { a := 0x6a09e667, b := 0xbb67ae85, c := 0x3c6ef372, d := 0xa54ff53a
    e := 0x510e527f, f := 0x9b05688c, g := 0x1f83d9ab, h := 0x5be0cd19 }

/-- A word turned to the right. -/
def rotr (x n : Nat) : Nat := x >>> n ||| (x <<< (32 - n)) % 2 ^ 32

def round (s : State) (k w : Nat) : State :=
  let t₁ := s.h + (rotr s.e 6 ^^^ rotr s.e 11 ^^^ rotr s.e 25) + (s.e &&& s.f ^^^ (2 ^ 32 - 1 - s.e) &&& s.g) + k + w
  let t₂ := (rotr s.a 2 ^^^ rotr s.a 13 ^^^ rotr s.a 22) + (s.a &&& s.b ^^^ s.a &&& s.c ^^^ s.b &&& s.c)
  { a := (t₁ + t₂) % 2 ^ 32, b := s.a, c := s.b, d := s.c, e := (s.d + t₁) % 2 ^ 32, f := s.e, g := s.f, h := s.g }

/-- The rounds with the constants left, over a window of the 16 words that come next. -/
def rounds : List Nat → List Nat → State → State
  | k :: ks, w :: ws, s =>
    let w₁ := ws.getD 0 0
    let w₁₄ := ws.getD 13 0
    let σ₀ := rotr w₁ 7 ^^^ rotr w₁ 18 ^^^ w₁ >>> 3
    let σ₁ := rotr w₁₄ 17 ^^^ rotr w₁₄ 19 ^^^ w₁₄ >>> 10
    rounds ks (ws ++ [(w + σ₀ + ws.getD 8 0 + σ₁) % 2 ^ 32]) (round s k w)
  | _, _, s => s

def compress (s : State) (block : List Nat) : State :=
  let r := rounds constants block s
  { a := (s.a + r.a) % 2 ^ 32, b := (s.b + r.b) % 2 ^ 32, c := (s.c + r.c) % 2 ^ 32, d := (s.d + r.d) % 2 ^ 32
    e := (s.e + r.e) % 2 ^ 32, f := (s.f + r.f) % 2 ^ 32, g := (s.g + r.g) % 2 ^ 32, h := (s.h + r.h) % 2 ^ 32 }

def wordBytes (w : Nat) : List UInt8 := [24, 16, 8, 0].map fun n => UInt8.ofNat (w >>> n)

/-- The message behind its padding: a bit, zeros and the length in bits. -/
def padded (message : List UInt8) : List UInt8 :=
  let n := message.length
  message ++ 0x80 :: List.replicate ((119 - n % 64) % 64) 0 ++ wordBytes (8 * n / 2 ^ 32) ++ wordBytes (8 * n)

def words : List UInt8 → List Nat
  | a :: b :: c :: d :: bytes => (((a.toNat * 256 + b.toNat) * 256 + c.toNat) * 256 + d.toNat) :: words bytes
  | _ => []

def absorb (message : List UInt8) : State :=
  ((words (padded message)).toChunks 16).foldl compress .init

@[reducible] def fips : Sha256 where
  digest message :=
    let s := absorb message
    ⟨wordBytes s.a ++ wordBytes s.b ++ wordBytes s.c ++ wordBytes s.d ++ wordBytes s.e ++ wordBytes s.f ++
      wordBytes s.g ++ wordBytes s.h, rfl⟩

end Sha256

/-- `str::rsplit_once` of a character. -/
def rsplitOnce (c : Char) : List Char → Option (List Char × List Char)
  | [] => none
  | x :: xs =>
    match rsplitOnce c xs with
    | some (before, after) => some (x :: before, after)
    | none => if x = c then some ([], xs) else none

/-- `i64::from_str`. -/
def parseI64 (cs : List Char) : Option Int :=
  (Decimal.parse cs).filter fun n => decide (-2 ^ 63 ≤ n ∧ n < 2 ^ 63)

namespace Grant

def blockBytes : Nat := 64

section
variable [Sha256]

/-- HMAC-SHA256; a key that is longer than a block is hashed first. -/
def hmacSha256 (key message : List UInt8) : List UInt8 :=
  let key := if key.length > blockBytes then (Sha256.digest key).val else key
  let block := key ++ List.replicate (blockBytes - key.length) 0
  let ipad := block.map (0x36 ^^^ ·)
  let opad := block.map (0x5c ^^^ ·)
  let inner := (Sha256.digest (ipad ++ message)).val
  (Sha256.digest (opad ++ inner)).val

/-- Constant-time comparison. -/
def eqCt (a b : List UInt8) : Bool :=
  if a.length ≠ b.length then false else (List.zipWith (· ^^^ ·) a b).foldl (· ||| ·) 0 == 0

example : @hmacSha256 .fips "Jefe".toUTF8.data.toList "what do ya want for nothing?".toUTF8.data.toList =
    [0x5b, 0xdc, 0xc1, 0x46, 0xbf, 0x60, 0x75, 0x4e, 0x6a, 0x04, 0x24, 0x26, 0x08, 0x95, 0x75, 0xc7,
     0x5a, 0x00, 0x3f, 0x08, 0x9d, 0x27, 0x39, 0x83, 0x9d, 0xec, 0x58, 0xb9, 0x64, 0xec, 0x38, 0x43] := by
  decide +kernel

/-- `as_bytes`. -/
def bytes (cs : List Char) : List UInt8 := (String.ofList cs).toUTF8.data.toList

variable [Platform]

/-- What is signed: the team and the expiry. -/
def payload (team : Uuid) (expiry : Int) : List Char := (Platform.uuidText team).toList ++ '.' :: Decimal.text expiry

/-- Mint a grant for a team, valid for `ttl` seconds. -/
def issue (secret : List UInt8) (team : Uuid) (now ttl : Int) : String :=
  let payload := payload team (now + ttl)
  let tag := hmacSha256 secret (bytes payload)
  String.ofList (payload ++ '.' :: Hex.encode tag)

/-- Verify a grant and return the team it was issued for. -/
def verify (secret : List UInt8) (grant : String) (now : Int) : Option Uuid := do
  -- team_id . expiry . tag
  let (payload, tagHex) ← rsplitOnce '.' grant.toList
  let (team, expiry) ← rsplitOnce '.' payload
  let expected := hmacSha256 secret (bytes payload)
  let presented ← Hex.decode tagHex
  if !eqCt expected presented then none
  else
    let expiry ← parseI64 expiry
    if expiry ≤ now then none
    else Platform.parseUuid (String.ofList team)

end
end Grant
end CrewSync
