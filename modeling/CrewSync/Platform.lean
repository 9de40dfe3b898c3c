import Mathlib.Data.List.Basic

/-! What the server takes from Rust's standard library and from Postgres, and the checks on text that
    every store function starts with (`src/store/mod.rs`, `src/auth.rs`, `src/error.rs`). -/

namespace CrewSync

/-- Row identities of type `UUID`. -/
abbrev Uuid := Nat

/-- Microseconds, as Postgres keeps them in a `TIMESTAMPTZ` (counted from 2000-01-01 UTC). -/
abbrev Time := Int

/-- An interval of `n` seconds. -/
def secs (n : Int) : Time := n * 1000000

/-- `serde_json::Value` and `JSONB` by their compact serialisation. -/
abbrev Json := String

/-- The tables and functions that lie outside the repository: Unicode lower case, the text search of
    Postgres, the values that `gen_random_uuid()` gives out, the text of a `UUID` and of an HTTP status. -/
class Platform where
  /-- `str::to_lowercase`. -/
  toLowercase : String → String
  /-- `to_tsvector('simple', document) @@ plainto_tsquery('simple', query)`. -/
  tsMatch : String → String → Bool
  /-- The value of the n-th call of `gen_random_uuid()`. -/
  randomUuid : Nat → Uuid
  /-- `Uuid` as text, as in `format!("channel:{id}")`. -/
  uuidText : Uuid → String
  /-- `Uuid::parse_str`. -/
  parseUuid : String → Option Uuid
  /-- `StatusCode` as text: the code and its reason. -/
  statusText : Nat → String

/-- The words of a text, for the text search. -/
def wordsOf (s : String) : List (List Char) := (s.toList.map Char.toLower).splitOnP fun c => !c.isAlphanum

/-- A platform for ASCII text, on which the model can be evaluated: UUIDs are numbered. -/
@[reducible] def Platform.ascii : Platform where
  toLowercase s := String.ofList (s.toList.map Char.toLower)
  tsMatch document query :=
    let words := (wordsOf query).filter (· ≠ [])
    !words.isEmpty && words.all (wordsOf document).contains
  randomUuid n := n
  uuidText u := "00000000-0000-4000-8000-" ++ String.ofList (List.replicate (12 - (Nat.toDigits 10 u).length) '0' ++
    Nat.toDigits 10 u)
  parseUuid s := if (s.toList.drop 24).all Char.isDigit then
    some ((s.toList.drop 24).foldl (fun n c => 10 * n + (c.toNat - 48)) 0) else none
  statusText code := String.ofList (Nat.toDigits 10 code)

/-- What the code relies on: a `UUID` is read back from its text. -/
class Platform.Lawful [Platform] : Prop where
  parse_text (u : Uuid) : Platform.parseUuid (Platform.uuidText u) = some u

theorem Platform.ascii_lawful : @Platform.Lawful Platform.ascii := by
  refine @Platform.Lawful.mk Platform.ascii fun u => ?_
  let digits := List.replicate (12 - (Nat.toDigits 10 u).length) '0' ++ Nat.toDigits 10 u
  have hdrop : (@Platform.uuidText Platform.ascii u).toList.drop 24 = digits := by
    change ("00000000-0000-4000-8000-" ++ String.ofList digits).toList.drop 24 = digits
    simp
  have hall : digits.all Char.isDigit = true := by
    refine List.all_eq_true.2 fun c hc => ?_
    rcases List.mem_append.1 hc with hc | hc
    · rw [List.eq_of_mem_replicate hc]
      rfl
    · exact Nat.isDigit_of_mem_toDigits (by decide) (by decide) hc
  have hfold : digits.foldl (fun n c => 10 * n + (c.toNat - 48)) 0 = u := by
    have h := Nat.ofDigitChars_append (b := 10) (l := List.replicate (12 - (Nat.toDigits 10 u).length) '0')
      (m := Nat.toDigits 10 u) 0
    rwa [Nat.ofDigitChars_replicate_zero, Nat.mul_zero, Nat.ofDigitChars_ten_toDigits, Nat.ofDigitChars_eq_foldl] at h
  change (if (List.drop 24 _).all Char.isDigit then some ((List.drop 24 _).foldl _ 0) else none) = some u
  rw [hdrop, if_pos hall, hfold]

/-- Unicode `White_Space`, which `str::trim` removes. -/
def isWhitespace (c : Char) : Bool :=
  let n := c.toNat
  (9 ≤ n && n ≤ 13) || n == 32 || n == 0x85 || n == 0xA0 || n == 0x1680 || (0x2000 ≤ n && n ≤ 0x200A) ||
    n == 0x2028 || n == 0x2029 || n == 0x202F || n == 0x205F || n == 0x3000

/-- `str::trim`. -/
def trim (s : String) : String :=
  String.ofList ((s.toList.dropWhile isWhitespace).reverse.dropWhile isWhitespace).reverse

/-- `char::is_control`. -/
def isControl (c : Char) : Bool :=
  let n := c.toNat
  n ≤ 0x1F || (0x7F ≤ n && n ≤ 0x9F)

/-- `i64::clamp`. -/
def clamp (x lo hi : Int) : Int := if x < lo then lo else if hi < x then hi else x

theorem clamp_le {x lo hi : Int} (h : lo ≤ hi) : clamp x lo hi ≤ hi := by
  unfold clamp
  split <;> (try split) <;> omega

/-- `slice::join(", ")`. -/
def joinComma : List String → String
  | [] => ""
  | [s] => s
  | s :: ss => s ++ ", " ++ joinComma ss

/-! ### Errors -/

/-- `BusError` of `src/error.rs`; a database error reaches the caller without its detail. -/
inductive BusError where
  | notFound (msg : String)
  | invalid (msg : String)
  | conflict (msg : String)
  | unauthenticated (msg : String)
  | db
  deriving DecidableEq

/-! ### Text -/

def maxMetadataBytes : Nat := 16 * 1024

def checkMetadata (field : String) (metadata : Option Json) : Except BusError Unit :=
  match metadata with
  | none => .ok ()
  | some value =>
    let size := value.utf8ByteSize
    if size > maxMetadataBytes then
      .error (.invalid (s!"{field} metadata is {size} bytes; the limit is {maxMetadataBytes}. " ++
        "Keep metadata to identifiers and short labels — put the payload in " ++
        "the body, a note, or an attachment."))
    else .ok ()

/-- The trimmed text; the raw input counts against the limit too. -/
def checkText (field value : String) (max : Nat) : Except BusError String :=
  let raw := value.utf8ByteSize
  if raw > max then
    .error (.invalid s!"{field} is {raw} bytes; the limit is {max}")
  else
    let trimmed := trim value
    let size := trimmed.utf8ByteSize
    if size > max then
      .error (.invalid s!"{field} is {size} bytes; the limit is {max}")
    else .ok trimmed

/-- `checkText` of an optional field. -/
def checkTextOpt (field : String) (value : Option String) (max : Nat) : Except BusError (Option String) :=
  match value with
  | some v => (checkText field v max).map some
  | none => .ok none

section
variable [Platform]
open Platform

/-- `#dev`, `dev` and `DEV` are one channel. -/
def normalizeChannel (name : String) : String :=
  toLowercase (trim (String.ofList ((trim name).toList.dropWhile (· == '#'))))

def maxSessionBytes : Nat := 64

/-- The session label of the `X-Crew-Session` header and of the address `agent/session`, or why it is
    rejected. -/
def normalizeSession (raw : String) : Except String String :=
  let label := toLowercase (trim raw)
  let size := label.utf8ByteSize
  if label.isEmpty then .ok ""
  else if size > maxSessionBytes then
    .error (s!"is {size} bytes; the limit is {maxSessionBytes}. Use a short label, " ++
      "such as the repository name")
  else if !label.toList.all (fun c => c.toNat < 128) then .error "must be ASCII"
  else if label.toList.any isControl then .error "must not contain control characters"
  else if label.toList.any (fun c => c == '$' || c == '\x7b' || c == '\x7d') then
    .error ("looks like an unexpanded variable. Set the variable, or use a form " ++
      "with a fallback such as $\x7bBUS_SESSION:-\x7d so an unset value sends " ++
      "nothing at all")
  else if label.toList.any (· == '/') then
    .error ("must not contain '/', which separates agent from session when " ++
      "addressing a message")
  else .ok label

/-- `str::split_once('/')`. -/
def splitSlash (s : String) : Option (String × String) :=
  let cs := s.toList
  if cs.any (· == '/') then
    some (String.ofList (cs.takeWhile (· != '/')), String.ofList ((cs.dropWhile (· != '/')).drop 1))
  else none

/-- `agent[/session]` in its parts. -/
def parseAddress (raw : String) : Except BusError (String × Option String) :=
  let raw := trim raw
  match splitSlash raw with
  | none => .ok (raw, none)
  | some (agent, session) =>
    let agent := trim agent
    if agent.isEmpty then
      .error (.invalid "an address is 'agent' or 'agent/session'; the agent part is missing")
    else
      match normalizeSession session with
      | .error why => .error (.invalid s!"the session in '{raw}' {why}")
      | .ok session =>
        if session.isEmpty then
          .error (.invalid (s!"'{raw}' has an empty session; write '{agent}' to reach every " ++
            s!"session of theirs, or '{agent}/<session>' for one of them"))
        else .ok (agent, some session)

/-- The key of a read cursor: one for each scope, session and view. -/
def cursorScopeFor (base session : String) (allSessions : Bool) : String :=
  match session.isEmpty, allSessions with
  | true, false => base
  | _, false => s!"{base}/s/{session}"
  | _, true => s!"{base}/a/{session}"

def cursorScope (base session : String) : String := cursorScopeFor base session false

end

end CrewSync
