import CrewSync.Platform

/-! The session label of a request (`src/auth.rs`). -/

namespace CrewSync

/-- `http::HeaderValue`: the bytes of a header. -/
abbrev HeaderValue := List UInt8

/-- The text of a client as the value of a header. -/
def headerOf (s : String) : HeaderValue := s.toList.flatMap String.utf8EncodeChar

/-- `HeaderValue::to_str`: the text, if every byte is a visible character of ASCII or a tab. -/
def headerToStr (value : HeaderValue) : Option String :=
  if value.all fun b => (32 ≤ b && b < 127) || b == 9 then
    some (String.ofList (value.map fun b => Char.ofNat b.toNat))
  else none

/-- The session label of the `X-Crew-Session` header, or the reason of `AuthError::BadSession`. -/
def sessionFromHeaders [Platform] (header : Option HeaderValue) : Except String String :=
  match header with
  | none => .ok ""
  | some value =>
    match headerToStr value with
    | none => .error "must be ASCII"
    | some raw => normalizeSession raw

end CrewSync
