import CrewSync.Auth
import CrewSync.Calls
import CrewSync.Page
import CrewSync.RateLimit

/-! The HTTP front of the server: the tokens of the agents, the middleware before the tools (`src/auth.rs`, with the
    operator's half in `src/admin.rs`), and the login and the page of the dashboard (`src/dashboard/mod.rs`). -/

namespace CrewSync

/-! ### Headers -/

/-- `str::strip_prefix`. -/
def stripPrefix (pat cs : List Char) : Option (List Char) :=
  if pat.isPrefixOf cs then some (cs.drop pat.length) else none

/-- `str::split_once` of a character. -/
def splitOnce (c : Char) : List Char → Option (List Char × List Char)
  | [] => none
  | x :: xs => if x = c then some ([], xs) else (splitOnce c xs).map fun p => (x :: p.1, p.2)

/-- The token of an `Authorization` header. -/
def bearer (authorization : Option HeaderValue) : Option String := do
  let v ← authorization.bind headerToStr
  let raw ← (stripPrefix "Bearer ".toList v.toList).or (stripPrefix "bearer ".toList v.toList)
  let raw := trim (String.ofList raw)
  if raw.isEmpty then none else some raw

/-- The value of a cookie, from a `Cookie` header. -/
def cookieValue (cookie : Option HeaderValue) (name : String) : Option String := do
  let v ← cookie.bind headerToStr
  let pairs := (v.toList.splitOn ';').filterMap fun pair => splitOnce '=' (trim (String.ofList pair)).toList
  let pair ← pairs.find? fun p => String.ofList p.1 == name
  return String.ofList pair.2

/-! ### Refusals -/

inductive AuthError where
  | missing
  | invalid
  | disabled
  /-- Too many requests for this token; carries the seconds to wait. -/
  | throttled (secs : Nat)
  /-- The session header is present but unusable; carries what is wrong with it. -/
  | badSession (why : String)
  deriving DecidableEq

/-! ### Tokens -/

def tokenStart : String := "acs_"

/-- `generate_token`, from the bytes that were drawn. -/
def generateToken (bytes : { bytes : List UInt8 // bytes.length = 32 }) : String :=
  tokenStart ++ String.ofList (Hex.encode bytes.val)

/-- A row of `api_tokens`. -/
structure TokenRow extends Admin.ApiToken where
  id : Uuid
  lastUsedAt : Option Time
  revokedAt : Option Time

/-- How the server was started. -/
structure ServeOptions where
  limiter : Option RateLimit.RateLimiter
  dashboardSecret : List UInt8

/-- The database with the tokens, and the buckets of the rate limiter. -/
structure Site where
  pg : Pg
  tokens : List TokenRow
  /-- How many ids of tokens were drawn. -/
  drawn : Nat
  buckets : RateLimit.Inner

def Site.start (now : Time) : Site := { pg := Pg.init now, tokens := [], drawn := 0, buckets := .empty }

namespace Site
variable [Platform] [Sha256]
open Platform

/-! ### The operator -/

/-- `INSERT INTO api_tokens`: the row, unless its id or its hash is taken. -/
def newToken (s : Site) (token : Admin.ApiToken) : Option TokenRow :=
  let id := randomUuid s.drawn
  if s.tokens.any (fun t => t.id == id || t.tokenHash == token.tokenHash) then none
  else some { token with id, lastUsedAt := none, revokedAt := none }

/-- The row that `token_issue` adds. -/
def issued (s : Site) (bytes : { bytes : List UInt8 // bytes.length = 32 }) (team agent : String) (label : Option String) :
    Option TokenRow :=
  match ((Admin.tokenIssue (generateToken bytes) team agent label).exec s.pg).1 with
  | .ok token => s.newToken token
  | .error _ => none

/-- `UPDATE api_tokens SET revoked_at = now() WHERE id = $1`: the rows and their number. -/
def revoke (s : Site) (id : Uuid) : Nat × Site :=
  ((s.tokens.filter (·.id == id)).length,
    { s with tokens := Rows.update (·.id == id) (fun t => { t with revokedAt := some s.pg.now }) s.tokens })

/-! ### The middleware -/

/-- The token that is not revoked, with its agent and the agent's team. -/
def findToken (s : Site) (hash : List UInt8) : Option (TokenRow × Agent × Team) :=
  s.tokens.findSome? fun t =>
    if t.tokenHash == hash && t.revokedAt.isNone then do
      let a ← s.pg.db.agents.find? (·.id == t.agentId)
      let team ← s.pg.db.teams.find? (·.id == a.teamId)
      return (t, a, team)
    else none

/-- `UPDATE api_tokens SET last_used_at = now() WHERE id = $1`. -/
def use (s : Site) (id : Uuid) : Site :=
  { s with tokens := Rows.update (·.id == id) (fun t => { t with lastUsedAt := some s.pg.now }) s.tokens }

def resolveToken (s : Site) (raw : String) : Except AuthError AuthCtx × Site :=
  if tokenStart.toList.isPrefixOf raw.toList then
    match s.findToken (Admin.hashToken raw) with
    | none => (.error .invalid, s)
    | some (t, a, team) =>
      if a.disabledAt.isSome then (.error .disabled, s)
      else
        (.ok { agentId := a.id, agentName := a.name, teamId := team.id, teamSlug := team.slug, session := "" }, s.use t.id)
  else (.error .invalid, s)

/-- The bucket of the token is charged before the database is touched. -/
def charge (s : Site) (o : ServeOptions) (raw : String) (instant : Nat) : Except RateLimit.Throttled Unit × Site :=
  match o.limiter with
  | none => (.ok (), s)
  | some rl =>
    let (r, buckets) := rl.check s.buckets (String.ofList (Hex.encode (Admin.hashToken raw))) instant
    (r, { s with buckets })

def requireBearer (s : Site) (o : ServeOptions) (instant : Nat) (authorization session : Option HeaderValue) :
    Except AuthError AuthCtx × Site :=
  match bearer authorization with
  | none => (.error .missing, s)
  | some raw =>
    match s.charge o raw instant with
    | (.error t, s) => (.error (.throttled t.retryAfterSecs), s)
    | (.ok (), s) =>
      -- A malformed header is rejected before the token is looked up.
      match sessionFromHeaders session with
      | .error why => (.error (.badSession why), s)
      | .ok session =>
        match s.resolveToken raw with
        | (.error e, s) => (.error e, s)
        | (.ok ctx, s) => (.ok { ctx with session }, s)

/-! ### The dashboard -/

/-- `chrono::Utc::now().timestamp()`. -/
def unix (now : Time) : Int := now / 1000000 + 946684800

def cookieName : String := "acs_dashboard"

def grantTtlSecs : Int := 3600

/-- The agent that a login form proves to be there. -/
def loginAs (s : Site) (token : Option String) : Option (AuthCtx × Site) :=
  match token.filter fun t => !(trim t).isEmpty with
  | none => none
  | some raw =>
    match s.resolveToken raw with
    | (.error _, _) => none
    | (.ok ctx, s) => some (ctx, s)

/-- The `Set-Cookie` header of a login, or the message of the login page. -/
def login (s : Site) (o : ServeOptions) (token : Option String) (secure : Bool) : Except String String × Site :=
  if (token.filter fun t => !(trim t).isEmpty).isNone then (.error "Paste your agent token to continue.", s)
  else
    match s.loginAs token with
    | none => (.error "That token is not valid, or it has been revoked.", s)
    | some (ctx, s) =>
      let grant := Grant.issue o.dashboardSecret ctx.teamId (unix s.pg.now) grantTtlSecs
      let tail := if secure then "; Secure" else ""
      (.ok s!"{cookieName}={grant}; Path=/dashboard; HttpOnly; SameSite=Strict; Max-Age={grantTtlSecs}{tail}", s)

/-- The team whose page is shown, or the message of the login page. -/
def viewed (s : Site) (o : ServeOptions) (authorization cookie : Option HeaderValue) : Except String Uuid × Site :=
  match (cookieValue cookie cookieName).bind fun g => Grant.verify o.dashboardSecret g (unix s.pg.now) with
  | some team => (.ok team, s)
  | none =>
    match bearer authorization with
    | none => (.error "Sign in with an agent token to view this team's dashboard.", s)
    | some raw =>
      match s.resolveToken raw with
      | (.error _, s) => (.error "That token is not valid.", s)
      | (.ok ctx, s) => (.ok ctx.teamId, s)

/-- The page is built from the team alone, never from an agent. -/
def render (s : Site) (o : ServeOptions) (authorization cookie : Option HeaderValue) : Except String String × Site :=
  match s.viewed o authorization cookie with
  | (.error message, s) => (.error message, s)
  | (.ok team, s) =>
    match ((Dashboard.load team).exec s.pg).1 with
    | .error _ => (.error "<h1>500</h1>", s)
    | .ok snapshot => (.ok (Page.html s.pg.now "" snapshot), s)

end Site

/-! ### The front -/

/-- What comes in, and what goes on behind the front. -/
inductive Visit where
  | request (instant : Nat) (authorization session : Option HeaderValue) (pid : Nat) (c : Call)
  | login (token : Option String) (secure : Bool)
  | render (authorization cookie : Option HeaderValue)
  | tokenIssue (bytes : { bytes : List UInt8 // bytes.length = 32 }) (team agent : String) (label : Option String)
  | tokenRevoke (id : Uuid)
  /-- A command, the dispatcher or the clock: an event that no agent makes. -/
  | within (e : Event) (nobody : e.who = none)

namespace Site
variable [Platform] [Sha256]

/-- A request, whole: it is refused, or the tool answers. -/
def request (s : Site) (o : ServeOptions) (instant : Nat) (authorization session : Option HeaderValue) (pid : Nat) (c : Call) :
    Except AuthError (Except BusError Reply) × Site :=
  match s.requireBearer o instant authorization session with
  | (.error e, s) => (.error e, s)
  | (.ok ctx, s) => (.ok (s.pg.call ctx pid c).1, { s with pg := (s.pg.call ctx pid c).2 })

def next (o : ServeOptions) (s : Site) : Visit → Site
  | .request instant authorization session pid c => (s.request o instant authorization session pid c).2
  | .login token secure => (s.login o token secure).2
  | .render authorization cookie => (s.render o authorization cookie).2
  | .tokenIssue bytes team agent label =>
    match s.issued bytes team agent label with
    | some row => { s with tokens := s.tokens ++ [row], drawn := s.drawn + 1 }
    | none => s
  | .tokenRevoke id => (s.revoke id).2
  | .within e _ => { s with pg := s.pg.next e }

/-- The site after the visits, the first one first. -/
def after (o : ServeOptions) (s : Site) (vs : List Visit) : Site := Runs.after (next o) s vs

end Site
end CrewSync
