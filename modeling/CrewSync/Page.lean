import CrewSync.Dashboard

/-! The page of the dashboard (`src/dashboard/mod.rs`): rows turned into HTML. A page is a list of pieces: what the
    template says, and what a value puts into one of its slots. -/

namespace CrewSync

/-- `str::replace` of a character. -/
def replace (s : String) (c : Char) (rep : String) : String :=
  String.ofList (s.toList.flatMap fun x => if x = c then rep.toList else [x])

/-- `str::replace` of a text by nothing; `skip` is what is left of an occurrence. -/
def removeText (pat : List Char) : Nat → List Char → List Char
  | _, [] => []
  | skip + 1, _ :: cs => removeText pat skip cs
  | 0, c :: cs => if pat.isPrefixOf (c :: cs) then removeText pat (pat.length - 1) cs else c :: removeText pat 0 cs

namespace Page
open Dashboard

/-- Escape user content for HTML. -/
def esc (s : String) : String :=
  replace (replace (replace (replace (replace s '&' "&amp;") '<' "&lt;") '>' "&gt;") '"' "&quot;") '\'' "&#39;"

def ago (now t : Time) : String :=
  let secs := ((now - t) / 1000000).toNat -- `num_seconds().max(0)`
  if secs ≤ 59 then toString secs ++ "s ago"
  else if secs ≤ 3599 then toString (secs / 60) ++ "m ago"
  else if secs ≤ 86399 then toString (secs / 3600) ++ "h ago"
  else toString (secs / 86400) ++ "d ago"

/-- `ago(…).replace(" ago", "")`. -/
def agoBare (now t : Time) : String := String.ofList (removeText " ago".toList 0 (ago now t).toList)

inductive Piece where
  | template (s : String)
  /-- What a placeholder of the template shows. -/
  | slot (s : String)
  deriving DecidableEq

def Piece.text : Piece → String
  | .template s => s
  | .slot s => s

/-- Icon and label, never the colour alone. -/
def statusDot (a : AgentRow) : String :=
  if a.online then
    if a.status = some "blocked" then "<span class=\"st st-serious\">●</span> ⛔ blocked"
    else if a.status = some "busy" then "<span class=\"st st-warning\">●</span> ⚙ busy"
    else if a.status = some "idle" then "<span class=\"st st-muted\">●</span> ◌ idle"
    else "<span class=\"st st-good\">●</span> ✓ active"
  else "<span class=\"st st-muted\">●</span> ○ offline"

def place (a : AgentRow) : List Piece :=
  match a.repo, a.branch with
  | some r, some b => [.slot (esc r), .template "@", .slot (esc b)]
  | some r, none => [.slot (esc r)]
  | none, _ => []

def who (a : AgentRow) : List Piece :=
  if a.session.isEmpty then [.template "<strong>", .slot (esc a.name), .template "</strong>"]
  else [.template "<strong>", .slot (esc a.name), .template "</strong> <span class=\"muted\">/",
    .slot (esc a.session), .template "</span>"]

def agentRow (now : Time) (a : AgentRow) : List Piece :=
  [.template "<tr><td>"] ++ who a ++ [.template "</td><td>", .template (statusDot a), .template "</td><td>"] ++ place a ++
    [.template "</td><td>", .slot (esc (a.activity.getD "")), .template "</td><td class=\"muted\">",
     .slot ((a.updatedAt.map (ago now)).getD ""), .template "</td></tr>"]

def badge (t : TaskRow) : List Piece :=
  match t.status with
  | .done => [.template "<span class=\"st st-good\">●</span> ✓ done"]
  | .claimed => [.template "<span class=\"st st-warning\">●</span> ⚙ claimed by ", .slot (esc (t.claimedBy.getD "?"))]
  | .cancelled => [.template "<span class=\"st st-muted\">●</span> ✕ cancelled"]
  | .«open» =>
    if t.blocked then [.template "<span class=\"st st-serious\">●</span> ⛔ blocked"]
    else [.template "<span class=\"st st-muted\">●</span> ◌ open"]

def taskRow (now : Time) (t : TaskRow) : List Piece :=
  [.template "<tr><td><code>", .slot (esc t.key), .template "</code></td><td>", .slot (esc t.title),
   .template "</td><td>"] ++ badge t ++
    [.template "</td><td>", .slot (esc (t.result.getD "")), .template "</td><td class=\"muted\">",
     .slot (ago now t.updatedAt), .template "</td></tr>"]

def channelCell (m : MessageRow) : List Piece :=
  if m.announce then
    [.template "#", .slot (esc m.channel), .template " <span class=\"st st-warning\">●</span> announced"]
  else [.template "#", .slot (esc m.channel)]

def messageRow (now : Time) (m : MessageRow) : List Piece :=
  [.template "<tr><td class=\"muted\">", .slot (ago now m.createdAt), .template "</td><td>"] ++ channelCell m ++
    [.template "</td><td><strong>", .slot (esc m.sender), .template "</strong></td><td>", .slot (esc m.body),
     .template "</td></tr>"]

def lockRow (now : Time) (l : LockRow) : List Piece :=
  [.template "<tr><td><code>", .slot (esc l.name), .template "</code></td><td>", .slot (esc l.holder),
   .template "</td><td>", .slot (esc (l.purpose.getD "")), .template "</td><td class=\"muted\">expires ",
   .slot (agoBare now l.expiresAt), .template "</td></tr>"]

def lockRows (now : Time) (locks : List LockRow) : List Piece :=
  if locks.isEmpty then [.template "<tr><td colspan=4 class=\"muted\">no locks held</td></tr>"]
  else locks.flatMap (lockRow now)

def noteRow (now : Time) (n : NoteRow) : List Piece :=
  [.template "<tr><td class=\"muted\">", .slot (ago now n.updatedAt), .template "</td><td><code>", .slot (esc n.scope),
   .template "/", .slot (esc n.key), .template "</code></td><td>", .slot (esc (n.updatedBy.getD "")),
   .template "</td></tr>"]

def style : String := "\n".intercalate [
  "<style>",
  ":root \x7b",
  "  --surface: #fcfcfb; --card: #ffffff; --border: #e4e3df;",
  "  --ink: #0b0b0b; --ink-2: #52514e; --ink-3: #8a8984;",
  "  --good: #0ca30c; --warning: #fab219; --serious: #ec835a; --critical: #d03b3b;",
  "\x7d",
  "@media (prefers-color-scheme: dark) \x7b",
  "  :root \x7b",
  "    --surface: #1a1a19; --card: #232322; --border: #3a3936;",
  "    --ink: #ffffff; --ink-2: #c3c2b7; --ink-3: #8a8984;",
  "  \x7d",
  "\x7d",
  "* \x7b box-sizing: border-box; \x7d",
  "body \x7b",
  "  margin: 0; padding: 24px; background: var(--surface); color: var(--ink);",
  "  font: 14px/1.5 system-ui, -apple-system, \"Segoe UI\", sans-serif;",
  "\x7d",
  "h1 \x7b font-size: 18px; margin: 0 0 4px; \x7d",
  "h2 \x7b font-size: 13px; margin: 28px 0 8px; color: var(--ink-2);",
  "     text-transform: uppercase; letter-spacing: .06em; \x7d",
  ".sub \x7b color: var(--ink-3); margin-bottom: 20px; \x7d",
  ".tiles \x7b display: flex; gap: 12px; flex-wrap: wrap; \x7d",
  ".tile \x7b",
  "  background: var(--card); border: 1px solid var(--border); border-radius: 10px;",
  "  padding: 14px 18px; min-width: 130px;",
  "\x7d",
  ".tile .n \x7b font-size: 26px; font-weight: 650; \x7d",
  ".tile .l \x7b color: var(--ink-2); font-size: 12px; \x7d",
  "table \x7b width: 100%; border-collapse: collapse; background: var(--card);",
  "        border: 1px solid var(--border); border-radius: 10px; overflow: hidden; \x7d",
  "td \x7b padding: 7px 12px; border-top: 1px solid var(--border); vertical-align: top; \x7d",
  "tr:first-child td \x7b border-top: none; \x7d",
  "code \x7b background: transparent; color: inherit; \x7d",
  ".muted \x7b color: var(--ink-3); white-space: nowrap; \x7d",
  ".st \x7b font-size: 10px; vertical-align: 1px; \x7d",
  ".st-good \x7b color: var(--good); \x7d",
  ".st-warning \x7b color: var(--warning); \x7d",
  ".st-serious \x7b color: var(--serious); \x7d",
  ".st-muted \x7b color: var(--ink-3); \x7d",
  "</style>"]

def head : String := "\n".intercalate [
  "<!doctype html>",
  "<html lang=\"en\">",
  "<head>",
  "<meta charset=\"utf-8\">",
  "<meta name=\"viewport\" content=\"width=device-width, initial-scale=1\">",
  "<meta http-equiv=\"refresh\" content=\"15\">",
  "<title>ai-crew-sync · "]

/-- The page for a viewer; each `ago` reads the clock. -/
def buildPage (now : Time) (viewer : String) (s : Snapshot) : List Piece :=
  [.template head, .slot (esc s.team), .template ("</title>\n" ++ style ++ "\n</head>\n<body>\n<h1>ai-crew-sync · "),
   .slot (esc s.team), .template "</h1>\n<div class=\"sub\">viewed as ", .slot (esc viewer),
   .template (" · refreshes every 15s · direct messages never shown</div>\n\n<div class=\"tiles\">\n" ++
     "  <div class=\"tile\"><div class=\"n\">"),
   .slot (toString s.totals.agentsOnline),
   .template "</div><div class=\"l\">agents online</div></div>\n  <div class=\"tile\"><div class=\"n\">",
   .slot (toString s.totals.claimedTasks),
   .template "</div><div class=\"l\">tasks in progress</div></div>\n  <div class=\"tile\"><div class=\"n\">",
   .slot (toString s.totals.openTasks),
   .template "</div><div class=\"l\">tasks open</div></div>\n  <div class=\"tile\"><div class=\"n\">",
   .slot (toString s.totals.messages24h),
   .template "</div><div class=\"l\">channel msgs · 24h</div></div>\n</div>\n\n<h2>Agents</h2>\n<table>"] ++
    s.agents.flatMap (agentRow now) ++ [.template "</table>\n\n<h2>Tasks</h2>\n<table>"] ++
    s.tasks.flatMap (taskRow now) ++ [.template "</table>\n\n<h2>Locks</h2>\n<table>"] ++
    lockRows now s.locks ++ [.template "</table>\n\n<h2>Latest channel messages</h2>\n<table>"] ++
    s.messages.reverse.flatMap (messageRow now) ++
    [.template "</table>\n\n<h2>Recently updated notes</h2>\n<table>"] ++
    s.notes.flatMap (noteRow now) ++ [.template "</table>\n</body>\n</html>"]

/-- The page as it is sent. -/
def html (now : Time) (viewer : String) (s : Snapshot) : String := String.join ((buildPage now viewer s).map Piece.text)

end Page
end CrewSync
