import CrewSync.Store.Messaging
import CrewSync.Store.Tasks

/-! `whoami` (`src/store/mod.rs`). -/

namespace CrewSync
variable [Platform]

/-- The unread direct messages of a session: `m.id > COALESCE(c.last_message_id, 0)` with the cursor of
    its inbox. -/
def unreadInbox (auth : AuthCtx) (db : Db) : Int :=
  (db.messages.filter fun m =>
    m.recipientAgentId == some auth.agentId &&
      decide (db.lastRead auth.agentId (cursorScope "inbox" auth.session) < m.id) &&
      addressedTo auth.session m).length

def whoami (auth : AuthCtx) : Bus WhoAmI := do
  let unread ← select .messages fun pg => unreadInbox auth pg.db
  let claimed ← select .tasks fun pg =>
    (pg.db.tasks.filter fun t => t.status == .claimed && heldBy auth.agentId auth.session t).length
  let channel ← defaultChannel auth
  return { agent := auth.agentName, agentId := auth.agentId, team := auth.teamSlug, teamId := auth.teamId
           session := sessionLabel auth, defaultChannel := channel.map (·.2)
           unreadDirectMessages := unread, openClaimedTasks := claimed }

end CrewSync
