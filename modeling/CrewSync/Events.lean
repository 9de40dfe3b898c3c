import CrewSync.Lib.Json
import CrewSync.Triggers

/-! The events that the hub hands out (`src/events.rs`): parsed `NOTIFY` payloads. -/

namespace CrewSync

def Scalar.toJson : Scalar → Json.Scalar
  | .null => .null
  | .bool b => .bool b
  | .num n => .num n
  | .str s => .str s.toList

def Scalar.ofJson : Json.Scalar → Scalar
  | .null => .null
  | .bool b => .bool b
  | .num n => .num n
  | .str s => .str (String.ofList s)

/-- `json_build_object(…)::text`. -/
def payloadText (p : Payload) : String :=
  String.ofList (Json.text (p.map fun m => (m.1.toList, m.2.toJson)))

variable [Platform]
open Platform

/-- A parsed payload. -/
structure BusEvent where
  fields : Payload
  deriving DecidableEq

namespace BusEvent

/-- `serde_json::from_str` of a notification; the listener skips what it cannot parse. -/
def parse (payload : String) : Option BusEvent :=
  (Json.parse payload.toList).map fun o =>
    { fields := o.map fun m => (String.ofList m.1, .ofJson m.2) }

def get (e : BusEvent) (key : String) : Option Scalar := (e.fields.find? (·.1 == key)).map (·.2)

def text (e : BusEvent) (key : String) : Option String :=
  match e.get key with
  | some (.str s) => some s
  | _ => none

def uuidField (e : BusEvent) (key : String) : Option Uuid := (e.text key).bind parseUuid

def kind (e : BusEvent) : String := (e.text "kind").getD ""

def teamId (e : BusEvent) : Option Uuid := e.uuidField "team_id"

def recipientAgentId (e : BusEvent) : Option Uuid := e.uuidField "recipient_agent_id"

def senderAgentId (e : BusEvent) : Option Uuid := e.uuidField "sender_agent_id"

def channelId (e : BusEvent) : Option Uuid := e.uuidField "channel_id"

def messageId (e : BusEvent) : Option Int :=
  match e.get "id" with
  | some (.num n) => some n
  | _ => none

def recipientSession (e : BusEvent) : Option String := e.text "recipient_session"

def senderSession (e : BusEvent) : Option String := e.text "sender_session"

def isAnnouncement (e : BusEvent) : Bool :=
  match e.get "announce" with
  | some (.bool b) => b
  | _ => false

def isDirectMessage (e : BusEvent) : Bool := e.kind == "message" && e.recipientAgentId.isSome

/-- Direct messages reach their recipient and their sender, everything else the whole team. -/
def visibleTo (e : BusEvent) (team agent : Uuid) (session : String) : Bool :=
  if e.teamId != some team then false
  else if e.isDirectMessage then
    if e.senderAgentId == some agent then true
    else if e.recipientAgentId != some agent then false
    else
      match e.recipientSession with
      | some addressed => addressed == session
      | none => true
  else true

end BusEvent

/-- What a subscriber receives: an event, or the news that it fell behind and events were dropped. -/
inductive Received where
  | event (e : BusEvent)
  | lagged
  deriving DecidableEq

end CrewSync
