import Screego.Lib.Json
import Screego.Ws.Outgoing

/-!
# Messages as JSON

`ToTypedOutgoing`, with the JSON documents of the message types.  The encoder
goes by the type of a value alone: a type keeps the fields of the type it is
defined from, but not its methods.
-/

namespace Screego

open Outgoing

variable {XID : Type}

/-- What `encoding/json` sees of values that the messages only carry. -/
structure Encoder (XID : Type) where
  /-- `xid.ID` is defined as `[12]byte`. -/
  bytes : XID → Vector UInt8 12
  /-- The document in a raw value, `none` if it is malformed. -/
  raw : RawMessage → Option Json

structure Typed where
  type : String
  payload : Json

namespace Outgoing

variable (env : Env XID) (enc : Encoder XID)

/-- `xid.ID` has a method `MarshalJSON`. -/
def marshalID (id : XID) : Json :=
  match env.xid.marshalJSON id with
  | none => .null
  | some text => .string text

/-- An array of bytes without a method of its own. -/
def marshalBytes (bytes : Vector UInt8 12) : Json :=
  .array ((bytes.toList.map UInt8.toNat).map fun n : ℕ ↦ .number n)

/-- The list is empty where nothing was appended to a nil slice. -/
def marshalAppended (items : List String) : Json :=
  if items = [] then .null else .array (items.map .string)

/-- A nil `json.RawMessage` is `null`, and any other is copied once it is checked. -/
def marshalRaw (value : RawMessage) : Except String Json :=
  if value = [] then .ok .null
  else
    match enc.raw value with
    | none => .error "malformed raw message"
    | some j => .ok j

def User.marshal (u : User XID) : Json :=
  .object [("id", marshalID env u.id), ("name", .string u.name), ("streaming", .bool u.streaming),
    ("you", .bool u.you), ("owner", .bool u.owner), ("canShare", .bool u.canShare)]

def ICEServer.marshal (s : ICEServer) : Json :=
  .object [("urls", marshalAppended s.urls), ("credential", .string s.credential),
    ("username", .string s.username)]

/-- `HostSession` and `ClientSession` have the same fields. -/
def marshalSession (id peer : XID) (iceServers : List ICEServer) : Json :=
  .object [("id", marshalID env id), ("peer", marshalID env peer),
    ("iceServers", .array (iceServers.map ICEServer.marshal))]

/-- The four relayed types are defined from `P2PMessage`, whose fields have their own types. -/
def P2PMessage.marshal (m : P2PMessage XID) : Except String Json := do
  let value ← marshalRaw enc m.value
  return .object [("sid", marshalID env m.sid), ("value", value)]

def Message.marshal : Message XID → Except String Json
  | .room id mode users =>
      .ok (.object [("id", .string id), ("mode", .string mode),
        ("users", .array (users.map (User.marshal env)))])
  | .hostSession id peer iceServers => .ok (marshalSession env id peer iceServers)
  | .clientSession id peer iceServers => .ok (marshalSession env id peer iceServers)
  | .hostICE m => m.marshal env enc
  | .clientICE m => m.marshal env enc
  | .clientAnswer m => m.marshal env enc
  | .hostOffer m => m.marshal env enc
  -- defined from `xid.ID` itself, and therefore without its `MarshalJSON`
  | .endShare id => .ok (marshalBytes (enc.bytes id))
  | .closeWriter code reason => .ok (.object [("Code", .number code), ("Reason", .string reason)])

def Message.type : Message XID → String
  | .room _ _ _ => "room"
  | .hostSession _ _ _ => "hostsession"
  | .clientSession _ _ _ => "clientsession"
  | .hostICE _ => "hostice"
  | .clientICE _ => "clientice"
  | .clientAnswer _ => "clientanswer"
  | .hostOffer _ => "hostoffer"
  | .endShare _ => "endshare"
  | .closeWriter _ _ => "closewriter"

end Outgoing

def toTypedOutgoing (env : Env XID) (enc : Encoder XID) (outgoing : Message XID) :
    Except String Typed := do
  let payload ← outgoing.marshal env enc
  return { type := outgoing.type, payload := payload }

end Screego
