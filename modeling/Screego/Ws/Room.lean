import Screego.Ws.Outgoing

/-!
# Rooms

The room record of `ws/room.go` and its methods.  A method that writes through
the room pointer takes the room and returns it, and the handlers store it back.
A read of a missing map entry through a nil pointer is a panic, the result
`none`.
-/

namespace Screego

open Outgoing

structure User (XID : Type) where
  id : XID
  addr : IP
  name : String
  streaming : Bool
  owner : Bool
  canShare : Bool
  /-- The write channel of the connection. -/
  write : XID
  deriving DecidableEq

structure RoomSession (XID : Type) where
  host : XID
  client : XID
  deriving DecidableEq

structure Room (XID : Type) where
  id : String
  closeOnOwnerLeave : Bool
  mode : ConnectionMode
  users : GoMap XID (User XID)
  sessions : GoMap XID (RoomSession XID)
  bannedIPs : GoMap String Bool
  createdAt : ℤ

/-- `Rooms.addresses`. -/
def addresses (config : Config) (pre : String) (v4 v6 : IP) (tcp : Bool) : List String :=
  (if v4 ≠ [] then
    [pre ++ ":" ++ v4.toString ++ ":" ++ config.turnPort] ++
      if tcp then [pre ++ ":" ++ v4.toString ++ ":" ++ config.turnPort ++ "?transport=tcp"] else []
  else []) ++
  (if v6 ≠ [] then
    [pre ++ ":[" ++ v6.toString ++ "]:" ++ config.turnPort] ++
      if tcp then [pre ++ ":[" ++ v6.toString ++ "]:" ++ config.turnPort ++ "?transport=tcp"]
      else []
  else [])

def User.writeTimeout {XID : Type} (u : User XID) (msg : Message XID) (w : World XID) : World XID :=
  w.writeTimeout u.write msg

namespace Room

variable {XID : Type} [DecidableEq XID] (env : Env XID)

def hostName (id : XID) : String := env.xid.toString id ++ "host"

def clientName (id : XID) : String := env.xid.toString id ++ "client"

/-- The `switch r.Mode` of `newSession`: the ICE servers of the two ends. -/
def iceServers (mode : ConnectionMode) (id : XID) (host client : User XID) (v4 v6 : IP)
    (w : World XID) : List ICEServer × List ICEServer × World XID :=
  if mode = connectionLocal then ([], [], w)
  else if mode = connectionSTUN then
    ([⟨addresses env.config "stun" v4 v6 false, "", ""⟩],
      [⟨addresses env.config "stun" v4 v6 false, "", ""⟩], w)
  else if mode = connectionTURN then
    let (hostName, hostPW, w) := w.credentials env (hostName env id) host.addr
    let (clientName, clientPW, w) := w.credentials env (clientName env id) client.addr
    ([⟨addresses env.config "turn" v4 v6 true, hostPW, hostName⟩],
      [⟨addresses env.config "turn" v4 v6 true, clientPW, clientName⟩], w)
  else ([], [], w)

/-- `newSession(host, client, rooms, v4, v6)`.  Both ends are written to in every mode, so a
missing one panics whatever the mode is. -/
def newSession (room : Room XID) (host client : XID) (v4 v6 : IP) (w : World XID) :
    Option (Room XID × World XID) := do
  let id := env.xid.new w.tick
  let w := w.draw 1
  let sessions := room.sessions.insert id ⟨host, client⟩
  let w := w.count { sessionCreated := 1 }
  let hostUser ← room.users.lookup host
  let clientUser ← room.users.lookup client
  let (iceHost, iceClient, w) := iceServers env room.mode id hostUser clientUser v4 v6 w
  let w := hostUser.writeTimeout (.hostSession id client iceHost) w
  let w := clientUser.writeTimeout (.clientSession id host iceClient) w
  return ({ room with sessions := sessions }, w)

/-- `closeSession(rooms, id)`. -/
def closeSession (id : XID) (s : Room XID × World XID) : Room XID × World XID :=
  let (room, w) := s
  let w := if room.mode = connectionTURN then
    (w.disallow (hostName env id)).disallow (clientName env id) else w
  ({ room with sessions := room.sessions.erase id }, w.count { sessionClosed := 1 })

/-- The list that `notifyInfoChanged` builds for the member `current`, for one order of the inner
`range`.  Sorting is stable here; the input order is arbitrary, so every sorted arrangement of
the list can occur, as with `sort.Slice`. -/
def userList (o : RangeOrder XID) (room : Room XID) (current : XID) : List (Outgoing.User XID) :=
  ((o.visit room.users.keys).filterMap fun k ↦ (room.users.lookup k).map fun user ↦
    { id := user.id, name := user.name, streaming := user.streaming, you := current = k,
      owner := user.owner, canShare := user.canShare }).insertionSort
    fun a b ↦ ¬ b.less a

/-- `notifyInfoChanged`.  The message leaves `Mode` at its zero value. -/
def notifyInfoChanged (room : Room XID) (w : World XID) : World XID :=
  ((env.range w.tick).visit room.users.keys).foldl (fun w k ↦
    match room.users.lookup k with
    | none => w
    | some current =>
        current.writeTimeout (.room room.id "" (room.userList (env.range w.tick) k)) (w.draw 1))
    (w.draw 1)

/-- `for id, session := range room.Sessions`.  An entry deleted before its turn is skipped. -/
def rangeSessions (body : XID → RoomSession XID → Room XID × World XID → Room XID × World XID)
    (s : Room XID × World XID) : Room XID × World XID :=
  ((env.range s.2.tick).visit s.1.sessions.keys).foldl (fun s id ↦
    match s.1.sessions.lookup id with
    | none => s
    | some session => body id session s) (s.1, s.2.draw 1)

/-- `for id, user := range room.Users`. -/
def rangeUsers (body : XID → User XID → Room XID × World XID → Room XID × World XID)
    (s : Room XID × World XID) : Room XID × World XID :=
  ((env.range s.2.tick).visit s.1.users.keys).foldl (fun s k ↦
    match s.1.users.lookup k with
    | none => s
    | some user => body k user s) (s.1, s.2.draw 1)

/-- The same loop around a body that can panic. -/
def rangeUsersM
    (body : XID → User XID → Room XID × World XID → Option (Room XID × World XID))
    (s : Room XID × World XID) : Option (Room XID × World XID) :=
  ((env.range s.2.tick).visit s.1.users.keys).foldlM (fun s k ↦
    match s.1.users.lookup k with
    | none => some s
    | some user => body k user s) (s.1, s.2.draw 1)

/-- Assign to a field of the record under a key of `Users`. -/
def modifyUser (room : Room XID) (k : XID) (f : User XID → User XID) : Room XID :=
  { room with users := room.users.modify k f }

end Room

end Screego
