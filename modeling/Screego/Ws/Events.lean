import Screego.Ws.Rooms

/-!
# Event handlers

One definition for each `Execute` of the package `ws`.  The four relay events
differ in who may send them, who receives them and the message type only.
-/

namespace Screego

open Outgoing

variable {XID : Type} [DecidableEq XID] (env : Env XID)

def closeNormalClosure : ℤ := 1000

/-! ## Leaving -/

structure Disconnected where
  code : ℤ
  reason : String
  deriving DecidableEq

/-- The body of the loop over the sessions in `executeNoError`. -/
def Disconnected.endSession (current id : XID) (session : RoomSession XID)
    (s : Room XID × World XID) : Room XID × World XID :=
  let s := if session.client = current then
    let w := match s.1.users.lookup session.host with
      | some host => host.writeTimeout (.endShare id) s.2
      | none => s.2
    Room.closeSession env id (s.1, w) else s
  if session.host = current then
    let w := match s.1.users.lookup session.client with
      | some client => client.writeTimeout (.endShare id) s.2
      | none => s.2
    Room.closeSession env id (s.1, w) else s

def Disconnected.executeNoError (e : Disconnected) (rooms : Rooms XID) (current : ClientInfo XID) :
    Rooms XID :=
  let roomID := rooms.connectedTo current.id
  let rooms := { rooms with
    connected := rooms.connected.erase current.id
    world := rooms.world.writeTimeout current.write (.closeWriter e.code e.reason) }
  if roomID = "" then rooms
  else
    match rooms.rooms.lookup roomID with
    | none => rooms
    | some room =>
        match room.users.lookup current.id with
        | none => rooms
        | some user =>
            let room := { room with users := room.users.erase current.id }
            let w := rooms.world.count { usersLeft := 1 }
            let (room, w) := Room.rangeSessions env (endSession env current.id) (room, w)
            if user.owner then
              -- the next owner is the first member the iteration happens to visit
              match ((env.range w.tick).visit room.users.keys).head? with
              | some next =>
                  let room := room.modifyUser next fun u ↦ { u with owner := true }
                  rooms.store roomID (room, room.notifyInfoChanged env (w.draw 1))
              | none => (rooms.store roomID (room, w)).closeRoom env roomID
            else if room.users.keys.card = 0 then
              (rooms.store roomID (room, w)).closeRoom env roomID
            else rooms.store roomID (room, room.notifyInfoChanged env w)

def Disconnected.execute (e : Disconnected) (rooms : Rooms XID) (current : ClientInfo XID) :
    Outcome XID :=
  .ok (e.executeNoError env rooms current)

def Exit.execute (rooms : Rooms XID) (current : ClientInfo XID) : Outcome XID :=
  .ok (Disconnected.executeNoError env ⟨closeNormalClosure, "User Left"⟩ rooms current)

/-- The body of the loop over the members in `dissolve`. -/
def Dissolve.part (room : Room XID) (rooms : Rooms XID) (k : XID) : Rooms XID :=
  match room.users.lookup k with
  | none => rooms
  | some member =>
      { rooms with
        connected := rooms.connected.erase member.id
        world :=
          member.writeTimeout (.closeWriter closeNormalClosure "Room Dissolved") rooms.world }

def Dissolve.execute (rooms : Rooms XID) (current : ClientInfo XID) : Outcome XID :=
  let roomID := rooms.connectedTo current.id
  if roomID = "" then .error "you are not in a room" rooms
  else
    match rooms.rooms.lookup roomID with
    | none => .error "room does not exist" rooms
    | some room =>
        match room.users.lookup current.id with
        | none => .error "you are not in this room" rooms
        | some user =>
            if ¬ user.owner then .error "only the room owner can dissolve the room" rooms
            else
              let rooms := ((env.range rooms.world.tick).visit room.users.keys).foldl
                (part room) { rooms with world := rooms.world.draw 1 }
              .ok (rooms.closeRoom env roomID)

/-! ## Entering -/

def Connected.execute (rooms : Rooms XID) (current : ClientInfo XID) : Outcome XID :=
  .ok { rooms with connected := rooms.connected.insert current.id "" }

/-- The name under which `create` and `join` list the client. -/
def ClientInfo.userName (current : ClientInfo XID) (userName : String) (w : World XID) :
    String × World XID :=
  let name := if current.authenticated then current.authenticatedUser else userName
  if name = "" then (Util.newUserName env w.tick, w.draw 2) else (name, w)

/-- The record that `create` and `join` make for the client. -/
def ClientInfo.newUser (current : ClientInfo XID) (name : String) (owner : Bool) : User XID :=
  { id := current.id, addr := current.addr, name := name, streaming := false, owner := owner,
    canShare := true, write := current.write }

structure Join where
  id : String
  userName : String
  deriving DecidableEq

def Join.execute (e : Join) (rooms : Rooms XID) (current : ClientInfo XID) : Outcome XID :=
  if rooms.connectedTo current.id ≠ "" then
    .error "cannot join room, you are already in one" rooms
  else
    match rooms.rooms.lookup e.id with
    | none => .error ("room with id " ++ e.id ++ " does not exist") rooms
    | some room =>
        if (room.bannedIPs.lookup current.addr.toString).getD false then
          .error "bannedFromRoom" rooms
        else
          let (name, w) := current.userName env e.userName rooms.world
          let room := { room with
            users := room.users.insert current.id (current.newUser name false) }
          let w := (room.notifyInfoChanged env w).count { usersJoined := 1 }
          let rooms := { rooms with connected := rooms.connected.insert current.id room.id }
          match env.turnIPProvider w.tick with
          | .error err => .error err (rooms.store e.id (room, w.draw 1))
          | .ok (v4, v6) =>
              match Room.rangeUsersM env (fun _ user s ↦
                if current.id = user.id ∨ ¬ user.streaming then some s
                else s.1.newSession env user.id current.id v4 v6 s.2) (room, w.draw 1) with
              | none => .panicked
              | some s => .ok (rooms.store e.id s)

structure Create where
  id : String
  mode : ConnectionMode
  closeOnOwnerLeave : Bool
  userName : String
  joinIfExist : Bool
  deriving DecidableEq

/-- The `switch rooms.config.AuthMode` of `create`: the error, if it refuses. -/
def Create.authError (e : Create) (current : ClientInfo XID) : Option String :=
  if env.config.authMode = authModeNone then none
  else if env.config.authMode = authModeAll then
    if ¬ current.authenticated then some "you need to login" else none
  else if env.config.authMode = authModeTurn then
    if e.mode ≠ connectionSTUN ∧ e.mode ≠ connectionLocal ∧ ¬ current.authenticated then
      some "you need to login" else none
  else some ("invalid authmode:" ++ env.config.authMode)

def Create.execute (e : Create) (rooms : Rooms XID) (current : ClientInfo XID) : Outcome XID :=
  if rooms.connectedTo current.id ≠ "" then
    .error "cannot join room, you are already in one" rooms
  else
    match rooms.rooms.lookup e.id with
    | some _ =>
        if e.joinIfExist then Join.execute env ⟨e.id, e.userName⟩ rooms current
        else .error ("room with id " ++ e.id ++ " does already exist") rooms
    | none =>
        let (name, w) := current.userName env e.userName rooms.world
        match e.authError env current with
        | some err => .error err { rooms with world := w }
        | none =>
            let room : Room XID :=
              { id := e.id, closeOnOwnerLeave := e.closeOnOwnerLeave, mode := e.mode,
                sessions := ∅, bannedIPs := ∅, createdAt := env.now w.tick,
                users := (∅ : GoMap XID (User XID)).insert current.id
                  (current.newUser name true) }
            let rooms := { rooms with connected := rooms.connected.insert current.id room.id }
            let w := (room.notifyInfoChanged env (w.draw 1)).count
              { usersJoined := 1, roomsCreated := 1 }
            .ok (rooms.store e.id (room, w))

/-! ## Inside a room -/

structure Name where
  userName : String
  deriving DecidableEq

def Name.execute (e : Name) (rooms : Rooms XID) (current : ClientInfo XID) : Outcome XID :=
  match rooms.currentRoom current with
  | .error err => .error err rooms
  | .ok (roomID, room) =>
      match room.users.lookup current.id with
      | none => .panicked
      | some _ =>
          let room := room.modifyUser current.id fun u ↦ { u with name := e.userName }
          .ok (rooms.store roomID (room, room.notifyInfoChanged env rooms.world))

def StartShare.execute (rooms : Rooms XID) (current : ClientInfo XID) : Outcome XID :=
  match rooms.currentRoom current with
  | .error err => .error err rooms
  | .ok (roomID, room) =>
      if (room.users.lookup current.id).any fun u ↦ ¬ u.canShare then
        .error "you do not have permission to share screen" rooms
      else if ∃ k ∈ room.users.keys, (room.users.lookup k).any fun user ↦
          user.streaming ∧ user.id ≠ current.id then
        .error "another user is already sharing screen" rooms
      else
        match room.users.lookup current.id with
        | none => .panicked
        | some _ =>
            let room := room.modifyUser current.id fun u ↦ { u with streaming := true }
            match env.turnIPProvider rooms.world.tick with
            | .error err => .error err (rooms.store roomID (room, rooms.world.draw 1))
            | .ok (v4, v6) =>
                match Room.rangeUsersM env (fun _ user s ↦
                  if current.id = user.id then some s
                  else s.1.newSession env current.id user.id v4 v6 s.2)
                  (room, rooms.world.draw 1) with
                | none => .panicked
                | some (room, w) => .ok (rooms.store roomID (room, room.notifyInfoChanged env w))

/-- The body of the loop over the sessions in `stopshare`. -/
def StopShare.endSession (current id : XID) (session : RoomSession XID)
    (s : Room XID × World XID) : Room XID × World XID :=
  if session.host = current then
    let w := match s.1.users.lookup session.client with
      | some client => client.writeTimeout (.endShare id) s.2
      | none => s.2
    Room.closeSession env id (s.1, w)
  else s

def StopShare.execute (rooms : Rooms XID) (current : ClientInfo XID) : Outcome XID :=
  match rooms.currentRoom current with
  | .error err => .error err rooms
  | .ok (roomID, room) =>
      match room.users.lookup current.id with
      | none => .panicked
      | some _ =>
          let room := room.modifyUser current.id fun u ↦ { u with streaming := false }
          let (room, w) := Room.rangeSessions env (endSession env current.id) (room, rooms.world)
          .ok (rooms.store roomID (room, room.notifyInfoChanged env w))

/-! ## Relaying -/

/-- The common body of the four relay events. -/
def relay (sender recipient : RoomSession XID → XID) (msg : P2PMessage XID → Message XID)
    (e : P2PMessage XID) (rooms : Rooms XID) (current : ClientInfo XID) : Outcome XID :=
  match rooms.currentRoom current with
  | .error err => .error err rooms
  | .ok (_, room) =>
      match room.sessions.lookup e.sid with
      | none => .ok rooms
      | some session =>
          if sender session ≠ current.id then
            .error ("permission denied for session " ++ env.xid.toString e.sid) rooms
          else
            match room.users.lookup (recipient session) with
            | none => .panicked
            | some user => .ok { rooms with world := user.writeTimeout (msg e) rooms.world }

def HostOffer.execute := relay env RoomSession.host RoomSession.client Message.hostOffer

def HostICE.execute := relay env RoomSession.host RoomSession.client Message.hostICE

def ClientAnswer.execute := relay env RoomSession.client RoomSession.host Message.clientAnswer

def ClientICE.execute := relay env RoomSession.client RoomSession.host Message.clientICE

/-! ## Owner actions -/

structure OwnerAction where
  action : String
  targetUserID : String
  deriving DecidableEq

namespace OwnerAction

/-- The loop that closes the sessions for which `p` holds and tells nobody. -/
def closeSessions (p : RoomSession XID → Prop) [DecidablePred p] (s : Room XID × World XID) :
    Room XID × World XID :=
  Room.rangeSessions env (fun id session s ↦
    if p session then Room.closeSession env id s else s) s

/-- The body of the loop over the members in `enable_all`. -/
def enable (current k : XID) (user : User XID) (s : Room XID × World XID) :
    Room XID × World XID :=
  if user.id ≠ current then (s.1.modifyUser k fun u ↦ { u with canShare := true }, s.2)
  else s

def enableAll (current : XID) (s : Room XID × World XID) : Room XID × World XID :=
  Room.rangeUsers env (enable current) s

/-- The body of the loop over the members in `disable_all`. -/
def disable (current k : XID) (user : User XID) (s : Room XID × World XID) :
    Room XID × World XID :=
  if user.id ≠ current then
    let room := s.1.modifyUser k fun u ↦ { u with canShare := false }
    if user.streaming then
      let room := room.modifyUser k fun u ↦ { u with streaming := false }
      closeSessions env (fun session ↦ session.host = k) (room, s.2)
    else (room, s.2)
  else s

def disableAll (current : XID) (s : Room XID × World XID) : Room XID × World XID :=
  Room.rangeUsers env (disable env current) s

/-- `stop_share` on a streaming target. -/
def stopShare (targetID : XID) (s : Room XID × World XID) : Room XID × World XID :=
  closeSessions env (fun session ↦ session.host = targetID)
    (s.1.modifyUser targetID fun u ↦ { u with streaming := false }, s.2)

def toggleSharePermission (targetID : XID) (targetUser : User XID) (s : Room XID × World XID) :
    Room XID × World XID :=
  let room := s.1.modifyUser targetID fun u ↦ { u with canShare := !u.canShare }
  if targetUser.canShare ∧ targetUser.streaming then stopShare env targetID (room, s.2)
  else (room, s.2)

/-- What `kick` and `ban` do after the ban list is written. -/
def remove (targetID : XID) (targetUser : User XID) (reason : String) (roomID : String)
    (room : Room XID) (rooms : Rooms XID) : Rooms XID :=
  let rooms := { rooms with connected := rooms.connected.erase targetID }
  let (room, w) := closeSessions env
    (fun session ↦ session.host = targetID ∨ session.client = targetID)
    ({ room with users := room.users.erase targetID }, rooms.world)
  let w := targetUser.writeTimeout (.closeWriter closeNormalClosure reason) w
  (rooms.store roomID (room, room.notifyInfoChanged env w)).count { usersLeft := 1 }

def execute (e : OwnerAction) (rooms : Rooms XID) (current : ClientInfo XID) : Outcome XID :=
  match rooms.currentRoom current with
  | .error err => .error err rooms
  | .ok (roomID, room) =>
      if ¬ (room.users.lookup current.id).any fun u ↦ u.owner then
        .error "only owner can perform this action" rooms
      else if e.action = "enable_all" then
        let (room, w) := enableAll env current.id (room, rooms.world)
        .ok (rooms.store roomID (room, room.notifyInfoChanged env w))
      else if e.action = "disable_all" then
        let (room, w) := disableAll env current.id (room, rooms.world)
        .ok (rooms.store roomID (room, room.notifyInfoChanged env w))
      else if e.targetUserID = "" then
        .error "targetUserId is required for individual actions" rooms
      else
        match env.xid.fromString e.targetUserID with
        | none => .error "invalid user ID" rooms
        | some targetID =>
            match room.users.lookup targetID with
            | none => .error "user not found" rooms
            | some targetUser =>
                if targetID = current.id then .error "cannot perform action on yourself" rooms
                else if e.action = "stop_share" then
                  if targetUser.streaming then
                    let (room, w) := stopShare env targetID (room, rooms.world)
                    .ok (rooms.store roomID (room, room.notifyInfoChanged env w))
                  else .ok rooms
                else if e.action = "toggle_share_permission" then
                  let (room, w) := toggleSharePermission env targetID targetUser
                    (room, rooms.world)
                  .ok (rooms.store roomID (room, room.notifyInfoChanged env w))
                else if e.action = "kick" then
                  .ok (remove env targetID targetUser "kickedByOwner" roomID room rooms)
                else if e.action = "ban" then
                  let room := { room with
                    bannedIPs := room.bannedIPs.insert targetUser.addr.toString true }
                  .ok (remove env targetID targetUser "bannedByOwner" roomID room rooms)
                else .error ("unknown action: " ++ e.action) rooms

end OwnerAction

/-! ## Dispatch -/

/-- `len(rooms.connected)` goes to the caller of `Count`. -/
def Health.execute (rooms : Rooms XID) : Outcome XID :=
  .ok { rooms with world :=
    { rooms.world with health := rooms.world.health ++ [rooms.connected.keys.card] } }

inductive Event (XID : Type) where
  | connected
  | health
  | disconnected (e : Disconnected)
  | create (e : Create)
  | join (e : Join)
  | name (e : Name)
  | startShare
  | stopShare
  | ownerAction (e : OwnerAction)
  | exit
  | dissolve
  | hostOffer (e : P2PMessage XID)
  | hostICE (e : P2PMessage XID)
  | clientAnswer (e : P2PMessage XID)
  | clientICE (e : P2PMessage XID)
  deriving DecidableEq

namespace Event

/-- The type string under which an event is registered for decoding; `none` for the events that
no frame of a client decodes to. -/
def registered : Event XID → Option String
  | connected => none
  | health => none
  | disconnected _ => none
  | create _ => some "create"
  | join _ => some "join"
  | name _ => some "name"
  | startShare => some "share"
  | stopShare => some "stopshare"
  | ownerAction _ => some "owneraction"
  | exit => some "exit"
  | dissolve => some "dissolve"
  | hostOffer _ => some "hostoffer"
  | hostICE _ => some "hostice"
  | clientAnswer _ => some "clientanswer"
  | clientICE _ => some "clientice"

def execute (event : Event XID) (rooms : Rooms XID) (current : ClientInfo XID) : Outcome XID :=
  match event with
  | connected => Connected.execute rooms current
  | health => Health.execute rooms
  | disconnected e => e.execute env rooms current
  | create e => e.execute env rooms current
  | join e => e.execute env rooms current
  | name e => e.execute env rooms current
  | startShare => StartShare.execute env rooms current
  | stopShare => StopShare.execute env rooms current
  | ownerAction e => e.execute env rooms current
  | exit => Exit.execute env rooms current
  | dissolve => Dissolve.execute env rooms current
  | hostOffer e => HostOffer.execute env e rooms current
  | hostICE e => HostICE.execute env e rooms current
  | clientAnswer e => ClientAnswer.execute env e rooms current
  | clientICE e => ClientICE.execute env e rooms current

end Event

structure ClientMessage (XID : Type) where
  info : ClientInfo XID
  skipConnectedCheck : Bool
  incoming : Event XID

/-- One iteration of the loop in `Start`; `none` is a panic. -/
def Rooms.start (rooms : Rooms XID) (msg : ClientMessage XID) : Option (Rooms XID) :=
  if ¬ msg.skipConnectedCheck ∧ msg.info.id ∉ rooms.connected.keys then some rooms
  else
    match msg.incoming.execute env rooms msg.info with
    | .ok rooms => some rooms
    | .error err rooms =>
        some (Disconnected.executeNoError env ⟨closeNormalClosure, err⟩ rooms msg.info)
    | .panicked => none

end Screego
