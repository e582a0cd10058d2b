import Screego.Ws.Room

/-!
# The state of the main loop

`Rooms` holds the room map and the map `connected`, whose empty string stands
for a connection that is in no room.
-/

namespace Screego

structure ClientInfo (XID : Type) where
  id : XID
  authenticated : Bool
  authenticatedUser : String
  addr : IP
  deriving DecidableEq

/-- The channel made by `newClient`, named by its connection. -/
abbrev ClientInfo.write {XID : Type} (info : ClientInfo XID) : XID := info.id

structure Rooms (XID : Type) where
  rooms : GoMap String (Room XID)
  connected : GoMap XID String
  world : World XID

/-- `NewRooms`. -/
def newRooms {XID : Type} (server : Turn.Server) : Rooms XID :=
  ⟨∅, ∅, ⟨server, {}, 0, [], []⟩⟩

/-- How `Execute` ends: without an error, with one, or by reading a field through a nil pointer.
An error keeps what the handler has changed so far. -/
inductive Outcome (XID : Type) where
  | ok (rooms : Rooms XID)
  | error (err : String) (rooms : Rooms XID)
  | panicked

namespace Rooms

variable {XID : Type} [DecidableEq XID] (env : Env XID)

/-- `r.connected[id]`, the zero value for a missing entry. -/
def connectedTo (r : Rooms XID) (id : XID) : String := (r.connected.lookup id).getD ""

/-- `CurrentRoom`: the pointer is the key in the room map together with the room it leads to. -/
def currentRoom (r : Rooms XID) (info : ClientInfo XID) : Except String (String × Room XID) :=
  match r.connected.lookup info.id with
  | none => .error "not connected"
  | some roomID =>
      if roomID = "" then .error "not in a room"
      else
        match r.rooms.lookup roomID with
        | none => .error ("room with id " ++ roomID ++ " does not exist")
        | some room => .ok (roomID, room)

/-- Write `room` through the pointer stored under `roomID`. -/
def store (r : Rooms XID) (roomID : String) (s : Room XID × World XID) : Rooms XID :=
  { r with rooms := r.rooms.insert roomID s.1, world := s.2 }

def count (d : Metrics) (r : Rooms XID) : Rooms XID := { r with world := r.world.count d }

/-- `closeRoom(roomID)`. -/
def closeRoom (roomID : String) (r : Rooms XID) : Rooms XID :=
  match r.rooms.lookup roomID with
  | none => r
  | some room =>
      let w := r.world.count { usersLeft := room.users.keys.card }
      let (_, w) := Room.rangeSessions env (fun id _ s ↦ Room.closeSession env id s) (room, w)
      { r with rooms := r.rooms.erase roomID, world := w.count { roomsClosed := 1 } }

end Rooms

end Screego
