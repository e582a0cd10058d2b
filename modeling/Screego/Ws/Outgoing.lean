import Mathlib.Data.List.Sort
import Mathlib.Data.String.Basic
import Screego.Turn.Server

/-!
# Messages to the clients

The message types of `ws/outgoing`, and the part of the process that handlers
change besides the two maps of the main loop: the TURN server, the counters,
the draws made so far, and everything handed to a write channel.  A write
channel belongs to one connection for good, so it is named by the id of that
connection.
-/

namespace Screego

abbrev ConnectionMode := String

def connectionLocal : ConnectionMode := "local"
def connectionSTUN : ConnectionMode := "stun"
def connectionTURN : ConnectionMode := authModeTurn

/-- `json.RawMessage`. -/
abbrev RawMessage := List UInt8

namespace Outgoing

/-- `outgoing.User`: one line of a room's member list. -/
structure User (XID : Type) where
  id : XID
  name : String
  streaming : Bool
  you : Bool
  owner : Bool
  canShare : Bool
  deriving DecidableEq

structure ICEServer where
  urls : List String
  credential : String
  username : String
  deriving DecidableEq

structure P2PMessage (XID : Type) where
  sid : XID
  value : RawMessage
  deriving DecidableEq

inductive Message (XID : Type) where
  | room (id : String) (mode : ConnectionMode) (users : List (User XID))
  | hostSession (id peer : XID) (iceServers : List ICEServer)
  | clientSession (id peer : XID) (iceServers : List ICEServer)
  | hostICE (m : P2PMessage XID)
  | clientICE (m : P2PMessage XID)
  | clientAnswer (m : P2PMessage XID)
  | hostOffer (m : P2PMessage XID)
  | endShare (id : XID)
  | closeWriter (code : ℤ) (reason : String)
  deriving DecidableEq

/-- The comparison that `notifyInfoChanged` sorts by. -/
def User.less {XID : Type} (left right : User XID) : Bool :=
  if left.owner ≠ right.owner then left.owner
  else if left.streaming ≠ right.streaming then left.streaming
  else decide (left.name < right.name)

end Outgoing

open Outgoing

/-- The counters of `prometheus.go`. -/
@[ext]
structure Metrics where
  roomsCreated : ℕ := 0
  roomsClosed : ℕ := 0
  usersJoined : ℕ := 0
  usersLeft : ℕ := 0
  sessionCreated : ℕ := 0
  sessionClosed : ℕ := 0
  deriving DecidableEq

instance : Add Metrics where
  add a b :=
    { roomsCreated := a.roomsCreated + b.roomsCreated
      roomsClosed := a.roomsClosed + b.roomsClosed
      usersJoined := a.usersJoined + b.usersJoined
      usersLeft := a.usersLeft + b.usersLeft
      sessionCreated := a.sessionCreated + b.sessionCreated
      sessionClosed := a.sessionClosed + b.sessionClosed }

instance : Zero Metrics where
  zero := {}

theorem Metrics.add_def (a b : Metrics) : a + b =
    { roomsCreated := a.roomsCreated + b.roomsCreated
      roomsClosed := a.roomsClosed + b.roomsClosed
      usersJoined := a.usersJoined + b.usersJoined
      usersLeft := a.usersLeft + b.usersLeft
      sessionCreated := a.sessionCreated + b.sessionCreated
      sessionClosed := a.sessionClosed + b.sessionClosed } := rfl

instance : AddCommMonoid Metrics where
  add_assoc a b c := by ext <;> exact Nat.add_assoc ..
  zero_add a := by ext <;> exact Nat.zero_add _
  add_zero a := by ext <;> exact Nat.add_zero _
  add_comm a b := by ext <;> exact Nat.add_comm ..
  nsmul := nsmulRec

structure World (XID : Type) where
  turnServer : Turn.Server
  metrics : Metrics
  /-- The number of draws made so far. -/
  tick : ℕ
  /-- Everything handed to a write channel, the oldest message first. -/
  out : List (XID × Message XID)
  /-- The answers to the health check. -/
  health : List ℕ

namespace World

variable {XID : Type}

/-- `writeTimeout(ch, msg)`. -/
def writeTimeout (ch : XID) (msg : Message XID) (w : World XID) : World XID :=
  { w with out := w.out ++ [(ch, msg)] }

def send (msgs : List (XID × Message XID)) (w : World XID) : World XID :=
  { w with out := w.out ++ msgs }

/-- Make `n` draws. -/
def draw (n : ℕ) (w : World XID) : World XID := { w with tick := w.tick + n }

def count (d : Metrics) (w : World XID) : World XID := { w with metrics := w.metrics + d }

def credentials (env : Env XID) (id : String) (addr : IP) (w : World XID) :
    String × String × World XID :=
  let (username, password, server, tick) := w.turnServer.credentials env w.tick id addr
  (username, password, { w with turnServer := server, tick := tick })

def disallow (username : String) (w : World XID) : World XID :=
  { w with turnServer := w.turnServer.disallow username }

end World

end Screego
