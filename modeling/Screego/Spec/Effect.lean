import Screego.Spec.Room
import Screego.Ws.Start

/-!
# What one message can do

`Effect env c s e s'` lists the ways in which the main loop can answer the
message `e` of the client `c`: the room maps as values, the connected map, and
the change of the world.  The order of the `range` statements is gone; what is
left of it is the choice of the next owner and the order of some messages.
-/

namespace Screego

open Outgoing World

variable {XID : Type} [DecidableEq XID]

/-! ## Operations inside a room -/

/-- The changes that leave the membership of a room alone. -/
inductive RoomOp (XID : Type) where
  | rename (t : XID) (name : String)
  | stopStream (t : XID)
  | permitAll (owner : XID)
  | forbidAll (owner : XID)
  | toggle (t : XID)

namespace RoomOp

def update : RoomOp XID → XID → User XID → User XID
  | rename t name, k, u => if k = t then { u with name := name } else u
  | stopStream t, k, u => if k = t then { u with streaming := false } else u
  | permitAll o, k, u => if k ≠ o then { u with canShare := true } else u
  | forbidAll o, k, u => if k ≠ o then { u with canShare := false, streaming := false } else u
  | toggle t, k, u => if k = t then { u with canShare := !u.canShare, streaming := false } else u

def Ends : RoomOp XID → RoomSession XID → Prop
  | rename _ _, _ => False
  | stopStream t, s => s.host = t
  | permitAll _, _ => False
  | forbidAll o, s => s.host ≠ o
  | toggle t, s => s.host = t

instance (op : RoomOp XID) : DecidablePred op.Ends := by
  intro s
  cases op <;> unfold Ends <;> infer_instance

def apply (op : RoomOp XID) (room : Room XID) : Room XID :=
  (room.mapUsers op.update).endSessions op.Ends

end RoomOp

namespace Room

def OwnedBy (c : XID) (room : Room XID) : Prop := ∃ u, room.users.lookup c = some u ∧ u.owner

/-- The sessions `os` were opened in the room, one for each link. -/
structure Opened (env : Env XID) (room : Room XID) (w : World XID)
    (links : RoomSession XID → Prop) (os : List (OpenedSession XID)) : Prop where
  nodup : (os.map OpenedSession.session).Nodup
  mem_iff : ∀ s, s ∈ os.map OpenedSession.session ↔ links s
  nodup_ids : (os.map OpenedSession.id).Nodup
  names : w.turnServer.IsInternal → ∀ o ∈ os, o.OwnNames env room.mode

end Room

/-- Tell the other end of a session of `c` that it is over. -/
def tellPeer (c : XID) : Notices XID := fun id s ↦
  [(if s.client = c then s.host else s.client, .endShare id)]

/-- The action names another member. -/
def OwnerAction.Targets (env : Env XID) (a : OwnerAction) (o t : XID) : Prop :=
  a.targetUserID ≠ "" ∧ env.xid.fromString a.targetUserID = some t ∧ t ≠ o

/-- Which message asks for which operation. -/
inductive RoomOp.IssuedBy (env : Env XID) (c : XID) (room : Room XID) :
    Event XID → RoomOp XID → Prop
  | name (e : Name) : IssuedBy env c room (.name e) (.rename c e.userName)
  | stopShare : IssuedBy env c room .stopShare (.stopStream c)
  | ownerStop {a : OwnerAction} {t : XID} (ha : a.action = "stop_share")
      (howner : room.OwnedBy c) (ht : a.Targets env c t) :
      IssuedBy env c room (.ownerAction a) (.stopStream t)
  | ownerEnable {a : OwnerAction} (ha : a.action = "enable_all") (howner : room.OwnedBy c) :
      IssuedBy env c room (.ownerAction a) (.permitAll c)
  | ownerDisable {a : OwnerAction} (ha : a.action = "disable_all") (howner : room.OwnedBy c) :
      IssuedBy env c room (.ownerAction a) (.forbidAll c)
  | ownerToggle {a : OwnerAction} {t : XID} (ha : a.action = "toggle_share_permission")
      (howner : room.OwnedBy c) (ht : a.Targets env c t) :
      IssuedBy env c room (.ownerAction a) (.toggle t)

/-- Only `stopshare` says good-bye. -/
def Event.notices (c : XID) : Event XID → Notices XID
  | .stopShare => tellPeer c
  | _ => fun _ _ ↦ []

/-- A session that ends is announced by `EndShare`, if at all, and to the other end. -/
theorem Event.mem_notices (e : Event XID) (c id : XID) (l : RoomSession XID) (k : XID)
    (m : Message XID) (h : (k, m) ∈ e.notices c id l) : (k, m) ∈ tellPeer c id l := by
  cases e <;> first | exact h | cases h

theorem mem_tellPeer {c id k : XID} {l : RoomSession XID} {m : Message XID}
    (h : (k, m) ∈ tellPeer c id l) : m = .endShare id ∧ Touches k l := by
  obtain ⟨rfl, rfl⟩ := Prod.mk.inj (List.mem_singleton.mp h)
  refine ⟨rfl, ?_⟩
  split
  · exact Or.inl rfl
  · exact Or.inr rfl

/-! ## Messages -/

/-- The room named by a `create` or a `join`. -/
def Event.named : Event XID → Option String
  | .create e => some e.id
  | .join e => some e.id
  | _ => none

structure Relay (XID : Type) where
  sid : XID
  sender : RoomSession XID → XID
  recipient : RoomSession XID → XID
  msg : Message XID

/-- What a relay event asks for. -/
def Event.relayed : Event XID → Option (Relay XID)
  | .hostOffer e => some ⟨e.sid, RoomSession.host, RoomSession.client, .hostOffer e⟩
  | .hostICE e => some ⟨e.sid, RoomSession.host, RoomSession.client, .hostICE e⟩
  | .clientAnswer e => some ⟨e.sid, RoomSession.client, RoomSession.host, .clientAnswer e⟩
  | .clientICE e => some ⟨e.sid, RoomSession.client, RoomSession.host, .clientICE e⟩
  | _ => none

/-- The room that a `create` makes. -/
def Create.room (e : Create) (c : ClientInfo XID) (name : String) (createdAt : ℤ) : Room XID :=
  { id := e.id, closeOnOwnerLeave := e.closeOnOwnerLeave, mode := e.mode,
    sessions := ∅, bannedIPs := ∅, createdAt := createdAt,
    users := (∅ : GoMap XID (User XID)).insert c.id (c.newUser name true) }

/-- `c` is in the room that `CurrentRoom` finds under `r`. -/
structure Rooms.In (s : Rooms XID) (c : XID) (r : String) (room : Room XID) : Prop where
  connected : s.connected.lookup c = some r
  ne_empty : r ≠ ""
  lookup : s.rooms.lookup r = some room

/-! ## Leaving -/

/-- What is left of a room when `c` goes and others stay. -/
inductive Room.LeftBy (c : XID) (room : Room XID) : Room XID → Prop
  | member {u : User XID} {k : XID} (huser : room.users.lookup c = some u) (howner : ¬ u.owner)
      (hother : k ∈ room.users.keys) (hne : k ≠ c) : LeftBy c room (room.remove c)
  | owner {next : XID} (howner : room.OwnedBy c) (hnext : next ∈ room.users.keys)
      (hne : next ≠ c) : LeftBy c room ((room.remove c).promote next)

theorem Room.LeftBy.sessions {c : XID} {room room' : Room XID} (h : room.LeftBy c room') :
    room'.sessions = (room.remove c).sessions := by
  cases h with
  | member _ _ _ _ => rfl
  | owner _ _ _ => rfl

theorem Room.LeftBy.mode {c : XID} {room room' : Room XID} (h : room.LeftBy c room') :
    room'.mode = room.mode := by
  cases h with
  | member _ _ _ _ => rfl
  | owner _ _ _ => rfl

theorem Room.LeftBy.keys {c : XID} {room room' : Room XID} (h : room.LeftBy c room') :
    room'.users.keys = room.users.keys.erase c := by
  cases h with
  | member _ _ _ _ => exact GoMap.keys_erase room.users c
  | owner _ _ _ => exact (GoMap.keys_mapVals _ _).trans (GoMap.keys_erase room.users c)

/-- What follows when `c` leaves the room under `r`. -/
inductive Left (env : Env XID) (c : XID) (s : Rooms XID) (r : String) (room : Room XID) :
    Rooms XID → Prop
  | stay {room' : Room XID} {code : ℤ} {reason : String} {ended told : List (XID × Message XID)}
      {w : World XID} (hleft : room.LeftBy c room')
      (hended : room.Ended (Touches c) (tellPeer c) ended) (htold : room'.Announces told)
      (hworld : Change env room.mode (room.sessionsWhere (Touches c)) ∅
        { usersLeft := 1, sessionClosed := (room.sessionsWhere (Touches c)).card }
        ((c, .closeWriter code reason) :: (ended ++ told)) s.world w) :
      Left env c s r room ⟨s.rooms.insert r room', s.connected.erase c, w⟩
  | last {code : ℤ} {reason : String} {w : World XID} (honly : room.users.keys = {c})
      (hworld : Change env "" ∅ ∅ { usersLeft := 1, roomsClosed := 1 }
        [(c, .closeWriter code reason)] s.world w) :
      Left env c s r room ⟨s.rooms.erase r, s.connected.erase c, w⟩

theorem Room.Ended.ofKind {c : XID} {p : RoomSession XID → Prop} [DecidablePred p]
    {notices : Notices XID} {room : Room XID} {msgs : List (XID × Message XID)}
    (h : room.Ended p notices msgs)
    (hnotices : ∀ id l k m, (k, m) ∈ notices id l → (k, m) ∈ tellPeer c id l) :
    OfKind .over msgs := by
  intro k m hm
  obtain ⟨id, l, -, -, hm⟩ := h.mem hm
  obtain ⟨rfl, -⟩ := mem_tellPeer (hnotices id l k m hm)
  rfl

omit [DecidableEq XID] in
theorem Event.relayed_msg {e : Event XID} {m : Relay XID} (h : e.relayed = some m) :
    m.msg.kind = .relay := by
  cases e with
  | hostOffer _ => rw [← Option.some.inj h]; rfl
  | hostICE _ => rw [← Option.some.inj h]; rfl
  | clientAnswer _ => rw [← Option.some.inj h]; rfl
  | clientICE _ => rw [← Option.some.inj h]; rfl
  | _ => cases h

/-! ## The relation -/

/-- One answer of the main loop to the message of a connected client. -/
inductive Effect (env : Env XID) (c : ClientInfo XID) (s : Rooms XID) :
    Event XID → Rooms XID → Prop
  | idle {e : Event XID} {w : World XID} (hworld : Change env "" ∅ ∅ 0 [] s.world w) :
      Effect env c s e ⟨s.rooms, s.connected, w⟩
  | connect : Effect env c s .connected ⟨s.rooms, s.connected.insert c.id "", s.world⟩
  | relay {e : Event XID} {m : Relay XID} {r : String} {room : Room XID}
      {session : RoomSession XID} {w : World XID} (hrelay : e.relayed = some m)
      (hin : s.In c.id r room) (hsession : room.sessions.lookup m.sid = some session)
      (hsender : m.sender session = c.id)
      (hworld : Change env "" ∅ ∅ 0 [(m.recipient session, m.msg)] s.world w) :
      Effect env c s e ⟨s.rooms, s.connected, w⟩
  | create {e : Create} {name : String} {createdAt : ℤ} {told : List (XID × Message XID)}
      {w : World XID} (hout : s.connected.lookup c.id = some "")
      (hnew : s.rooms.lookup e.id = none) (hauth : e.authError env c = none)
      (htold : (e.room c name createdAt).Announces told)
      (hworld : Change env "" ∅ ∅ { usersJoined := 1, roomsCreated := 1 } told s.world w) :
      Effect env c s (.create e)
        ⟨s.rooms.insert e.id (e.room c name createdAt), s.connected.insert c.id e.id, w⟩
  | join {e : Event XID} {r name : String} {room : Room XID} {os : List (OpenedSession XID)}
      {told : List (XID × Message XID)} {w : World XID} (hnamed : e.named = some r)
      (hout : s.connected.lookup c.id = some "") (hroom : s.rooms.lookup r = some room)
      (hban : room.bannedIPs.lookup c.addr.toString ≠ some true)
      (hos : room.Opened env s.world (fun l ↦ l.client = c.id ∧ l.host ≠ c.id ∧
        ∃ u, room.users.lookup l.host = some u ∧ u.streaming) os)
      (htold : (room.enter (c.newUser name false)).Announces told)
      (hworld : Change env room.mode ∅ (os.map OpenedSession.id).toFinset
        { usersJoined := 1, sessionCreated := os.length }
        (told ++ os.flatMap OpenedSession.messages) s.world w) :
      Effect env c s e ⟨s.rooms.insert r ((room.enter (c.newUser name false)).openSessions os),
        s.connected.insert c.id r, w⟩
  /-- A `join` of a room that fails after the client was added. -/
  | joinFailed {e : Event XID} {r name reason : String} {code : ℤ} {room : Room XID}
      {told told' : List (XID × Message XID)} {w : World XID} (hnamed : e.named = some r)
      (hout : s.connected.lookup c.id = some "") (hroom : s.rooms.lookup r = some room)
      (hne : r ≠ "") (hban : room.bannedIPs.lookup c.addr.toString ≠ some true)
      (htold : (room.enter (c.newUser name false)).Announces told)
      (htold' : room.Announces told')
      (hworld : Change env "" ∅ ∅ { usersJoined := 1, usersLeft := 1 }
        (told ++ (c.id, .closeWriter code reason) :: told') s.world w) :
      Effect env c s e ⟨s.rooms, s.connected.erase c.id, w⟩
  /-- The same for the room with the empty id, which the client then cannot leave. -/
  | haunt {e : Event XID} {name reason : String} {code : ℤ} {room : Room XID}
      {told : List (XID × Message XID)} {w : World XID} (hnamed : e.named = some "")
      (hout : s.connected.lookup c.id = some "") (hroom : s.rooms.lookup "" = some room)
      (hban : room.bannedIPs.lookup c.addr.toString ≠ some true)
      (htold : (room.enter (c.newUser name false)).Announces told)
      (hworld : Change env "" ∅ ∅ { usersJoined := 1 }
        (told ++ [(c.id, .closeWriter code reason)]) s.world w) :
      Effect env c s e
        ⟨s.rooms.insert "" (room.enter (c.newUser name false)), s.connected.erase c.id, w⟩
  | update {e : Event XID} {op : RoomOp XID} {r : String} {room : Room XID}
      {ended told : List (XID × Message XID)} {w : World XID} (hin : s.In c.id r room)
      (hop : op.IssuedBy env c.id room e)
      (hended : room.Ended op.Ends (e.notices c.id) ended)
      (htold : (op.apply room).Announces told)
      (hworld : Change env room.mode (room.sessionsWhere op.Ends) ∅
        { sessionClosed := (room.sessionsWhere op.Ends).card } (ended ++ told) s.world w) :
      Effect env c s e ⟨s.rooms.insert r (op.apply room), s.connected, w⟩
  | share {r : String} {room : Room XID} {u : User XID} {os : List (OpenedSession XID)}
      {told : List (XID × Message XID)} {w : World XID} (hin : s.In c.id r room)
      (huser : room.users.lookup c.id = some u) (hcan : u.canShare)
      (hfree : ∀ k u, room.users.lookup k = some u → u.streaming → k = c.id)
      (hip : ∃ v4 v6, env.turnIPProvider s.world.tick = .ok (v4, v6))
      (hos : room.Opened env s.world (fun l ↦ l.host = c.id ∧ l.client ≠ c.id ∧
        l.client ∈ room.users.keys) os)
      (htold : (room.startStream c.id).Announces told)
      (hworld : Change env room.mode ∅ (os.map OpenedSession.id).toFinset
        { sessionCreated := os.length } (os.flatMap OpenedSession.messages ++ told) s.world w) :
      Effect env c s .startShare
        ⟨s.rooms.insert r ((room.startStream c.id).openSessions os), s.connected, w⟩
  /-- `kick`, and `ban` with its entry on the ban list. -/
  | remove {a : OwnerAction} {t : XID} {r reason : String} {code : ℤ} {room room' : Room XID}
      {target : User XID} {told : List (XID × Message XID)} {w : World XID}
      (hin : s.In c.id r room) (howner : room.OwnedBy c.id) (ht : a.Targets env c.id t)
      (htarget : room.users.lookup t = some target)
      (hban : a.action = "kick" ∧ room' = room ∨
        a.action = "ban" ∧ room' = room.banAddr target.addr)
      (htold : (room'.remove t).Announces told)
      (hworld : Change env room.mode (room.sessionsWhere (Touches t)) ∅
        { usersLeft := 1, sessionClosed := (room.sessionsWhere (Touches t)).card }
        ((t, .closeWriter code reason) :: told) s.world w) :
      Effect env c s (.ownerAction a) ⟨s.rooms.insert r (room'.remove t), s.connected.erase t, w⟩
  /-- A client leaves on its own account, or because its message failed. -/
  | leave {e : Event XID} {r : String} {room : Room XID} {s' : Rooms XID}
      (hin : s.In c.id r room) (hleft : Left env c.id s r room s') : Effect env c s e s'
  | leaveNowhere {e : Event XID} {code : ℤ} {reason : String} {w : World XID}
      (hout : s.connected.lookup c.id = some "")
      (hworld : Change env "" ∅ ∅ 0 [(c.id, .closeWriter code reason)] s.world w) :
      Effect env c s e ⟨s.rooms, s.connected.erase c.id, w⟩
  | dissolve {r : String} {room : Room XID} {ks : List XID} {w : World XID}
      (hin : s.In c.id r room) (howner : room.OwnedBy c.id) (hnodup : ks.Nodup)
      (hks : ∀ k, k ∈ ks ↔ k ∈ room.users.keys)
      (hworld : Change env room.mode room.sessions.keys ∅
        { usersLeft := room.users.keys.card, sessionClosed := room.sessions.keys.card,
          roomsClosed := 1 }
        (ks.map fun k ↦ (k, .closeWriter closeNormalClosure "Room Dissolved")) s.world w) :
      Effect env c s .dissolve
        ⟨s.rooms.erase r, s.connected.filter fun k _ ↦ k ∉ room.users.keys, w⟩

end Screego
