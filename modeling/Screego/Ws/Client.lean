import Screego.Ws.Start

/-!
# The goroutines of a connection

Each connection has a reader and a writer next to the main loop.  The main loop
takes one message at a time from them, and hands what its handler writes to the
one-slot channels of the clients, one message after the other; a client that
does not make room in time loses the message.
-/

namespace Screego

open Outgoing

variable {XID : Type}

/-- What a text frame decodes to. -/
abbrev Frame (XID : Type) := { e : Event XID // e.registered.isSome }

/-- `startReading`: waiting for a frame, offering one to the main loop, or returned. -/
inductive Reader (XID : Type) where
  | reading
  | posting (incoming : Frame XID)
  | returned
  deriving DecidableEq

/-- `startWriteHandler`. -/
inductive Writer where
  | running
  | returned
  deriving DecidableEq

structure Client (XID : Type) where
  /-- The websocket is closed, by either side. -/
  closed : Bool := false
  once : Bool := false
  reader : Reader XID := .reading
  writer : Writer := .running
  /-- What the goroutine started by `CloseOnError` offers to the main loop. -/
  posted : Option Disconnected := none
  /-- The channel `Write`. -/
  write : Option (Message XID) := none

namespace Client

def closeOnError (code : ℤ) (reason : String) (c : Client XID) : Client XID :=
  if c.once then c
  else { c with once := true, posted := some ⟨code, reason⟩, closed := true }

def closeOnDone (c : Client XID) : Client XID :=
  if c.once then c else { c with once := true, closed := true }

/-- The reader gets a frame. -/
def read (incoming : Frame XID) (c : Client XID) : Option (Client XID) :=
  match c.reader with
  | .reading => some { c with reader := .posting incoming }
  | _ => none

/-- The reader gets an error, a binary frame or a malformed one, and returns.  The deferred
`CloseOnError` then finds `once` done. -/
def readError (code : ℤ) (reason : String) (c : Client XID) : Option (Client XID) :=
  match c.reader with
  | .reading => some { c.closeOnError code reason with reader := .returned }
  | _ => none

/-- The writer takes a message from the channel.  `err` is what comes of encoding and writing it;
after an error the loop goes on. -/
def writeMessage (err : Option String) (c : Client XID) : Option (Client XID) :=
  match c.writer, c.write with
  | .running, some (.closeWriter _ _) =>
      some { c.closeOnDone with closed := true, writer := .returned, write := none }
  | .running, some _ =>
      let c := { c with write := none }
      match err with
      | none => some c
      | some reason => some (c.closeOnError closeNormalClosure reason)
  | _, _ => none

/-- The ticker of the writer fires. -/
def ping (err : Option String) (c : Client XID) : Option (Client XID) :=
  match c.writer, err with
  | .running, none => some c
  | .running, some reason => some (c.closeOnError closeNormalClosure reason)
  | .returned, _ => none

/-- The channel has room for the message. -/
def accept (msg : Message XID) (c : Client XID) : Option (Client XID) :=
  match c.write with
  | none => some { c with write := some msg }
  | some _ => none

end Client

/-- The main loop with all connections. -/
structure Processes (XID : Type) where
  system : System XID
  client : XID → Client XID
  /-- What the main loop still has to hand over for the message it is at. -/
  handing : List (XID × Message XID)

inductive Move (XID : Type) where
  | dial (authenticated : Bool) (authenticatedUser : String) (addr : IP)
  | connect (info : ClientInfo XID)
  | health
  | read (k : XID) (incoming : Frame XID)
  | readError (k : XID) (code : ℤ) (reason : String)
  /-- The main loop takes the frame that the reader offers. -/
  | takeFrame (info : ClientInfo XID)
  /-- The main loop takes the `Disconnected` of `CloseOnError`. -/
  | takeError (info : ClientInfo XID)
  /-- The next message goes into its channel. -/
  | handOver
  /-- The next message is dropped by `writeTimeout`. -/
  | timeOut
  | write (k : XID) (err : Option String)
  | ping (k : XID) (err : Option String)
  /-- The connection fails. -/
  | lose (k : XID)

namespace Processes

variable [DecidableEq XID] (env : Env XID)

/-- One iteration of the main loop.  It ends when everything is handed over. -/
def main (a : Action XID) (p : Processes XID) : Option (Processes XID) :=
  if p.handing = [] ∧ p.system.Enabled a then
    (p.system.next env a).map fun t ↦
      { p with
        system := t
        handing := t.rooms.world.out.drop p.system.rooms.world.out.length }
  else none

/-- A step of the goroutines of the client `k`. -/
def update (k : XID) (f : Client XID → Option (Client XID)) (p : Processes XID) :
    Option (Processes XID) :=
  (f (p.client k)).map fun c ↦ { p with client := Function.update p.client k c }

/-- The same once the goroutines are started. -/
def started (k : XID) (f : Client XID → Option (Client XID)) (p : Processes XID) :
    Option (Processes XID) :=
  if k ∈ p.system.clients.map ClientInfo.id then p.update k f else none

def next (p : Processes XID) : Move XID → Option (Processes XID)
  | .dial authenticated authenticatedUser addr =>
      (p.system.next env (.dial authenticated authenticatedUser addr)).map fun t ↦
        { p with system := t }
  | .connect info => p.main env (.connect info)
  | .health => p.main env .health
  | .read k incoming => p.started k (Client.read incoming)
  | .readError k code reason => p.started k (Client.readError code reason)
  | .takeFrame info =>
      match (p.client info.id).reader with
      | .posting incoming => do
          let p ← p.main env (.receive info incoming.val)
          p.update info.id fun c ↦ some { c with reader := .reading }
      | _ => none
  | .takeError info =>
      match (p.client info.id).posted with
      | some disconnected => do
          let p ← p.main env (.receive info (.disconnected disconnected))
          p.update info.id fun c ↦ some { c with posted := none }
      | none => none
  | .handOver =>
      match p.handing with
      | [] => none
      | (k, msg) :: rest => { p with handing := rest }.update k (Client.accept msg)
  | .timeOut =>
      match p.handing with
      | [] => none
      | _ :: rest => some { p with handing := rest }
  | .write k err => p.started k (Client.writeMessage err)
  | .ping k err => p.started k (Client.ping err)
  | .lose k => p.update k fun c ↦ some { c with closed := true }

end Processes

/-- The server with the goroutines of its connections. -/
def processes [DecidableEq XID] (env : Env XID) (server : Turn.Server) :
    Machine (Processes XID) (Move XID) :=
  .ofNext ⟨(machine env server).init, fun _ ↦ {}, []⟩ (Processes.next env)

end Screego
