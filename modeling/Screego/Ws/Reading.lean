import Screego.Properties.Frames
import Screego.Ws.Client

/-!
# The readers on bytes

`startReading` with what comes in on the connection.  The other goroutines are
those of `processes`.
-/

namespace Screego

variable {XID : Type}

def closeUnsupportedData : ℤ := 1003

/-- What `NextReader` gives the reader. -/
inductive Incoming where
  | text (frame : List UInt8)
  | binary
  | error (err : String)

/-- What the reader does with it. -/
def startReading {x : Xid XID} (dec : Decoder x) (k : XID) : Incoming → Move XID
  | .error err => .readError k closeNormalClosure ("read error: " ++ err)
  | .binary => .readError k closeUnsupportedData "unsupported binary message type"
  | .text frame =>
      match h : readTypedIncoming dec frame with
      | .ok e => .read k ⟨e, (of_readTypedIncoming h).1⟩
      | .error err => .readError k closeUnsupportedData ("malformed message: " ++ err)

/-- The move is one of a reader. -/
def Move.Reads : Move XID → Prop
  | .read _ _ => True
  | .readError _ _ _ => True
  | _ => False

/-- A reader gets something, or another goroutine moves. -/
inductive Traffic (XID : Type) where
  | incoming (k : XID) (i : Incoming)
  | move (m : Move XID) (h : ¬ m.Reads)

def Traffic.toMove {x : Xid XID} (dec : Decoder x) : Traffic XID → Move XID
  | incoming k i => startReading dec k i
  | move m _ => m

/-- The server with its connections, on bytes. -/
def wire [DecidableEq XID] (env : Env XID) (server : Turn.Server) (dec : Decoder env.xid) :
    Machine (Processes XID) (Traffic XID) :=
  .ofNext (processes env server).init fun p t ↦ p.next env (t.toMove dec)

end Screego
