import Screego.Lib.JsonCompact
import Screego.Ws.ReadTyped
import Screego.Ws.ReadWrite

/-!
# Relayed messages as frames

`ToTypedOutgoing` and `WriteJSON`, down to the bytes.  The encoder checks and
compacts the relayed value when it makes the payload, and the payload when it
makes the frame.
-/

namespace Screego

open JsonText Unicode

variable {XID : Type}

namespace Outgoing

/-- What the encoder makes of a raw value, with the document that it is a text of. -/
def encodeRaw (value : RawMessage) : Except String (Value × List UInt8) :=
  if value = [] then .ok (.null, write true .null)
  else
    match parse maxNestingDepth value with
    | none => .error "malformed raw message"
    | some v => .ok (v, compact false value)

def encodedString (name s : String) : Entry :=
  ⟨textUnits name, writeString true (textUnits s), .string (textUnits s)⟩

/-- A member with the result of `MarshalJSON`. -/
def encodedID (x : Xid XID) (name : String) (id : XID) : Entry :=
  match x.marshalJSON id with
  | none => ⟨textUnits name, write true .null, .null⟩
  | some text => encodedString name text

def P2PMessage.encode (x : Xid XID) (m : P2PMessage XID) : Except String (List UInt8) := do
  let (v, raw) ← encodeRaw m.value
  return writeObject true [encodedID x "sid" m.sid, rawMember "value" raw v]

/-- A frame ends with a newline. -/
def P2PMessage.frame (x : Xid XID) (type : String) (m : P2PMessage XID) :
    Except String (List UInt8) := do
  let payload ← m.encode x
  let (v, raw) ← encodeRaw payload
  return writeObject true [encodedString "type" type, rawMember "payload" raw v] ++ [byte '\n']

/-- The relayed message among the messages to a client. -/
def Message.relayed : Message XID → Option (P2PMessage XID)
  | .hostICE m => some m
  | .clientICE m => some m
  | .clientAnswer m => some m
  | .hostOffer m => some m
  | _ => none

end Outgoing

end Screego
