import Screego.Lib.JsonDecode
import Screego.Ws.Events

/-!
# Frames as events

`ReadTypedIncoming`, from the bytes of a frame.  The outer object gives the type
of the event and the bytes of its payload, and the constructor registered for
the type is filled from those.
-/

namespace Screego

open Outgoing JsonText Unicode

variable {XID : Type}

/-- `maxNestingDepth` of `encoding/json`. -/
def maxNestingDepth : ℕ := 10000

/-- What the packages `xid` and `encoding/json` contribute. -/
structure Decoder (x : Xid XID) where
  /-- `xid.ID.UnmarshalJSON`. -/
  unmarshalID : List UInt8 → Option XID
  unmarshalID_string : ∀ id, unmarshalID (writeString false (textUnits (x.toString id))) = some id
  /-- The error for a frame that is not read. -/
  decodeError : List UInt8 → String
  /-- The error for a payload that does not fit the type. -/
  unmarshalError : String → RawMessage → String

/-- A decoder that goes by the string itself. -/
def Decoder.sample (x : Xid XID) : Decoder x where
  unmarshalID raw :=
    match readDocument 0 raw with
    | some (.string us, _) => x.fromString (text us)
    | _ => none
  unmarshalID_string id := by
    have hread := readDocument_append (d := 0) spaces_nil
      (text_writeString false (textUnits_lt (x.toString id))) ends_nil
    rw [List.nil_append, List.append_nil] at hread
    rw [hread]
    dsimp only
    rw [text_textUnits, x.fromString_toString]
  decodeError _ := "invalid character"
  unmarshalError _ _ := "invalid value"

/-! ## The fields of the types -/

def stringField {σ : Type} (name : String) (get : σ → String) (put : σ → String → σ) :
    RecordField σ :=
  ⟨name, fun e m ↦ (decodeString (get e) m.value).map (put e)⟩

def boolField {σ : Type} (name : String) (get : σ → Bool) (put : σ → Bool → σ) : RecordField σ :=
  ⟨name, fun e m ↦ (decodeBool (get e) m.value).map (put e)⟩

/-- A field of the type `json.RawMessage`, which takes the bytes as they are. -/
def rawField {σ : Type} (name : String) (put : σ → RawMessage → σ) : RecordField σ :=
  ⟨name, fun e m ↦ some (put e m.raw)⟩

/-- `Typed`, before the payload is looked at. -/
structure RawTyped where
  type : String
  payload : RawMessage

def RawTyped.fields : List (RecordField RawTyped) :=
  [stringField "type" (·.type) fun t s ↦ { t with type := s },
    rawField "payload" fun t raw ↦ { t with payload := raw }]

def Create.fields : List (RecordField Create) :=
  [stringField "id" (·.id) fun e s ↦ { e with id := s },
    stringField "mode" (·.mode) fun e s ↦ { e with mode := s },
    boolField "closeOnOwnerLeave" (·.closeOnOwnerLeave) fun e b ↦ { e with closeOnOwnerLeave := b },
    stringField "username" (·.userName) fun e s ↦ { e with userName := s },
    boolField "joinIfExist" (·.joinIfExist) fun e b ↦ { e with joinIfExist := b }]

def Join.fields : List (RecordField Join) :=
  [stringField "id" (·.id) fun e s ↦ { e with id := s },
    stringField "username" (·.userName) fun e s ↦ { e with userName := s }]

def Name.fields : List (RecordField Name) :=
  [stringField "username" (·.userName) fun e s ↦ { e with userName := s }]

def OwnerAction.fields : List (RecordField OwnerAction) :=
  [stringField "action" (·.action) fun e s ↦ { e with action := s },
    stringField "targetUserId" (·.targetUserID) fun e s ↦ { e with targetUserID := s }]

section

variable {x : Xid XID} (dec : Decoder x)

/-- The four relayed types have the fields of `P2PMessage`. -/
def Outgoing.P2PMessage.fields : List (RecordField (P2PMessage XID)) :=
  [⟨"sid", fun e m ↦ (dec.unmarshalID m.raw).map fun id ↦ { e with sid := id }⟩,
    rawField "value" fun e raw ↦ { e with value := raw }]

/-! ## Dispatch -/

/-- `json.Unmarshal` into a record with the given fields. -/
def unmarshalInto {σ : Type} (fields : List (RecordField σ)) (zero : σ) (payload : RawMessage) :
    Option σ :=
  unmarshal (setField fields) zero maxNestingDepth payload

/-- An event without fields. -/
def unmarshalEmpty (e : Event XID) (payload : RawMessage) : Option (Event XID) :=
  (unmarshalInto [] () payload).map fun _ ↦ e

def unmarshalP2P (f : P2PMessage XID → Event XID) (payload : RawMessage) : Option (Event XID) :=
  (unmarshalInto (P2PMessage.fields dec) ⟨x.nilID, []⟩ payload).map f

/-- The constructors registered, each with what `json.Unmarshal` makes of it. -/
def provider : List (String × (RawMessage → Option (Event XID))) :=
  [("create", fun payload ↦
      (unmarshalInto Create.fields ⟨"", "", false, "", false⟩ payload).map .create),
    ("join", fun payload ↦ (unmarshalInto Join.fields ⟨"", ""⟩ payload).map .join),
    ("name", fun payload ↦ (unmarshalInto Name.fields ⟨""⟩ payload).map .name),
    ("share", unmarshalEmpty .startShare),
    ("stopshare", unmarshalEmpty .stopShare),
    ("owneraction", fun payload ↦
      (unmarshalInto OwnerAction.fields ⟨"", ""⟩ payload).map .ownerAction),
    ("exit", unmarshalEmpty .exit),
    ("dissolve", unmarshalEmpty .dissolve),
    ("hostoffer", unmarshalP2P dec .hostOffer),
    ("hostice", unmarshalP2P dec .hostICE),
    ("clientanswer", unmarshalP2P dec .clientAnswer),
    ("clientice", unmarshalP2P dec .clientICE)]

/-- What follows the first document of the frame is not looked at. -/
def readTypedIncoming (frame : List UInt8) : Except String (Event XID) :=
  match readRecord (setField RawTyped.fields) ⟨"", []⟩ maxNestingDepth frame with
  | none => .error (dec.decodeError frame ++ " e")
  | some (typed, _) =>
      match (provider dec).lookup typed.type with
      | none => .error ("cannot handle " ++ typed.type)
      | some payload =>
          match payload typed.payload with
          | none => .error ("incoming payload " ++ dec.unmarshalError typed.type typed.payload)
          | some e => .ok e

end

/-! ## What the page sends -/

def stringMember (name s : String) : Entry :=
  ⟨textUnits name, writeString false (textUnits s), .string (textUnits s)⟩

def boolMember (name : String) (b : Bool) : Entry :=
  ⟨textUnits name, write false (.bool b), .bool b⟩

/-- The bytes of a value that is passed on, with the document they are a text of. -/
def rawMember (name : String) (raw : List UInt8) (v : Value) : Entry := ⟨textUnits name, raw, v⟩

variable (x : Xid XID) (v : Value)

/-- A value that is `undefined` is left out. -/
def Outgoing.P2PMessage.members (e : P2PMessage XID) : List Entry :=
  stringMember "sid" (x.toString e.sid) ::
    if e.value = [] then [] else [rawMember "value" e.value v]

/-- The payload of an event, where `v` is the document that is relayed. -/
def Event.members : Event XID → List Entry
  | .create e =>
      [stringMember "id" e.id, stringMember "mode" e.mode,
        boolMember "closeOnOwnerLeave" e.closeOnOwnerLeave, stringMember "username" e.userName,
        boolMember "joinIfExist" e.joinIfExist]
  | .join e => [stringMember "id" e.id, stringMember "username" e.userName]
  | .name e => [stringMember "username" e.userName]
  | .ownerAction e => [stringMember "action" e.action, stringMember "targetUserId" e.targetUserID]
  | .hostOffer e => e.members x v
  | .hostICE e => e.members x v
  | .clientAnswer e => e.members x v
  | .clientICE e => e.members x v
  | _ => []

/-- An object with the type and the payload. -/
def typedMembers (type : String) (members : List Entry) : List Entry :=
  [stringMember "type" type,
    rawMember "payload" (writeObject false members) (.object (members.map Entry.field))]

/-- `JSON.stringify({type, payload})`. -/
def Event.frame (e : Event XID) : List UInt8 :=
  writeObject false (typedMembers (e.registered.getD "") (e.members x v))

end Screego
