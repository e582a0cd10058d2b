import Screego.Ui.UseRoom

/-!
# Session ids on the wire

`HostSession`, `ClientSession` and the relayed messages carry a session id in a
field of the type `xid.ID`, and the encoder writes it as a string.  `EndShare`
is a new type on top of `xid.ID`, loses the method that says so, and goes out as
an array of numbers.  The page finds nothing under that key.
-/

namespace Screego

open Outgoing

variable {XID : Type} {env : Env XID} {enc : Encoder XID} {s : XID}

/-- `m` starts the session `s` at one of its ends. -/
inductive Starts (s : XID) : Message XID → Prop
  | host (peer : XID) (iceServers : List ICEServer) : Starts s (.hostSession s peer iceServers)
  | client (peer : XID) (iceServers : List ICEServer) : Starts s (.clientSession s peer iceServers)

/-- `m` relays something for the session `s`. -/
inductive Relays (s : XID) : Message XID → Prop
  | hostICE (value : RawMessage) : Relays s (.hostICE ⟨s, value⟩)
  | clientICE (value : RawMessage) : Relays s (.clientICE ⟨s, value⟩)
  | clientAnswer (value : RawMessage) : Relays s (.clientAnswer ⟨s, value⟩)
  | hostOffer (value : RawMessage) : Relays s (.hostOffer ⟨s, value⟩)

/-- The payload of `EndShare` is the string by which the other messages name the session. -/
def SameString (env : Env XID) (enc : Encoder XID) (s : XID) : Prop :=
  ∃ name e, toTypedOutgoing env enc (.endShare s) = .ok e ∧ e.payload = .string name ∧
    (∀ m t, Starts s m → toTypedOutgoing env enc m = .ok t →
      t.payload.field "id" = some (.string name)) ∧
    ∀ m t, Relays s m → toTypedOutgoing env enc m = .ok t →
      t.payload.field "sid" = some (.string name)

/-- The page has a connection or a stream for the session with the given id. -/
def Calls.Holds (calls : Calls) (id : Option Json) : Prop :=
  propertyKey id ∈ calls.host ∨ propertyKey id ∈ calls.client ∨ id ∈ calls.clientStreams

/-- A page that started the session gives it up when it is told that it is over. -/
def SameKey (env : Env XID) (enc : Encoder XID) (s : XID) : Prop :=
  ∀ m t e, Starts s m → toTypedOutgoing env enc m = .ok t →
    toTypedOutgoing env enc (.endShare s) = .ok e →
    ∀ calls : Calls, ¬ ((calls.onMessage t).onMessage e).Holds (t.payload.field "id")

theorem toTypedOutgoing_starts {m : Message XID} {t : Typed} (h : Starts s m)
    (ht : toTypedOutgoing env enc m = .ok t) : t.payload.field "id" = some (marshalID env s) := by
  cases h with
  | host peer iceServers =>
      obtain rfl := Except.ok.inj ht
      rfl
  | client peer iceServers =>
      obtain rfl := Except.ok.inj ht
      rfl

theorem toTypedOutgoing_relays {m : Message XID} {t : Typed} (h : Relays s m)
    (ht : toTypedOutgoing env enc m = .ok t) : t.payload.field "sid" = some (marshalID env s) := by
  have hrelay : ∀ (type : String) (value : RawMessage),
      (do
        let payload ← P2PMessage.marshal env enc ⟨s, value⟩
        return { type := type, payload := payload }) = Except.ok t →
      t.payload.field "sid" = some (marshalID env s) := by
    intro type value h
    cases hvalue : marshalRaw enc value with
    | error err =>
        rw [P2PMessage.marshal, hvalue] at h
        cases h
    | ok j =>
        rw [P2PMessage.marshal, hvalue] at h
        obtain rfl := Except.ok.inj h
        rfl
  cases h with
  | hostICE value => exact hrelay _ value ht
  | clientICE value => exact hrelay _ value ht
  | clientAnswer value => exact hrelay _ value ht
  | hostOffer value => exact hrelay _ value ht

theorem toTypedOutgoing_endShare (env : Env XID) (enc : Encoder XID) (s : XID) :
    toTypedOutgoing env enc (.endShare s) = .ok ⟨"endshare", marshalBytes (enc.bytes s)⟩ := rfl

theorem not_sameString (env : Env XID) (enc : Encoder XID) (s : XID) :
    ¬ SameString env enc s := by
  rintro ⟨name, e, he, hpayload, -, -⟩
  rw [toTypedOutgoing_endShare] at he
  obtain rfl := Except.ok.inj he
  cases hpayload

/-- Only the nil id is not written as its string. -/
theorem marshalID_cases (env : Env XID) (s : XID) :
    s = env.xid.nilID ∧ marshalID env s = .null ∨
      s ≠ env.xid.nilID ∧ marshalID env s = .string (env.xid.toString s) := by
  by_cases hnil : s = env.xid.nilID
  · refine Or.inl ⟨hnil, ?_⟩
    rw [marshalID, hnil, env.xid.marshalJSON_nilID]
  · refine Or.inr ⟨hnil, ?_⟩
    rw [marshalID, env.xid.marshalJSON_of_ne s hnil]

/-- Twelve numbers and eleven commas are longer than an id, and than `null`. -/
theorem text_marshalBytes_ne (hs : (env.xid.toString s).length = 20) :
    (marshalBytes (enc.bytes s)).text ≠ (marshalID env s).text := by
  intro h
  have hlength := Json.length_text_array ((enc.bytes s).toList.map UInt8.toNat)
  rw [List.length_map, Vector.length_toList] at hlength
  rw [marshalBytes] at h
  rw [h] at hlength
  rcases marshalID_cases env s with ⟨-, hnull⟩ | ⟨-, hstring⟩
  · have hfour : ("null").length = 4 := rfl
    rw [hnull, Json.text, hfour] at hlength
    omega
  · rw [hstring, Json.text, hs] at hlength
    omega

theorem Calls.holds_endShare {calls : Calls} {items : List Json} {id : Json}
    (hne : (Json.array items).text ≠ id.text) (h : calls.Holds (some id)) :
    (calls.onMessage ⟨"endshare", .array items⟩).Holds (some id) := by
  have hkey : propertyKey (some id) ≠ (Json.array items).text := hne.symm
  have hend : calls.onMessage ⟨"endshare", .array items⟩ =
      ⟨calls.host.erase (Json.array items).text, calls.client.erase (Json.array items).text,
        calls.clientStreams.filter fun id ↦ differs id (.array items)⟩ := rfl
  rw [hend]
  rcases h with h | h | h
  · exact Or.inl (Finset.mem_erase.mpr ⟨hkey, h⟩)
  · exact Or.inr (Or.inl (Finset.mem_erase.mpr ⟨hkey, h⟩))
  · exact Or.inr (Or.inr (List.mem_filter.mpr ⟨h, by simp [differs]⟩))

theorem onMessage_starts {m : Message XID} {t : Typed} (h : Starts s m)
    (ht : toTypedOutgoing env enc m = .ok t) (calls : Calls) :
    (calls.onMessage t).Holds (t.payload.field "id") := by
  cases h with
  | host peer iceServers =>
      obtain rfl := Except.ok.inj ht
      exact Or.inl (Finset.mem_insert_self _ _)
  | client peer iceServers =>
      obtain rfl := Except.ok.inj ht
      exact Or.inr (Or.inl (Finset.mem_insert_self _ _))

/-- The page keeps what it has for a session that is over. -/
theorem endShare_unheard (hs : (env.xid.toString s).length = 20) {m : Message XID} {t e : Typed}
    (h : Starts s m) (ht : toTypedOutgoing env enc m = .ok t)
    (he : toTypedOutgoing env enc (.endShare s) = .ok e) (calls : Calls) :
    ((calls.onMessage t).onMessage e).Holds (t.payload.field "id") := by
  obtain rfl := Except.ok.inj he
  have hheld := onMessage_starts h ht calls
  rw [toTypedOutgoing_starts h ht] at hheld ⊢
  exact Calls.holds_endShare (text_marshalBytes_ne hs) hheld

theorem not_sameKey (hs : (env.xid.toString s).length = 20) : ¬ SameKey env enc s := fun h ↦
  h _ _ _ (.host s []) rfl (toTypedOutgoing_endShare env enc s) ⟨∅, ∅, []⟩
    (endShare_unheard hs (.host s []) rfl (toTypedOutgoing_endShare env enc s) _)

/-- All messages but `EndShare` name the session alike, and `EndShare` reaches nothing. -/
structure Misnamed (env : Env XID) (enc : Encoder XID) (s : XID) : Prop where
  named : s = env.xid.nilID ∧ marshalID env s = .null ∨
    s ≠ env.xid.nilID ∧ marshalID env s = .string (env.xid.toString s)
  starts : ∀ m t, Starts s m → toTypedOutgoing env enc m = .ok t →
    t.payload.field "id" = some (marshalID env s)
  relays : ∀ m t, Relays s m → toTypedOutgoing env enc m = .ok t →
    t.payload.field "sid" = some (marshalID env s)
  string : ¬ SameString env enc s
  key : ¬ SameKey env enc s
  unheard : ∀ m t e, Starts s m → toTypedOutgoing env enc m = .ok t →
    toTypedOutgoing env enc (.endShare s) = .ok e →
    ∀ calls : Calls, ((calls.onMessage t).onMessage e).Holds (t.payload.field "id")

/-- An id is a string of twenty characters. -/
theorem endShare_misnamed (hs : (env.xid.toString s).length = 20) : Misnamed env enc s where
  named := marshalID_cases env s
  starts := fun _ _ h ht ↦ toTypedOutgoing_starts h ht
  relays := fun _ _ h ht ↦ toTypedOutgoing_relays h ht
  string := not_sameString env enc s
  key := not_sameKey hs
  unheard := fun _ _ _ h ht he ↦ endShare_unheard hs h ht he

/-- The last byte of an id is its number. -/
def Encoder.sample : Encoder ℕ where
  bytes n := (Vector.replicate 12 0).set 11 n.toUInt8
  raw _ := none

theorem endShare_misnamed_seven :
    Misnamed (Env.sample authModeNone) Encoder.sample 7 :=
  endShare_misnamed (by decide +kernel)

theorem session_ids_differ : ¬ ∀ s, SameString (Env.sample authModeNone) Encoder.sample s ∧
    SameKey (Env.sample authModeNone) Encoder.sample s := fun h ↦
  not_sameString _ _ 7 (h 7).1

end Screego
