import Screego.Ws.ReadTyped

/-!
# What comes in over the wire

The main loop takes any event that has a type string.  These are the events that
frames decode to, except that the bytes of a relayed value are a document: the
decoder has checked them before it hands them on.
-/

namespace Screego

open Outgoing JsonText Unicode

variable {XID : Type} {x : Xid XID} {dec : Decoder x} {e : Event XID} {v : Value} {d : ℕ}

/-- The bytes that an event relays. -/
def Event.value : Event XID → RawMessage
  | .hostOffer e => e.value
  | .hostICE e => e.value
  | .clientAnswer e => e.value
  | .clientICE e => e.value
  | _ => []

/-- There are no bytes, or they are a text of a document nested at most `d` deep. -/
def IsRaw (d : ℕ) (raw : RawMessage) : Prop := raw = [] ∨ ∃ v, Text d (.value v) raw

/-! ## Reading what is written -/

theorem written_stringMember (name s : String) : (stringMember name s).Written d :=
  ⟨textUnits_lt name, text_writeString false (textUnits_lt s)⟩

theorem written_boolMember (name : String) (b : Bool) : (boolMember name b).Written d :=
  ⟨textUnits_lt name, text_write (.bool b)⟩

theorem written_rawMember (name : String) {raw : List UInt8} (h : Text d (.value v) raw) :
    (rawMember name raw v).Written d :=
  ⟨textUnits_lt name, h⟩

theorem Outgoing.P2PMessage.written_members {m : P2PMessage XID}
    (h : m.value = [] ∨ Text d (.value v) m.value) : ∀ p ∈ m.members x v, p.Written d := by
  rw [P2PMessage.members]
  split
  · rw [List.forall_mem_singleton]
    exact written_stringMember _ _
  · next hvalue =>
      rw [List.forall_mem_cons, List.forall_mem_singleton]
      exact ⟨written_stringMember _ _, written_rawMember _ (h.resolve_left hvalue)⟩

theorem Event.written_members (h : e.value = [] ∨ Text d (.value v) e.value) :
    ∀ m ∈ e.members x v, m.Written d := by
  cases e with
  | hostOffer e => exact e.written_members h
  | hostICE e => exact e.written_members h
  | clientAnswer e => exact e.written_members h
  | clientICE e => exact e.written_members h
  | _ => simp [Event.members, written_stringMember, written_boolMember]

theorem unmarshalInto_writeObject {σ : Type} {fields : List (RecordField σ)} {zero : σ}
    {ms : List Entry} (h : ∀ m ∈ ms, m.Written d) (hd : d + 1 ≤ maxNestingDepth) :
    unmarshalInto fields zero (writeObject false ms) = ms.foldlM (setField fields) zero :=
  ((object_writeObject false h).mono hd).unmarshal

theorem Outgoing.P2PMessage.foldlM_members (m : P2PMessage XID) :
    (m.members x v).foldlM (setField (P2PMessage.fields dec)) ⟨x.nilID, []⟩ = some m := by
  have hsid (e : P2PMessage XID) : setField (P2PMessage.fields dec) e
      (stringMember "sid" (x.toString m.sid)) = some { e with sid := m.sid } := by
    simp [setField, P2PMessage.fields, stringMember, sameName_textUnits, fold,
      dec.unmarshalID_string]
  have hvalue (e : P2PMessage XID) : setField (P2PMessage.fields dec) e
      (rawMember "value" m.value v) = some { e with value := m.value } := by
    simp [setField, P2PMessage.fields, rawMember, rawField, sameName_textUnits, fold]
  obtain ⟨sid, value⟩ := m
  rw [P2PMessage.members, List.foldlM_cons, hsid]
  split
  · next hnil =>
      obtain rfl : value = [] := hnil
      rfl
  · rw [Option.bind_eq_bind, Option.bind_some, List.foldlM_cons, hvalue]
    rfl

theorem Create.foldlM_members (e : Create) :
    ((Event.create e : Event XID).members x v).foldlM (setField Create.fields)
      ⟨"", "", false, "", false⟩ = some e := by
  simp [Event.members, setField, Create.fields, stringMember, boolMember, stringField, boolField,
    sameName_textUnits, decodeString, decodeBool, text_textUnits, fold]

theorem Join.foldlM_members (e : Join) :
    ((Event.join e : Event XID).members x v).foldlM (setField Join.fields) ⟨"", ""⟩ = some e := by
  simp [Event.members, setField, Join.fields, stringMember, stringField, sameName_textUnits,
    decodeString, text_textUnits, fold]

theorem Name.foldlM_members (e : Name) :
    ((Event.name e : Event XID).members x v).foldlM (setField Name.fields) ⟨""⟩ = some e := by
  simp [Event.members, setField, Name.fields, stringMember, stringField, sameName_textUnits,
    decodeString, text_textUnits, fold]

theorem OwnerAction.foldlM_members (e : OwnerAction) :
    ((Event.ownerAction e : Event XID).members x v).foldlM (setField OwnerAction.fields)
      ⟨"", ""⟩ = some e := by
  simp [Event.members, setField, OwnerAction.fields, stringMember, stringField,
    sameName_textUnits, decodeString, text_textUnits, fold]

theorem RawTyped.foldlM_members (type : String) (ms : List Entry) :
    (typedMembers type ms).foldlM (setField RawTyped.fields) ⟨"", []⟩ =
      some ⟨type, writeObject false ms⟩ := by
  simp [typedMembers, setField, RawTyped.fields, stringMember, rawMember, stringField, rawField,
    sameName_textUnits, decodeString, text_textUnits, fold]

theorem written_typedMembers (type : String) {ms : List Entry} (h : ∀ m ∈ ms, m.Written d) :
    ∀ m ∈ typedMembers type ms, m.Written (d + 1) := by
  rw [typedMembers, List.forall_mem_cons, List.forall_mem_singleton]
  exact ⟨written_stringMember _ _, written_rawMember _ (object_writeObject false h).text⟩

/-- The type of a frame selects the constructor, which is then filled from the payload. -/
theorem readTypedIncoming_typed {type : String} {ms : List Entry}
    {payload : RawMessage → Option (Event XID)} (h : ∀ m ∈ ms, m.Written d)
    (hd : d + 2 ≤ maxNestingDepth) (htype : (provider dec).lookup type = some payload)
    (he : payload (writeObject false ms) = some e) :
    readTypedIncoming dec (writeObject false (typedMembers type ms)) = .ok e := by
  have hobject := (object_writeObject false (written_typedMembers type h)).mono hd
  have hread := hobject.readRecord (setField RawTyped.fields) ⟨"", []⟩ spaces_nil []
  rw [List.nil_append, List.append_nil, RawTyped.foldlM_members] at hread
  rw [readTypedIncoming, hread]
  dsimp only [Option.map_some]
  rw [htype]
  dsimp only
  rw [he]

theorem unmarshalEmpty_writeObject (e : Event XID) :
    unmarshalEmpty e (writeObject false []) = some e := by
  have hread : unmarshalInto [] () (writeObject false []) = some () :=
    unmarshalInto_writeObject (d := 0) (fun m hm ↦ absurd hm List.not_mem_nil) (by decide)
  rw [unmarshalEmpty, hread, Option.map_some]

theorem unmarshalP2P_writeObject (f : P2PMessage XID → Event XID) {m : P2PMessage XID}
    (h : ∀ p ∈ m.members x v, p.Written d) (hd : d + 1 ≤ maxNestingDepth) :
    unmarshalP2P dec f (writeObject false (m.members x v)) = some (f m) := by
  rw [unmarshalP2P, unmarshalInto_writeObject h hd, m.foldlM_members, Option.map_some]

/-- What the page sends for an event is read as the event. -/
theorem readTypedIncoming_frame (hregistered : e.registered.isSome)
    (hvalue : e.value = [] ∨ Text d (.value v) e.value) (hd : d + 2 ≤ maxNestingDepth) :
    readTypedIncoming dec (e.frame x v) = .ok e := by
  have hwritten := Event.written_members (x := x) hvalue
  have hd' : d + 1 ≤ maxNestingDepth := by omega
  cases e with
  | create e =>
      refine readTypedIncoming_typed hwritten hd rfl ?_
      rw [unmarshalInto_writeObject hwritten hd', Create.foldlM_members, Option.map_some]
  | join e =>
      refine readTypedIncoming_typed hwritten hd rfl ?_
      rw [unmarshalInto_writeObject hwritten hd', Join.foldlM_members, Option.map_some]
  | name e =>
      refine readTypedIncoming_typed hwritten hd rfl ?_
      rw [unmarshalInto_writeObject hwritten hd', Name.foldlM_members, Option.map_some]
  | ownerAction e =>
      refine readTypedIncoming_typed hwritten hd rfl ?_
      rw [unmarshalInto_writeObject hwritten hd', OwnerAction.foldlM_members, Option.map_some]
  | hostOffer e =>
      exact readTypedIncoming_typed hwritten hd rfl (unmarshalP2P_writeObject _ hwritten hd')
  | hostICE e =>
      exact readTypedIncoming_typed hwritten hd rfl (unmarshalP2P_writeObject _ hwritten hd')
  | clientAnswer e =>
      exact readTypedIncoming_typed hwritten hd rfl (unmarshalP2P_writeObject _ hwritten hd')
  | clientICE e =>
      exact readTypedIncoming_typed hwritten hd rfl (unmarshalP2P_writeObject _ hwritten hd')
  | startShare => exact readTypedIncoming_typed hwritten hd rfl (unmarshalEmpty_writeObject _)
  | stopShare => exact readTypedIncoming_typed hwritten hd rfl (unmarshalEmpty_writeObject _)
  | exit => exact readTypedIncoming_typed hwritten hd rfl (unmarshalEmpty_writeObject _)
  | dissolve => exact readTypedIncoming_typed hwritten hd rfl (unmarshalEmpty_writeObject _)
  | connected => cases hregistered
  | health => cases hregistered
  | disconnected _ => cases hregistered

/-! ## What is read -/

/-- Every constructor makes events of its type, and takes over a relayed value as it is. -/
def Constructs (d : ℕ) (type : String) (payload : RawMessage → Option (Event XID)) : Prop :=
  ∀ raw e, IsRaw (d + 1) raw → payload raw = some e → e.registered = some type ∧ IsRaw d e.value

section Reading

variable {type : String}

/-- A record that is filled from a text is filled from members that have texts of their own. -/
theorem unmarshalInto_invariant {σ : Type} {P : σ → Prop} {fields : List (RecordField σ)}
    {zero y : σ} {raw : RawMessage} (hd : d + 1 ≤ maxNestingDepth) (hraw : IsRaw (d + 1) raw)
    (hzero : P zero)
    (hset : ∀ m : Entry, Text d (.value m.value) m.raw → ∀ field ∈ fields, ∀ y y', P y →
      field.set y m = some y' → P y') (h : unmarshalInto fields zero raw = some y) : P y := by
  rcases hraw with rfl | ⟨v, htext⟩
  · cases h
  · rcases htext.of_unmarshal hd h with rfl | ⟨ms, hobject, hfold⟩
    · exact hzero
    · refine foldlM_invariant hzero ?_ hfold
      intro m hm y y' hy hstep
      rcases setField_eq_some hstep with rfl | ⟨field, hfield, hstep⟩
      · exact hy
      · exact hset m (hobject.forall_text m hm) field hfield y y' hy hstep

theorem constructs_map {σ : Type} {fields : List (RecordField σ)} {zero : σ} {f : σ → Event XID}
    (hf : ∀ y, (f y).registered = some type ∧ (f y).value = []) :
    Constructs d type fun payload ↦ (unmarshalInto fields zero payload).map f := by
  intro raw e _ h
  obtain ⟨y, -, rfl⟩ := Option.map_eq_some_iff.mp h
  exact ⟨(hf y).1, Or.inl (hf y).2⟩

theorem constructs_empty {e : Event XID} (h : e.registered = some type) (hvalue : e.value = []) :
    Constructs d type (unmarshalEmpty e) :=
  constructs_map fun _ ↦ ⟨h, hvalue⟩

theorem constructs_P2P {f : P2PMessage XID → Event XID} (hd : d + 1 ≤ maxNestingDepth)
    (hf : ∀ m, (f m).registered = some type ∧ (f m).value = m.value) :
    Constructs d type (unmarshalP2P dec f) := by
  intro raw e hraw h
  obtain ⟨m, hm, rfl⟩ := Option.map_eq_some_iff.mp h
  refine ⟨(hf m).1, ?_⟩
  rw [(hf m).2]
  refine unmarshalInto_invariant (P := fun m ↦ IsRaw d m.value) hd hraw (Or.inl rfl) ?_ hm
  intro p hp field hfield y y' hy hset
  rw [P2PMessage.fields, List.mem_pair] at hfield
  rcases hfield with rfl | rfl
  · obtain ⟨id, -, rfl⟩ := Option.map_eq_some_iff.mp hset
    exact hy
  · obtain rfl := Option.some.inj hset
    exact Or.inr ⟨_, hp⟩

theorem provider_constructs (hd : d + 1 ≤ maxNestingDepth) :
    ∀ p ∈ provider dec, Constructs d p.1 p.2 := by
  rw [provider]
  simp only [List.forall_mem_cons]
  exact ⟨constructs_map fun _ ↦ ⟨rfl, rfl⟩, constructs_map fun _ ↦ ⟨rfl, rfl⟩,
    constructs_map fun _ ↦ ⟨rfl, rfl⟩, constructs_empty rfl rfl, constructs_empty rfl rfl,
    constructs_map fun _ ↦ ⟨rfl, rfl⟩, constructs_empty rfl rfl, constructs_empty rfl rfl,
    constructs_P2P hd fun _ ↦ ⟨rfl, rfl⟩, constructs_P2P hd fun _ ↦ ⟨rfl, rfl⟩,
    constructs_P2P hd fun _ ↦ ⟨rfl, rfl⟩, constructs_P2P hd fun _ ↦ ⟨rfl, rfl⟩,
    fun _ h ↦ absurd h List.not_mem_nil⟩

theorem isRaw_payload {typed : RawTyped} {frame rest : List UInt8}
    (h : readRecord (setField RawTyped.fields) ⟨"", []⟩ (d + 1) frame = some (typed, rest)) :
    IsRaw d typed.payload := by
  rcases of_readRecord h with ⟨ms, s, t, -, hobject, -, hfold⟩ | rfl
  · refine foldlM_invariant (P := fun t : RawTyped ↦ IsRaw d t.payload) (Or.inl rfl) ?_ hfold
    intro m hm y y' hy hstep
    rcases setField_eq_some hstep with rfl | ⟨field, hfield, hstep⟩
    · exact hy
    · rw [RawTyped.fields, List.mem_pair] at hfield
      rcases hfield with rfl | rfl
      · obtain ⟨type, -, rfl⟩ := Option.map_eq_some_iff.mp hstep
        exact hy
      · obtain rfl := Option.some.inj hstep
        exact Or.inr ⟨_, hobject.forall_text m hm⟩
  · exact Or.inl rfl

theorem of_readTypedIncoming {frame : List UInt8} (h : readTypedIncoming dec frame = .ok e) :
    e.registered.isSome ∧ IsRaw (maxNestingDepth - 2) e.value := by
  rw [readTypedIncoming] at h
  cases hread : readRecord (setField RawTyped.fields) ⟨"", []⟩ maxNestingDepth frame with
  | none =>
      rw [hread] at h
      cases h
  | some p =>
      obtain ⟨typed, rest⟩ := p
      rw [hread] at h
      dsimp only at h
      cases hlookup : (provider dec).lookup typed.type with
      | none =>
          rw [hlookup] at h
          cases h
      | some payload =>
          rw [hlookup] at h
          dsimp only at h
          cases hpayload : payload typed.payload with
          | none =>
              rw [hpayload] at h
              cases h
          | some e' =>
              rw [hpayload] at h
              obtain rfl := Except.ok.inj h
              obtain ⟨l, l', hprovider, -⟩ := List.lookup_eq_some_iff.mp hlookup
              have hmem : (typed.type, payload) ∈ provider dec := by
                rw [hprovider]
                exact List.mem_append_right l List.mem_cons_self
              have hraw : IsRaw (maxNestingDepth - 2 + 1) typed.payload := isRaw_payload hread
              have hd : maxNestingDepth - 2 + 1 ≤ maxNestingDepth := by decide
              obtain ⟨hregistered, hvalue⟩ :=
                provider_constructs hd _ hmem _ _ hraw hpayload
              exact ⟨by rw [hregistered, Option.isSome_some], hvalue⟩

end Reading

theorem exists_frame (dec : Decoder x) (hregistered : e.registered.isSome)
    (hraw : IsRaw (maxNestingDepth - 2) e.value) :
    ∃ frame, readTypedIncoming dec frame = .ok e := by
  rcases hraw with hnil | ⟨v, htext⟩
  · exact ⟨e.frame x .null,
      readTypedIncoming_frame (d := 0) hregistered (Or.inl hnil) (by decide)⟩
  · exact ⟨e.frame x v, readTypedIncoming_frame hregistered (Or.inr htext) (by decide)⟩

/-- The frames decode to the events with a type string whose relayed bytes, if there are any, are
a document. -/
theorem frames_iff (dec : Decoder x) (e : Event XID) :
    (∃ frame, readTypedIncoming dec frame = .ok e) ↔
      e.registered.isSome ∧ IsRaw (maxNestingDepth - 2) e.value := by
  constructor
  · rintro ⟨frame, hframe⟩
    exact of_readTypedIncoming hframe
  · rintro ⟨hregistered, hraw⟩
    exact exists_frame dec hregistered hraw

end Screego
