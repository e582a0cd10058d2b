import Screego.Properties.Goroutines
import Screego.Properties.Signalling
import Screego.Ws.Reading
import Screego.Ws.WriteTyped

/-!
# What the other page gets to see

The bytes of a relayed value are rewritten twice on their way, and the page that
receives the frame still finds the document there that the other page sent.  In
bytes that are not UTF-8, the replacement character stands for what is malformed.
-/

namespace Screego

open Outgoing JsonText Unicode

variable {XID : Type} {x : Xid XID} {dec : Decoder x} {v : Value} {d : ℕ}

/-- The document that the bytes of a relayed value stand for; no bytes stand for `null`. -/
def IsDocument (d : ℕ) (v : Value) (raw : RawMessage) : Prop :=
  raw = [] ∧ v = .null ∨ Text d (.value v) raw

/-- The document names the id: by its string, or by `null` if it is the nil id. -/
def Xid.Names (x : Xid XID) (id : XID) (j : Value) : Prop :=
  id = x.nilID ∧ j = .null ∨ id ≠ x.nilID ∧ j = .string (textUnits (x.toString id))

/-- What a page reads from the frame of a relayed message, with the document for its id. -/
def Outgoing.P2PMessage.document (type : String) (sid v : Value) : Value :=
  .object [(textUnits "type", .string (textUnits type)),
    (textUnits "payload", .object [(textUnits "sid", sid), (textUnits "value", v)])]

section Frames

theorem encodeRaw_of_text {raw : RawMessage} (h : Text d (.value v) raw)
    (hd : d ≤ maxNestingDepth) :
    ∃ raw', encodeRaw raw = .ok (v, raw') ∧ Text d (.value v) raw' := by
  obtain ⟨raw', htext, hcompact⟩ := h.compacts
  have hparse := parse_append (h.mono hd) spaces_nil
  have hcompact := hcompact []
  rw [List.append_nil] at hparse
  rw [List.append_nil, compact, List.append_nil] at hcompact
  refine ⟨raw', ?_, htext⟩
  rw [encodeRaw, if_neg h.ne_nil, hparse, hcompact]

theorem encodeRaw_of_isDocument {raw : RawMessage} (h : IsDocument d v raw)
    (hd : d ≤ maxNestingDepth) :
    ∃ raw', encodeRaw raw = .ok (v, raw') ∧ Text d (.value v) raw' := by
  rcases h with ⟨rfl, rfl⟩ | h
  · exact ⟨_, rfl, text_write .null⟩
  · exact encodeRaw_of_text h hd

theorem written_encodedString (name s : String) : (encodedString name s).Written d :=
  ⟨textUnits_lt name, text_writeString true (textUnits_lt s)⟩

theorem written_encodedID (x : Xid XID) (name : String) (id : XID) :
    (encodedID x name id).Written d := by
  unfold encodedID
  cases x.marshalJSON id with
  | none => exact ⟨textUnits_lt name, Text.nullName⟩
  | some text => exact written_encodedString name text

theorem key_encodedID (x : Xid XID) (name : String) (id : XID) :
    (encodedID x name id).key = textUnits name := by
  unfold encodedID
  cases x.marshalJSON id <;> rfl

theorem names_encodedID (x : Xid XID) (name : String) (id : XID) :
    x.Names id (encodedID x name id).value := by
  unfold encodedID
  by_cases hnil : id = x.nilID
  · rw [hnil, x.marshalJSON_nilID]
    exact Or.inl ⟨rfl, rfl⟩
  · rw [x.marshalJSON_of_ne id hnil]
    exact Or.inr ⟨hnil, rfl⟩

/-- An object with a member and a raw value, which is how payload and frame are built. -/
theorem text_encoded {m : Entry} (hm : m.Written d) (name' : String) {raw : RawMessage}
    (h : Text d (.value v) raw) : Text (d + 1) (.value (.object [m.field, (textUnits name', v)]))
      (writeObject true [m, rawMember name' raw v]) := by
  have hwritten : ∀ m' ∈ [m, rawMember name' raw v], m'.Written d := by
    rw [List.forall_mem_cons, List.forall_mem_singleton]
    exact ⟨hm, written_rawMember name' h⟩
  exact (object_writeObject true hwritten).text

/-- The frame of a relayed message is a text of its document. -/
theorem Outgoing.P2PMessage.frame_text (type : String) {m : P2PMessage XID}
    (h : IsDocument d v m.value) (hd : d + 2 ≤ maxNestingDepth) :
    ∃ t, m.frame x type = .ok (t ++ [byte '\n']) ∧
      Text (d + 2) (.value (P2PMessage.document type (encodedID x "sid" m.sid).value v)) t := by
  obtain ⟨raw, hraw, hvalue⟩ := encodeRaw_of_isDocument h (by omega)
  have hpayload := text_encoded (written_encodedID x "sid" m.sid) "value" hvalue
  rw [Entry.field, key_encodedID] at hpayload
  obtain ⟨raw', hraw', hpayload'⟩ := encodeRaw_of_text hpayload (by omega)
  refine ⟨_, ?_, text_encoded (written_encodedString "type" type) "payload" hpayload'⟩
  rw [P2PMessage.frame, P2PMessage.encode, hraw]
  dsimp only [bind, Except.bind, pure, Except.pure]
  rw [hraw']

end Frames

/-! ## Whole runs -/

/-- The event comes in a frame, unless it is one that the server posts itself. -/
def Action.Framed (dec : Decoder x) (a : Action XID) : Prop :=
  a.event.registered = none ∨ ∃ frame, readTypedIncoming dec frame = .ok a.event

/-- The message was asked for by the event, and what the receiving page reads from its frame has the
session and the value of that event. -/
def Delivers (x : Xid XID) (m : Message XID) (e : Event XID) : Prop :=
  ∃ p v sid, m.request = some e ∧ m.relayed = some p ∧ IsDocument (maxNestingDepth - 2) v p.value ∧
    x.Names p.sid sid ∧ ∃ frame, p.frame x m.type = .ok frame ∧
      ∀ d ≥ maxNestingDepth, parse d frame = some (P2PMessage.document m.type sid v)

theorem request_of_relayed {e : Event XID} {rel : Relay XID} (h : e.relayed = some rel) :
    rel.msg.request = some e ∧ ∃ p, rel.msg.relayed = some p ∧ e.value = p.value := by
  cases e with
  | hostOffer p =>
      obtain rfl := Option.some.inj h
      exact ⟨rfl, p, rfl, rfl⟩
  | hostICE p =>
      obtain rfl := Option.some.inj h
      exact ⟨rfl, p, rfl, rfl⟩
  | clientAnswer p =>
      obtain rfl := Option.some.inj h
      exact ⟨rfl, p, rfl, rfl⟩
  | clientICE p =>
      obtain rfl := Option.some.inj h
      exact ⟨rfl, p, rfl, rfl⟩
  | _ => cases h

theorem registered_of_request {m : Message XID} {e : Event XID} (h : m.request = some e) :
    e.registered ≠ none := by
  cases m with
  | hostOffer p =>
      obtain rfl := Option.some.inj h
      rintro ⟨⟩
  | hostICE p =>
      obtain rfl := Option.some.inj h
      rintro ⟨⟩
  | clientAnswer p =>
      obtain rfl := Option.some.inj h
      rintro ⟨⟩
  | clientICE p =>
      obtain rfl := Option.some.inj h
      rintro ⟨⟩
  | _ => cases h

theorem Delivers.registered {m : Message XID} {e : Event XID} (h : Delivers x m e) :
    e.registered ≠ none := by
  obtain ⟨_, _, _, hrequest, -⟩ := h
  exact registered_of_request hrequest

/-- When events come in frames, every relayed message delivers one of them. -/
theorem delivers_of_framed [DecidableEq XID] {env : Env XID} {server : Turn.Server}
    {dec : Decoder env.xid} {l : List (System XID × Action XID)} {t : System XID}
    (h : (machine env server).Run (machine env server).init l t)
    (hframed : ∀ p ∈ l, p.2.Framed dec) : ∀ k m, (k, m) ∈ t.rooms.world.out → m.kind = .relay →
      ∃ s info e, (s, Action.receive info e) ∈ l ∧ Delivers env.xid m e := by
  intro k m hm hkind
  obtain hm | ⟨⟨s, a⟩, hp, s', hstep, hm⟩ := run_since .init h hm
  · cases hm
  have hreach : (machine env server).Reachable s := h.reachable_of_mem .init hp
  obtain ⟨rel, r, room, link, hrel, -, -, -, -, rfl⟩ :=
    (step_effect (reachable_wf hreach) hstep).relay_of_mem hm hkind
  obtain ⟨info, e, rfl⟩ := receive_of_relayed hrel
  obtain ⟨hrequest, p, hp', hvalue⟩ := request_of_relayed hrel
  obtain ⟨frame, hframe⟩ := (hframed _ hp).resolve_left (registered_of_request hrequest)
  have hraw : IsRaw (maxNestingDepth - 2) p.value := hvalue ▸ (of_readTypedIncoming hframe).2
  obtain ⟨v, hv⟩ : ∃ v, IsDocument (maxNestingDepth - 2) v p.value := by
    rcases hraw with hnil | ⟨v, htext⟩
    · exact ⟨.null, Or.inl ⟨hnil, rfl⟩⟩
    · exact ⟨v, Or.inr htext⟩
  obtain ⟨t, hwritten, htext⟩ := p.frame_text (x := env.xid) rel.msg.type hv (by decide)
  refine ⟨s, info, e, hp, p, v, _, hrequest, hp', hv, names_encodedID env.xid "sid" p.sid, _,
    hwritten, fun d hd ↦ ?_⟩
  exact parse_append (htext.mono hd) fun b hb ↦ by
    obtain rfl := List.mem_singleton.mp hb
    decide

/-! ## From bytes to bytes -/

namespace Client

theorem reader_closeOnError (code : ℤ) (reason : String) (c : Client XID) :
    (c.closeOnError code reason).reader = c.reader := by
  rw [Client.closeOnError]
  split <;> rfl

theorem reader_closeOnDone (c : Client XID) : c.closeOnDone.reader = c.reader := by
  rw [Client.closeOnDone]
  split <;> rfl

theorem reader_writeMessage {err : Option String} {c c' : Client XID}
    (h : c.writeMessage err = some c') : c'.reader = c.reader := by
  unfold Client.writeMessage at h
  split at h
  · obtain rfl := Option.some.inj h
    exact reader_closeOnDone c
  · split at h
    · obtain rfl := Option.some.inj h
      rfl
    · obtain rfl := Option.some.inj h
      exact reader_closeOnError _ _ _
  · cases h

theorem reader_ping {err : Option String} {c c' : Client XID} (h : c.ping err = some c') :
    c'.reader = c.reader := by
  unfold Client.ping at h
  split at h
  · obtain rfl := Option.some.inj h
    rfl
  · obtain rfl := Option.some.inj h
    exact reader_closeOnError _ _ _
  · cases h

theorem reader_accept {m : Message XID} {c c' : Client XID} (h : c.accept m = some c') :
    c'.reader = c.reader := by
  unfold Client.accept at h
  split at h
  · obtain rfl := Option.some.inj h
    rfl
  · cases h

theorem reader_readError {code : ℤ} {reason : String} {c c' : Client XID}
    (h : c.readError code reason = some c') : c'.reader = .returned := by
  unfold Client.readError at h
  split at h
  · obtain rfl := Option.some.inj h
    rfl
  · cases h

end Client

section Readers

variable [DecidableEq XID] {env : Env XID} {p p' : Processes XID} {k : XID} {incoming : Frame XID}

theorem reader_update {j : XID} {f : Client XID → Option (Client XID)} (h : p.update j f = some p')
    (hf : ∀ c c', f c = some c' → c'.reader = .posting incoming → c.reader = .posting incoming)
    (hposting : (p'.client k).reader = .posting incoming) :
    (p.client k).reader = .posting incoming := by
  obtain ⟨c, hc, rfl⟩ := update_eq h
  dsimp only at hposting
  by_cases hk : k = j
  · subst hk
    refine hf _ _ hc ?_
    rwa [Function.update_self] at hposting
  · rwa [Function.update_of_ne hk] at hposting

/-- A reader offers what it has read. -/
theorem next_reader {m : Move XID} (h : p.next env m = some p')
    (hposting : (p'.client k).reader = .posting incoming) :
    (p.client k).reader = .posting incoming ∨ m = .read k incoming := by
  have hmain {a : Action XID} {q : Processes XID} (h : p.main env a = some q) :
      q.client = p.client := (main_eq (.internal ⟨∅⟩) h).2.2.1
  cases m with
  | dial authenticated authenticatedUser addr =>
      simp only [Processes.next] at h
      obtain ⟨t, -, rfl⟩ := Option.map_eq_some_iff.mp h
      exact Or.inl hposting
  | connect info =>
      rw [hmain h] at hposting
      exact Or.inl hposting
  | health =>
      rw [hmain h] at hposting
      exact Or.inl hposting
  | read j incoming' =>
      obtain ⟨c, hc, rfl⟩ := update_eq (started_eq h)
      dsimp only at hposting
      by_cases hk : k = j
      · subst hk
        rw [Function.update_self] at hposting
        unfold Client.read at hc
        split at hc
        · obtain rfl := Option.some.inj hc
          obtain rfl : incoming' = incoming := Reader.posting.inj hposting
          exact Or.inr rfl
        · cases hc
      · rw [Function.update_of_ne hk] at hposting
        exact Or.inl hposting
  | readError j code reason =>
      refine Or.inl (reader_update (started_eq h) (fun c c' hc hc' ↦ ?_) hposting)
      rw [Client.reader_readError hc] at hc'
      cases hc'
  | takeFrame info =>
      simp only [Processes.next] at h
      split at h
      · obtain ⟨q, hq, h⟩ := Option.bind_eq_some_iff.mp h
        have hkept := reader_update h (fun c c' hc hc' ↦ ?_) hposting
        · rw [hmain hq] at hkept
          exact Or.inl hkept
        · obtain rfl := Option.some.inj hc
          cases hc'
      · cases h
  | takeError info =>
      simp only [Processes.next] at h
      split at h
      · obtain ⟨q, hq, h⟩ := Option.bind_eq_some_iff.mp h
        have hkept := reader_update h (fun c c' hc hc' ↦ ?_) hposting
        · rw [hmain hq] at hkept
          exact Or.inl hkept
        · obtain rfl := Option.some.inj hc
          exact hc'
      · cases h
  | write j err =>
      refine Or.inl (reader_update (started_eq h) (fun c c' hc hc' ↦ ?_) hposting)
      rwa [Client.reader_writeMessage hc] at hc'
  | ping j err =>
      refine Or.inl (reader_update (started_eq h) (fun c c' hc hc' ↦ ?_) hposting)
      rwa [Client.reader_ping hc] at hc'
  | lose j =>
      simp only [Processes.next] at h
      refine Or.inl (reader_update h (fun c c' hc hc' ↦ ?_) hposting)
      obtain rfl := Option.some.inj hc
      exact hc'
  | handOver =>
      simp only [Processes.next] at h
      split at h
      · cases h
      · have hkept := reader_update h (fun c c' hc hc' ↦ ?_) hposting
        · exact Or.inl hkept
        · rwa [Client.reader_accept hc] at hc'
  | timeOut =>
      simp only [Processes.next] at h
      split at h
      · cases h
      · obtain rfl := Option.some.inj h
        exact Or.inl hposting

end Readers

section Runs

variable [DecidableEq XID] {env : Env XID} {server : Turn.Server} {dec : Decoder env.xid}
  {l l' : List (Processes XID × Traffic XID)} {p : Processes XID} {e : Event XID}

/-- The event came in as a frame. -/
def CameIn (dec : Decoder x) (l : List (Processes XID × Traffic XID)) (e : Event XID) : Prop :=
  ∃ s k bytes, (s, Traffic.incoming k (.text bytes)) ∈ l ∧ readTypedIncoming dec bytes = .ok e

omit [DecidableEq XID] in
theorem CameIn.mono (h : CameIn dec l e) (hl : l ⊆ l') : CameIn dec l' e := by
  obtain ⟨s, k, bytes, hmem, hread⟩ := h
  exact ⟨s, k, bytes, hl hmem, hread⟩

omit [DecidableEq XID] in
theorem startReading_eq {k j : XID} {i : Incoming} {incoming : Frame XID}
    (h : startReading dec k i = .read j incoming) :
    ∃ bytes, i = .text bytes ∧ readTypedIncoming dec bytes = .ok incoming.val := by
  cases i with
  | text bytes =>
      rw [startReading] at h
      split at h
      · next e he =>
          obtain rfl := (Move.read.inj h).2
          exact ⟨bytes, rfl, he⟩
      · cases h
  | binary => cases h
  | error err => cases h

/-- Everything a reader offers came in as a frame, and so did everything the main loop took. -/
structure Traced (server : Turn.Server) (dec : Decoder env.xid)
    (l : List (Processes XID × Traffic XID)) (p : Processes XID) : Prop where
  offered : ∀ k incoming, (p.client k).reader = .posting incoming → CameIn dec l incoming.val
  taken : ∃ l', (machine env server).Run (machine env server).init l' p.system ∧
    ∀ q ∈ l', q.2.event.registered = none ∨ CameIn dec l q.2.event

theorem run_traced (h : (wire env server dec).Run (wire env server dec).init l p) :
    Traced server dec l p := by
  induction h with
  | nil =>
      refine ⟨?_, [], .nil, fun q hq ↦ absurd hq List.not_mem_nil⟩
      rintro k incoming ⟨⟩
  | @snoc l p p' t _ hstep ih =>
      have hl : l ⊆ l ++ [(p, t)] := List.subset_append_left _ _
      have hnext : p.next env (t.toMove dec) = some p' := hstep
      constructor
      · intro k incoming hposting
        rcases next_reader hnext hposting with hbefore | hread
        · exact (ih.offered k incoming hbefore).mono hl
        · cases t with
          | incoming j i =>
              obtain ⟨bytes, rfl, hbytes⟩ := startReading_eq hread
              exact ⟨p, j, bytes, List.mem_append_right _ List.mem_cons_self, hbytes⟩
          | move m hm =>
              obtain rfl : m = .read k incoming := hread
              exact absurd trivial hm
      · obtain ⟨l', hrun, htaken⟩ := ih.taken
        have htaken' : ∀ q ∈ l',
            q.2.event.registered = none ∨ CameIn dec (l ++ [(p, t)]) q.2.event :=
          fun q hq ↦ (htaken q hq).imp_right fun h ↦ h.mono hl
        rcases next_system server hnext with heq | ⟨a, ha, hevent⟩
        · rw [heq]
          exact ⟨l', hrun, htaken'⟩
        · refine ⟨l' ++ [(p.system, a)], hrun.snoc ha, ?_⟩
          rw [List.forall_mem_append, List.forall_mem_singleton]
          refine ⟨htaken', hevent.imp_right ?_⟩
          rintro ⟨j, incoming, hposting, heq⟩
          rw [heq]
          exact (ih.offered j incoming hposting).mono hl

/-- Every relayed message goes back to a frame that came in, and the page that it is for reads the
document from its frame that the other page has sent. -/
theorem relays_documents (h : (wire env server dec).Run (wire env server dec).init l p) :
    ∀ k m, (k, m) ∈ p.system.rooms.world.out → m.kind = .relay →
      ∃ e, CameIn dec l e ∧ Delivers env.xid m e := by
  intro k m hm hkind
  obtain ⟨l', hrun, htaken⟩ := (run_traced h).taken
  have hframed : ∀ q ∈ l', q.2.Framed dec := by
    refine fun q hq ↦ (htaken q hq).imp_right ?_
    rintro ⟨s, j, bytes, -, hbytes⟩
    exact ⟨bytes, hbytes⟩
  obtain ⟨s, info, e, hmem, hdelivers⟩ := delivers_of_framed hrun hframed k m hm hkind
  exact ⟨e, (htaken _ hmem).resolve_left hdelivers.registered, hdelivers⟩

end Runs

/-! ## A call -/

/-- The run of a script on bytes: its steps and its last state. -/
def wireAfter (script : List (Traffic ℕ)) :
    List (Processes ℕ × Traffic ℕ) × Processes ℕ :=
  Machine.history (processes (Env.sample authModeNone) (.internal ⟨∅⟩)).init
    (fun p t ↦ p.next (Env.sample authModeNone) (t.toMove (Decoder.sample Xid.counter))) script

theorem run_wireAfter (script : List (Traffic ℕ)) :
    (wire (Env.sample authModeNone) (.internal ⟨∅⟩) (Decoder.sample Xid.counter)).Run
      (wire (Env.sample authModeNone) (.internal ⟨∅⟩) (Decoder.sample Xid.counter)).init
      (wireAfter script).1 (wireAfter script).2 :=
  Machine.run_history _ _ _

/-- What the main loop has to say goes out to the two clients. -/
def settle : List (Traffic ℕ) :=
  (List.replicate 4 [.move .handOver not_false, .move (.write 0 none) not_false,
    .move (.write 1 none) not_false]).flatten

/-- A page sends an event, and the main loop takes it. -/
def sending (k : ℕ) (e : Event ℕ) : List (Traffic ℕ) :=
  .incoming k (.text (e.frame Xid.counter .null)) :: .move (.takeFrame (guest k)) not_false ::
    settle

/-- Two clients meet, and the one that shares its screen makes an offer, for which a number
stands. -/
def call : List (Traffic ℕ) :=
  List.replicate 2 (.move (.dial false "" [127, 0, 0, 1]) not_false) ++
    [.move (.connect (guest 0)) not_false, .move (.connect (guest 1)) not_false] ++
    sending 0 (.create ⟨"lobby", "local", false, "", false⟩) ++ sending 1 (.join ⟨"lobby", ""⟩) ++
    sending 0 .startShare ++ sending 0 (.hostOffer ⟨16, [byte '1']⟩)

theorem relays_documents_call : ∃ e, CameIn (Decoder.sample Xid.counter) (wireAfter call).1 e ∧
    Delivers Xid.counter (.hostOffer ⟨16, [byte '1']⟩) e :=
  relays_documents (run_wireAfter call) 1 _ (by decide +kernel) rfl

end Screego
