import Screego.Spec.Ledger

/-!
# Signalling

The server introduces the two ends of a session to each other and then passes
on what they say.  An end hears only from the peer it was introduced to, only
while the session is open, and a request of anybody else reaches nobody.
-/

namespace Screego

open Outgoing World Rooms

variable {XID : Type} [DecidableEq XID] {env : Env XID} {server : Turn.Server}

/-! ## Relayed messages and their requests -/

/-- The request for a relayed message has the same id and value. -/
def Outgoing.Message.request : Message XID → Option (Event XID)
  | .hostOffer p => some (.hostOffer p)
  | .hostICE p => some (.hostICE p)
  | .clientAnswer p => some (.clientAnswer p)
  | .clientICE p => some (.clientICE p)
  | _ => none

def Outgoing.Message.FromHost (p : P2PMessage XID) (m : Message XID) : Prop :=
  m = .hostOffer p ∨ m = .hostICE p

def Outgoing.Message.FromClient (p : P2PMessage XID) (m : Message XID) : Prop :=
  m = .clientAnswer p ∨ m = .clientICE p

/-- The client is the end of the session, in its own room, that may send the request. -/
def RightEnd (s : Rooms XID) (c : ClientInfo XID) (rel : Relay XID) : Prop :=
  ∃ r room l, s.currentRoom c = .ok (r, room) ∧ room.sessions.lookup rel.sid = some l ∧
    rel.sender l = c.id

/-- What another member hears when `c` leaves: the new member list, or that a session with `c` is
over. -/
def LeaveNotification (s : Rooms XID) (c k : XID) (m : Message XID) : Prop :=
  k ≠ c ∧ ∃ r room, s.In c r room ∧ k ∈ room.users.keys ∧ ((∃ view, m = .room r "" view) ∨
    ∃ id l, room.sessions.lookup id = some l ∧ Touches c l ∧ Touches k l ∧ m = .endShare id)

/-- What one step may relay. -/
structure SignalStep (s : System XID) (a : Action XID) (t : System XID) : Prop where
  fromHost : ∀ u m p, (u, m) ∈ s.rooms.world.since t.rooms.world → m.FromHost p →
    ∃ info e iceServers, a = .receive info e ∧ m.request = some e ∧
      (u, .clientSession p.sid info.id iceServers) ∈ s.rooms.world.out
  fromClient : ∀ u m p, (u, m) ∈ s.rooms.world.since t.rooms.world → m.FromClient p →
    ∃ info e iceServers, a = .receive info e ∧ m.request = some e ∧
      (u, .hostSession p.sid info.id iceServers) ∈ s.rooms.world.out
  refused : ∀ info e rel, a = .receive info e → e.relayed = some rel →
    ¬ RightEnd s.rooms info rel → ∀ k m, (k, m) ∈ s.rooms.world.since t.rooms.world →
      (k = info.id ∧ m.kind = .bye) ∨ LeaveNotification s.rooms info.id k m

section Requests

variable {e : Event XID} {rel : Relay XID} {p : P2PMessage XID}

omit [DecidableEq XID] in
theorem relayed_fromHost (h : e.relayed = some rel) (hm : rel.msg.FromHost p) :
    rel.msg.request = some e ∧ rel.sid = p.sid ∧ rel.sender = RoomSession.host ∧
      rel.recipient = RoomSession.client := by
  cases e with
  | hostOffer _ =>
      obtain rfl := Option.some.inj h
      rcases hm with heq | heq <;> cases heq
      exact ⟨rfl, rfl, rfl, rfl⟩
  | hostICE _ =>
      obtain rfl := Option.some.inj h
      rcases hm with heq | heq <;> cases heq
      exact ⟨rfl, rfl, rfl, rfl⟩
  | clientAnswer _ =>
      obtain rfl := Option.some.inj h
      rcases hm with heq | heq <;> cases heq
  | clientICE _ =>
      obtain rfl := Option.some.inj h
      rcases hm with heq | heq <;> cases heq
  | _ => cases h

omit [DecidableEq XID] in
theorem relayed_fromClient (h : e.relayed = some rel) (hm : rel.msg.FromClient p) :
    rel.msg.request = some e ∧ rel.sid = p.sid ∧ rel.sender = RoomSession.client ∧
      rel.recipient = RoomSession.host := by
  cases e with
  | clientAnswer _ =>
      obtain rfl := Option.some.inj h
      rcases hm with heq | heq <;> cases heq
      exact ⟨rfl, rfl, rfl, rfl⟩
  | clientICE _ =>
      obtain rfl := Option.some.inj h
      rcases hm with heq | heq <;> cases heq
      exact ⟨rfl, rfl, rfl, rfl⟩
  | hostOffer _ =>
      obtain rfl := Option.some.inj h
      rcases hm with heq | heq <;> cases heq
  | hostICE _ =>
      obtain rfl := Option.some.inj h
      rcases hm with heq | heq <;> cases heq
  | _ => cases h

omit [DecidableEq XID] in
theorem named_of_relayed (h : e.relayed = some rel) : e.named = none := by
  cases e <;> first | rfl | cases h

omit [DecidableEq XID] in
theorem receive_of_relayed {a : Action XID} (h : a.event.relayed = some rel) :
    ∃ info e, a = .receive info e := by
  cases a with
  | receive info e => exact ⟨info, e, rfl⟩
  | _ => cases h

end Requests

/-! ## One step -/

section Step

variable {s s' : Rooms XID} {c : ClientInfo XID} {e : Event XID}

theorem Effect.relay_of_mem (h : Effect env c s e s') {u : XID} {m : Message XID}
    (hm : (u, m) ∈ s.world.since s'.world) (hkind : m.kind = .relay) :
    ∃ rel r room l, e.relayed = some rel ∧ s.In c.id r room ∧
      room.sessions.lookup rel.sid = some l ∧ rel.sender l = c.id ∧ u = rel.recipient l ∧
      m = rel.msg := by
  have hnone {P : Prop} (hquiet : only .relay (s.world.since s'.world) = []) : P := by
    have hmem := mem_only.mpr ⟨hm, hkind⟩
    rw [hquiet] at hmem
    cases hmem
  cases h with
  | idle hworld => exact hnone (by rw [hworld.since]; rfl)
  | connect => exact hnone (by rw [since_self]; rfl)
  | @relay _ rel r room l _ hrelay hin hl hsender hworld =>
      rw [hworld.since] at hm
      obtain ⟨rfl, rfl⟩ := Prod.mk.inj (List.mem_singleton.mp hm)
      exact ⟨rel, r, room, l, hrelay, hin, hl, hsender, rfl, rfl⟩
  | create _ _ _ htold hworld =>
      exact hnone (by rw [hworld.since, htold.ofKind.only_ne (by decide)])
  | join _ _ _ _ _ htold hworld =>
      exact hnone (by rw [hworld.since, only_append, htold.ofKind.only_ne (by decide),
        (OpenedSession.ofKind_messages _).only_ne (by decide), List.append_nil])
  | joinFailed _ _ _ _ _ htold htold' hworld =>
      exact hnone (by rw [hworld.since, only_append, htold.ofKind.only_ne (by decide),
        only_cons_of_ne (by simp [Message.kind]), htold'.ofKind.only_ne (by decide),
        List.append_nil])
  | haunt _ _ _ _ htold hworld =>
      exact hnone (by rw [hworld.since, only_append, htold.ofKind.only_ne (by decide)]; rfl)
  | update _ _ hended htold hworld =>
      exact hnone (by rw [hworld.since, only_append,
        (hended.ofKind (e.mem_notices c.id)).only_ne (by decide),
        htold.ofKind.only_ne (by decide), List.append_nil])
  | share _ _ _ _ _ _ htold hworld =>
      exact hnone (by rw [hworld.since, only_append,
        (OpenedSession.ofKind_messages _).only_ne (by decide), htold.ofKind.only_ne (by decide),
        List.append_nil])
  | remove _ _ _ _ _ htold hworld =>
      exact hnone (by rw [hworld.since, only_cons_of_ne (by simp [Message.kind]),
        htold.ofKind.only_ne (by decide)])
  | leave _ hleft =>
      cases hleft with
      | stay _ hended htold hworld =>
          exact hnone (by rw [hworld.since, only_cons_of_ne (by simp [Message.kind]), only_append,
            (hended.ofKind fun _ _ _ _ h ↦ h).only_ne (by decide),
            htold.ofKind.only_ne (by decide), List.append_nil])
      | last _ hworld => exact hnone (by rw [hworld.since]; rfl)
  | leaveNowhere _ hworld => exact hnone (by rw [hworld.since]; rfl)
  | dissolve _ _ _ _ hworld =>
      exfalso
      rw [hworld.since] at hm
      obtain ⟨k, -, heq⟩ := List.mem_map.mp hm
      rw [← (Prod.mk.inj heq).2] at hkind
      cases hkind

/-- A refused request reaches nobody: at most, its sender is out. -/
theorem Effect.refused (h : Effect env c s e s') (hwf : s.WF env) {rel : Relay XID}
    (hrel : e.relayed = some rel) (hnot : ¬ RightEnd s c rel) {k : XID} {m : Message XID}
    (hm : (k, m) ∈ s.world.since s'.world) :
    (k = c.id ∧ m.kind = .bye) ∨ LeaveNotification s c.id k m := by
  have hbye {code : ℤ} {reason : String} (heq : (k, m) = (c.id, .closeWriter code reason)) :
      k = c.id ∧ m.kind = .bye := by
    obtain ⟨rfl, rfl⟩ := Prod.mk.inj heq
    exact ⟨rfl, rfl⟩
  cases h with
  | idle hworld =>
      rw [hworld.since] at hm
      cases hm
  | relay hrelay hin hl hsender _ =>
      obtain rfl := Option.some.inj (hrel.symm.trans hrelay)
      exact absurd ⟨_, _, _, currentRoom_of_in hin, hl, hsender⟩ hnot
  | connect => cases hrel
  | create _ _ _ _ _ => cases hrel
  | share _ _ _ _ _ _ _ _ => cases hrel
  | remove _ _ _ _ _ _ _ => cases hrel
  | dissolve _ _ _ _ _ => cases hrel
  | join hnamed _ _ _ _ _ _ => exact absurd (hnamed.symm.trans (named_of_relayed hrel)) (by simp)
  | joinFailed hnamed _ _ _ _ _ _ _ =>
      exact absurd (hnamed.symm.trans (named_of_relayed hrel)) (by simp)
  | haunt hnamed _ _ _ _ _ => exact absurd (hnamed.symm.trans (named_of_relayed hrel)) (by simp)
  | update _ hop _ _ _ => cases hop <;> cases hrel
  | leaveNowhere _ hworld =>
      rw [hworld.since] at hm
      exact Or.inl (hbye (List.mem_singleton.mp hm))
  | @leave _ r room _ hin hleft =>
      cases hleft with
      | last _ hworld =>
          rw [hworld.since] at hm
          exact Or.inl (hbye (List.mem_singleton.mp hm))
      | stay hleft hended htold hworld =>
          have hsound := hwf.sound r room hin.lookup
          rw [hworld.since] at hm
          rcases List.mem_cons.mp hm with heq | hm
          · exact Or.inl (hbye heq)
          refine Or.inr ?_
          rcases List.mem_append.mp hm with hm | hm
          · obtain ⟨id, l, hl, htouch, hm⟩ := hended.mem hm
            obtain ⟨hhost, hviewer⟩ := hsound.ends_mem hl
            have hne := (hsound.viewed id l hl).2
            obtain ⟨hk, rfl⟩ := Prod.mk.inj (List.mem_singleton.mp hm)
            by_cases hclient : l.client = c.id
            · rw [if_pos hclient] at hk
              subst hk
              exact ⟨fun heq ↦ hne (hclient.trans heq.symm), r, room, hin,
                hhost, Or.inr ⟨id, l, hl, htouch, Or.inl rfl, rfl⟩⟩
            · rw [if_neg hclient] at hk
              subst hk
              exact ⟨hclient, r, room, hin, hviewer,
                Or.inr ⟨id, l, hl, htouch, Or.inr rfl, rfl⟩⟩
          · obtain ⟨hk, view, rfl, -⟩ := htold.eq_room hm
            rw [hleft.keys] at hk
            rw [(hleft.sound hsound hin.ne_empty).id_eq]
            exact ⟨Finset.ne_of_mem_erase hk, r, room, hin, Finset.mem_of_mem_erase hk,
              Or.inl ⟨view, rfl⟩⟩

end Step

theorem signalStep {s t : System XID} {a : Action XID}
    (hreach : (machine env server).Reachable s) (h : (machine env server).step s a t) :
    SignalStep s a t := by
  have hwf := reachable_wf hreach
  have heffect := step_effect hwf h
  obtain ⟨os, hledger⟩ := reachable_ledger hreach
  refine ⟨?_, ?_, ?_⟩
  · intro u m p hm hfrom
    have hkind : m.kind = .relay := by
      rcases hfrom with rfl | rfl <;> rfl
    obtain ⟨rel, r, room, l, hrel, hin, hl, hsender, rfl, rfl⟩ := heffect.relay_of_mem hm hkind
    obtain ⟨hrequest, hsid, hs, hr⟩ := relayed_fromHost hrel hfrom
    obtain ⟨info, e, rfl⟩ := receive_of_relayed hrel
    obtain ⟨_, iceClient, -, hclient⟩ := hledger.told ((open_of_lookup hin.lookup).mpr ⟨rfl, hl⟩)
    rw [hs] at hsender
    rw [hsid, hsender] at hclient
    rw [hr]
    exact ⟨info, e, iceClient, rfl, hrequest, hclient⟩
  · intro u m p hm hfrom
    have hkind : m.kind = .relay := by
      rcases hfrom with rfl | rfl <;> rfl
    obtain ⟨rel, r, room, l, hrel, hin, hl, hsender, rfl, rfl⟩ := heffect.relay_of_mem hm hkind
    obtain ⟨hrequest, hsid, hs, hr⟩ := relayed_fromClient hrel hfrom
    obtain ⟨info, e, rfl⟩ := receive_of_relayed hrel
    obtain ⟨iceHost, _, hhost, -⟩ := hledger.told ((open_of_lookup hin.lookup).mpr ⟨rfl, hl⟩)
    rw [hs] at hsender
    rw [hsid, hsender] at hhost
    rw [hr]
    exact ⟨info, e, iceHost, rfl, hrequest, hhost⟩
  · rintro info e rel rfl hrel hnot k m hm
    exact heffect.refused hwf.rooms hrel hnot hm

/-! ## Whole runs -/

def Outgoing.Message.hostSessionOf (id : XID) : Message XID → Bool
  | .hostSession id' _ _ => id' = id
  | _ => false

def Outgoing.Message.clientSessionOf (id : XID) : Message XID → Bool
  | .clientSession id' _ _ => id' = id
  | _ => false

/-- The session was announced once to its host and once to its client, each time with the other
one as the peer. -/
def AnnouncedOnce (out : List (XID × Message XID)) (id : XID) (l : RoomSession XID) : Prop :=
  ∃ iceHost iceClient,
    (out.filter fun q ↦ q.2.hostSessionOf id) = [(l.host, .hostSession id l.client iceHost)] ∧
    (out.filter fun q ↦ q.2.clientSessionOf id) =
      [(l.client, .clientSession id l.host iceClient)]

/-- Some room has the session. -/
def IsOpen (s : System XID) (id : XID) (l : RoomSession XID) : Prop :=
  ∃ r room, s.rooms.rooms.lookup r = some room ∧ room.sessions.lookup id = some l

structure SignallingSafe (env : Env XID) (server : Turn.Server)
    (l : List (System XID × Action XID)) (t : System XID) : Prop where
  announced : ∀ s, (s = t ∨ ∃ a, (s, a) ∈ l) → ∀ id link, IsOpen s id link →
    AnnouncedOnce t.rooms.world.out id link
  announcedOnce : ∀ k m id iceServers, (k, m) ∈ t.rooms.world.out → m.HandsOut id iceServers →
    ∃ link, AnnouncedOnce t.rooms.world.out id link
  handed : ∀ k m, (k, m) ∈ t.rooms.world.out → ∃ p ∈ l, ∃ s',
    (machine env server).step p.1 p.2 s' ∧ (k, m) ∈ p.1.rooms.world.since s'.rooms.world
  steps : ∀ p ∈ l, ∀ s', (machine env server).step p.1 p.2 s' → SignalStep p.1 p.2 s'
  ended : ∀ p ∈ l, ∀ s', (machine env server).step p.1 p.2 s' → ∀ id,
    (∃ link, IsOpen p.1 id link) → (¬ ∃ link, IsOpen s' id link) →
    ∀ u m q, (u, m) ∈ s'.rooms.world.since t.rooms.world → m.FromHost q ∨ m.FromClient q →
      q.sid ≠ id

theorem isOpen_iff {s : System XID} {id : XID} {l : RoomSession XID} :
    IsOpen s id l ↔ ∃ r mode, Open s.rooms.rooms r mode id l := by
  constructor
  · rintro ⟨r, room, hroom, hl⟩
    exact ⟨r, room.mode, room, hroom, rfl, hl⟩
  · rintro ⟨r, mode, room, hroom, -, hl⟩
    exact ⟨r, room, hroom, hl⟩

theorem Ledger.announcedOnce {s : Rooms XID} {os : List (OpenedSession XID)}
    (h : Ledger env s os) {o : OpenedSession XID} (ho : o ∈ os) :
    AnnouncedOnce s.world.out o.id o.session := by
  refine ⟨o.iceHost, o.iceClient, ?_, ?_⟩
  · rw [h.filter_eq ho]
    · simp [OpenedSession.messages, Message.hostSessionOf]
    · intro k m hm
      unfold Message.hostSessionOf at hm
      split at hm
      · next id' peer ice heq =>
          obtain rfl := of_decide_eq_true hm
          exact ⟨ice, peer, Or.inl heq⟩
      · cases hm
  · rw [h.filter_eq ho]
    · simp [OpenedSession.messages, Message.clientSessionOf]
    · intro k m hm
      unfold Message.clientSessionOf at hm
      split at hm
      · next id' peer ice heq =>
          obtain rfl := of_decide_eq_true hm
          exact ⟨ice, peer, Or.inr heq⟩
      · cases hm

theorem Ledger.mem_of_prefix {s s' : Rooms XID} {os os' : List (OpenedSession XID)}
    (h : Ledger env s os) (h' : Ledger env s' os') (hgrown : s.world.out <+: s'.world.out)
    {r : String} {mode : ConnectionMode} {id : XID} {l : RoomSession XID}
    (hopen : Open s.rooms r mode id l) : ∃ o ∈ os', o.id = id ∧ o.session = l := by
  obtain ⟨iceHost, -, hhost, -⟩ := h.told hopen
  obtain ⟨o, ho, hm⟩ := h'.mem (hgrown.subset hhost) rfl
  rcases OpenedSession.mem_messages.mp hm with ⟨hk, heq⟩ | ⟨-, heq⟩
  · obtain ⟨hid, hpeer, -⟩ := Message.hostSession.inj heq
    refine ⟨o, ho, hid.symm, ?_⟩
    obtain ⟨id, ⟨host, client⟩, iceHost, iceClient⟩ := o
    obtain ⟨lhost, lclient⟩ := l
    simp only at hk hpeer
    rw [hk, hpeer]
  · cases heq

/-- The session is over for good, and nothing was relayed for it since. -/
structure Shut (env : Env XID) (id : XID) (s t : System XID) : Prop where
  closed : ∀ r mode l, ¬ Open t.rooms.rooms r mode id l
  minted : ∃ n < t.rooms.world.tick, id = env.xid.new n
  grown : s.rooms.world.out <+: t.rooms.world.out
  quiet : ∀ u m q, (u, m) ∈ s.rooms.world.since t.rooms.world → m.FromHost q ∨ m.FromClient q →
    q.sid ≠ id

theorem Shut.step {id : XID} {s t u : System XID} {a : Action XID} (h : Shut env id s t)
    (hwf : t.WF env) (hstep : (machine env server).step t a u) : Shut env id s u := by
  have heffect := step_effect hwf hstep
  obtain ⟨r, mode, dead, os, hturn⟩ := heffect.turnover hwf.rooms
  obtain ⟨n, hn, hid⟩ := h.minted
  have hgrown : t.rooms.world.out <+: u.rooms.world.out := by
    rw [hturn.out]
    exact List.prefix_append _ _
  refine ⟨?_, ⟨n, hn.trans_le heffect.tick, hid⟩, h.grown.trans hgrown, ?_⟩
  · intro r' mode' l hopen
    rcases (hturn.open_iff r' mode' id l).mp hopen with ⟨hopen, -⟩ | ⟨-, -, o, ho, hoid, -⟩
    · exact h.closed r' mode' l hopen
    · -- new ids come from later draws
      obtain ⟨d, msgs, hchange⟩ := hturn.change
      obtain ⟨n', hn', -, hid'⟩ := hchange.born_new o.id
        (List.mem_toFinset.mpr (List.mem_map.mpr ⟨o, ho, rfl⟩))
      have := env.xid.new_injective (hid.symm.trans (hoid.symm.trans hid'))
      omega
  · intro k m q hm hfrom
    rw [since_trans h.grown hgrown] at hm
    rcases List.mem_append.mp hm with hm | hm
    · exact h.quiet k m q hm hfrom
    · rintro rfl
      have hkind : m.kind = .relay := by
        rcases hfrom with (rfl | rfl) | (rfl | rfl) <;> rfl
      obtain ⟨rel, r', room, l, hrel, hin, hl, -, -, rfl⟩ := heffect.relay_of_mem hm hkind
      have hsid : rel.sid = q.sid := by
        rcases hfrom with hfrom | hfrom
        · exact (relayed_fromHost hrel hfrom).2.1
        · exact (relayed_fromClient hrel hfrom).2.1
      rw [hsid] at hl
      exact h.closed r' room.mode l ((open_of_lookup hin.lookup).mpr ⟨rfl, hl⟩)

theorem signalling_safe {l : List (System XID × Action XID)} {t : System XID}
    (h : (machine env server).Run (machine env server).init l t) :
    SignallingSafe env server l t := by
  have hreach : ∀ p ∈ l, (machine env server).Reachable p.1 :=
    fun p hp ↦ h.reachable_of_mem .init hp
  obtain ⟨os, hledger⟩ := reachable_ledger (Machine.Reachable.init.run h)
  -- a state of the run leads to its end
  have hlater : ∀ p ∈ l, ∀ s', (machine env server).step p.1 p.2 s' →
      ∃ l', (machine env server).Run s' l' t := by
    intro p hp s' hstep
    obtain ⟨u, l', hu, hl'⟩ := h.after_of_mem hp
    exact ⟨l', machine_deterministic hu hstep ▸ hl'⟩
  refine ⟨?_, ?_, ?_, ?_, ?_⟩
  · intro s hs id link hopen
    obtain ⟨r, mode, hopen⟩ := isOpen_iff.mp hopen
    rcases hs with rfl | ⟨a, ha⟩
    · obtain ⟨o, ho, rfl, rfl⟩ := hledger.listed hopen
      exact hledger.announcedOnce ho
    · obtain ⟨u, l', hu, hl'⟩ := h.after_of_mem ha
      obtain ⟨os', hledger'⟩ := reachable_ledger (hreach _ ha)
      have hgrown : s.rooms.world.out <+: t.rooms.world.out :=
        run_out (hreach _ ha) (Machine.Run.cons hu hl')
      obtain ⟨o, ho, rfl, rfl⟩ := hledger'.mem_of_prefix hledger hgrown hopen
      exact hledger.announcedOnce ho
  · intro k m id iceServers hm hout
    have hkind : m.kind = .session := by
      obtain ⟨peer, rfl | rfl⟩ := hout <;> rfl
    obtain ⟨o, ho, hmem⟩ := hledger.mem hm hkind
    obtain rfl := OpenedSession.id_of_mem hmem hout
    exact ⟨o.session, hledger.announcedOnce ho⟩
  · intro k m hm
    refine (run_since .init h hm).resolve_left ?_
    intro hm
    cases hm
  · exact fun p hp s' hstep ↦ signalStep (hreach p hp) hstep
  · intro p hp s' hstep id ⟨link, hopen⟩ hclosed
    obtain ⟨l', hl'⟩ := hlater p hp s' hstep
    obtain ⟨r, mode, hopen⟩ := isOpen_iff.mp hopen
    have hwf := reachable_wf (hreach p hp)
    obtain ⟨n, hn, hid⟩ := hwf.rooms.minted hopen
    have hshut : Shut env id s' s' := by
      refine ⟨?_, ⟨n, hn.trans_le (step_effect hwf hstep).tick, hid⟩, List.prefix_rfl, ?_⟩
      · intro r mode l hopen
        exact hclosed ⟨l, isOpen_iff.mpr ⟨r, mode, hopen⟩⟩
      · intro u m q hm
        rw [since_self] at hm
        cases hm
    exact (hl'.preserves (I := fun t ↦ Shut env id s' t) ((hreach p hp).step hstep) hshut
      fun hu h hst ↦ h.step (reachable_wf hu) hst).quiet

/-- The two ends of a screening exchange an offer and an answer; two numbers stand for them. -/
def negotiation : List (Action ℕ) :=
  screening "turn" ++ [.receive (guest 0) (.hostOffer ⟨17, [0x31]⟩),
    .receive (guest 1) (.clientAnswer ⟨17, [0x32]⟩)]

theorem signalling_safe_negotiation :
    SignallingSafe (Env.sample authModeNone) (.internal ⟨∅⟩)
      (System.history (Env.sample authModeNone) (.internal ⟨∅⟩) negotiation).1
      (System.after (Env.sample authModeNone) (.internal ⟨∅⟩) negotiation) ∧
    (1, .hostOffer ⟨17, [0x31]⟩) ∈
      (System.after (Env.sample authModeNone) (.internal ⟨∅⟩) negotiation).rooms.world.out ∧
    (0, .clientAnswer ⟨17, [0x32]⟩) ∈
      (System.after (Env.sample authModeNone) (.internal ⟨∅⟩) negotiation).rooms.world.out :=
  ⟨signalling_safe (System.run_history _ _ _), by decide +kernel, by decide +kernel⟩

end Screego
