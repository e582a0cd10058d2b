import Screego.Properties.Grammar
import Screego.Ws.Client

/-!
# Writers that return

A writer returns when it takes a `CloseWriter`, and only then.  The main loop
hands one over to every client that it takes out of the connected map.  From
there on the `CloseWriter` is at one place: still to be handed over, in the
channel, with the writer that returned on it, or dropped.  Nothing makes up for
one that was dropped.
-/

namespace Screego

open Outgoing World Rooms

variable {XID : Type} [DecidableEq XID] {env : Env XID} {server : Turn.Server}

/-! ## One `CloseWriter` for each client that goes -/

/-- How many times the messages tell `k` to close. -/
def byes (k : XID) (msgs : List (XID × Message XID)) : ℕ :=
  (inbox k msgs).countP fun m ↦ m.kind = .bye

section Byes

variable {k k' : XID} {m : Message XID} {msgs msgs' : List (XID × Message XID)}

@[simp] theorem byes_nil : byes k ([] : List (XID × Message XID)) = 0 := rfl

theorem byes_append : byes k (msgs ++ msgs') = byes k msgs + byes k msgs' := by
  rw [byes, inbox_append, List.countP_append]
  rfl

theorem byes_cons :
    byes k ((k', m) :: msgs) = byes k msgs + if k' = k ∧ m.kind = .bye then 1 else 0 := by
  by_cases hk : k' = k
  · subst hk
    simp [byes, List.countP_cons]
  · simp [byes, inbox_cons_of_ne hk, hk]

theorem byes_ofKind {κ : Kind} (h : OfKind κ msgs) (hκ : κ ≠ .bye) : byes k msgs = 0 := by
  rw [byes, List.countP_eq_zero]
  intro m hm
  rw [decide_eq_true_eq]
  exact h.not_bye hκ (mem_inbox.mp hm)

end Byes

section Effect

variable {s s' : Rooms XID} {c : ClientInfo XID} {e : Event XID} {k : XID}
  {connected connected' : GoMap XID String} {msgs : List (XID × Message XID)}

theorem byes_stay (hkeys : connected.keys ⊆ connected'.keys) (hmsgs : byes k msgs = 0) :
    byes k msgs = if k ∈ connected.keys ∧ k ∉ connected'.keys then 1 else 0 := by
  rw [hmsgs, if_neg fun h ↦ h.2 (hkeys h.1)]

theorem byes_erase {t : XID} (ht : t ∈ connected.keys)
    (hmsgs : byes k msgs = if t = k then 1 else 0) :
    byes k msgs = if k ∈ connected.keys ∧ k ∉ (connected.erase t).keys then 1 else 0 := by
  rw [hmsgs, GoMap.keys_erase]
  by_cases hk : t = k
  · subst hk
    simp [ht]
  · rw [if_neg hk, if_neg]
    exact fun h ↦ h.2 (Finset.mem_erase.mpr ⟨Ne.symm hk, h.1⟩)

theorem Effect.byes (h : Effect env c s e s') (hwf : s.WF env) (k : XID) :
    byes k (s.world.since s'.world) =
      if k ∈ s.connected.keys ∧ k ∉ s'.connected.keys then 1 else 0 := by
  have hinsert {connected : GoMap XID String} {r : String} :
      connected.keys ⊆ (connected.insert c.id r).keys := by
    rw [GoMap.keys_insert]
    exact Finset.subset_insert _ _
  cases h with
  | idle hworld =>
      rw [hworld.since]
      exact byes_stay subset_rfl rfl
  | connect =>
      rw [since_self]
      exact byes_stay hinsert rfl
  | relay hrelay _ _ _ hworld =>
      rw [hworld.since]
      refine byes_stay subset_rfl (byes_ofKind (κ := .relay) ?_ (by decide))
      intro k m hm
      rw [(Prod.mk.inj (List.mem_singleton.mp hm)).2, Event.relayed_msg hrelay]
  | create _ _ _ htold hworld =>
      rw [hworld.since]
      exact byes_stay hinsert (byes_ofKind htold.ofKind (by decide))
  | join _ _ _ _ _ htold hworld =>
      rw [hworld.since]
      refine byes_stay hinsert ?_
      rw [byes_append, byes_ofKind htold.ofKind (by decide),
        byes_ofKind (OpenedSession.ofKind_messages _) (by decide)]
  | joinFailed _ hout _ _ _ htold htold' hworld =>
      rw [hworld.since]
      refine byes_erase (GoMap.mem_keys_of_lookup hout) ?_
      rw [byes_append, byes_cons, byes_ofKind htold.ofKind (by decide),
        byes_ofKind htold'.ofKind (by decide)]
      simp [Message.kind]
  | haunt _ hout _ _ htold hworld =>
      rw [hworld.since]
      refine byes_erase (GoMap.mem_keys_of_lookup hout) ?_
      rw [byes_append, byes_cons, byes_ofKind htold.ofKind (by decide)]
      simp [Message.kind]
  | update _ _ hended htold hworld =>
      rw [hworld.since]
      refine byes_stay subset_rfl ?_
      rw [byes_append, byes_ofKind (hended.ofKind (e.mem_notices c.id)) (by decide),
        byes_ofKind htold.ofKind (by decide)]
  | share _ _ _ _ _ _ htold hworld =>
      rw [hworld.since]
      refine byes_stay subset_rfl ?_
      rw [byes_append, byes_ofKind (OpenedSession.ofKind_messages _) (by decide),
        byes_ofKind htold.ofKind (by decide)]
  | remove hin _ _ htarget _ htold hworld =>
      rw [hworld.since]
      have htarget := hwf.in_of_mem hin.ne_empty hin.lookup (GoMap.mem_keys_of_lookup htarget)
      refine byes_erase (GoMap.mem_keys_of_lookup htarget.connected) ?_
      rw [byes_cons, byes_ofKind htold.ofKind (by decide)]
      simp [Message.kind]
  | leave hin hleft =>
      have hc := GoMap.mem_keys_of_lookup hin.connected
      cases hleft with
      | stay _ hended htold hworld =>
          rw [hworld.since]
          refine byes_erase hc ?_
          rw [byes_cons, byes_append, byes_ofKind (hended.ofKind fun _ _ _ _ h ↦ h) (by decide),
            byes_ofKind htold.ofKind (by decide)]
          simp [Message.kind]
      | last _ hworld =>
          rw [hworld.since]
          refine byes_erase hc ?_
          rw [byes_cons]
          simp [Message.kind]
  | leaveNowhere hout hworld =>
      rw [hworld.since]
      refine byes_erase (GoMap.mem_keys_of_lookup hout) ?_
      rw [byes_cons]
      simp [Message.kind]
  | @dissolve r room ks _ hin _ hnodup hks hworld =>
      rw [hworld.since]
      have hkeys : k ∈ (s.connected.filter fun k _ ↦ k ∉ room.users.keys).keys ↔
          k ∈ s.connected.keys ∧ k ∉ room.users.keys := by
        simp only [GoMap.mem_keys, GoMap.lookup_filter_eq_some]
        exact exists_and_right
      by_cases hk : k ∈ room.users.keys
      · have hconn := (hwf.in_of_mem hin.ne_empty hin.lookup hk).connected
        rw [if_pos ⟨GoMap.mem_keys_of_lookup hconn, fun h ↦ (hkeys.mp h).2 hk⟩, Screego.byes,
          inbox_map hnodup ((hks k).mpr hk)
            fun _ ↦ .closeWriter closeNormalClosure "Room Dissolved"]
        rfl
      · rw [if_neg fun h ↦ h.2 (hkeys.mpr ⟨h.1, hk⟩), Screego.byes, inbox_eq_nil fun m hm ↦ hk ?_]
        · rfl
        · obtain ⟨k', hk', heq⟩ := List.mem_map.mp hm
          rw [← (Prod.mk.inj heq).1]
          exact (hks k').mp hk'

end Effect

/-! ## Where it is -/

/-- The `CloseWriter` in the channel, or the one that the writer returned on. -/
def Client.farewells (c : Client XID) : ℕ :=
  (if c.write.any fun m ↦ m.kind = .bye then 1 else 0) + if c.writer = .returned then 1 else 0

/-- The client whose `CloseWriter` the move drops. -/
def Processes.loses (p : Processes XID) : Move XID → Option XID
  | .timeOut =>
      match p.handing with
      | (k, .closeWriter _ _) :: _ => some k
      | _ => none
  | _ => none

/-- The `CloseWriter` of a client that was connected once is at one place, `n` of them having been
dropped. -/
def Processes.Accounted (p : Processes XID) (k : XID) (n : ℕ) : Prop :=
  byes k p.handing + (p.client k).farewells + n +
    (if k ∈ p.system.rooms.connected.keys then 1 else 0) =
      if k ∈ p.system.clients.map ClientInfo.id then 1 else 0

section Client

variable {c c' : Client XID}

omit [DecidableEq XID]

theorem closeOnError_farewells (code : ℤ) (reason : String) (c : Client XID) :
    (c.closeOnError code reason).farewells = c.farewells := by
  unfold Client.closeOnError
  split <;> rfl

theorem read_farewells {incoming : Frame XID} (h : c.read incoming = some c') :
    c'.farewells = c.farewells := by
  unfold Client.read at h
  split at h
  · obtain rfl := Option.some.inj h
    rfl
  · cases h

theorem readError_farewells {code : ℤ} {reason : String} (h : c.readError code reason = some c') :
    c'.farewells = c.farewells := by
  unfold Client.readError at h
  split at h
  · obtain rfl := Option.some.inj h
    exact closeOnError_farewells code reason c
  · cases h

theorem ping_farewells {err : Option String} (h : c.ping err = some c') :
    c'.farewells = c.farewells := by
  unfold Client.ping at h
  split at h
  · exact congrArg Client.farewells (Option.some.inj h).symm
  · obtain rfl := Option.some.inj h
    exact closeOnError_farewells _ _ c
  · cases h

/-- A message other than `CloseWriter` leaves the writer in its loop. -/
theorem writeMessage_other {m : Message XID} {err : Option String} (hwriter : c.writer = .running)
    (hwrite : c.write = some m) (hkind : m.kind ≠ .bye) (h : c.writeMessage err = some c') :
    c'.farewells = ({ c with write := none } : Client XID).farewells := by
  obtain ⟨closed, once, reader, writer, posted, write⟩ := c
  subst hwriter hwrite
  cases m with
  | closeWriter code reason => exact absurd rfl hkind
  | _ =>
      simp only [Client.writeMessage] at h
      cases err with
      | none =>
          obtain rfl := Option.some.inj h
          rfl
      | some reason =>
          obtain rfl := Option.some.inj h
          exact closeOnError_farewells _ _ _

/-- The writer returns on a `CloseWriter` and on nothing else. -/
theorem writeMessage_farewells {err : Option String} (h : c.writeMessage err = some c') :
    c'.farewells = c.farewells := by
  cases hwriter : c.writer with
  | returned =>
      simp only [Client.writeMessage, hwriter] at h
      cases h
  | running =>
      cases hwrite : c.write with
      | none =>
          simp only [Client.writeMessage, hwriter, hwrite] at h
          cases h
      | some m =>
          by_cases hkind : m.kind = .bye
          · cases m with
            | closeWriter code reason =>
                simp only [Client.writeMessage, hwriter, hwrite] at h
                obtain rfl := Option.some.inj h
                simp [Client.farewells, hwriter, hwrite, Message.kind]
            | _ => cases hkind
          · rw [writeMessage_other hwriter hwrite hkind h]
            simp [Client.farewells, hwrite, hkind]

theorem accept_farewells {msg : Message XID} (h : c.accept msg = some c') :
    c'.farewells = c.farewells + if msg.kind = .bye then 1 else 0 := by
  unfold Client.accept at h
  split at h
  · next hwrite =>
      obtain rfl := Option.some.inj h
      simp [Client.farewells, hwrite, add_comm]
  · cases h

end Client

section Step

variable {p p' : Processes XID} {m : Move XID} {k : XID} {n : ℕ}

theorem main_eq (server : Turn.Server) {a : Action XID} (h : p.main env a = some p') :
    (machine env server).step p.system a p'.system ∧ p.handing = [] ∧ p'.client = p.client ∧
      p'.handing = p.system.rooms.world.since p'.system.rooms.world := by
  unfold Processes.main at h
  split at h
  · next hidle =>
      obtain ⟨t, ht, rfl⟩ := Option.map_eq_some_iff.mp h
      exact ⟨⟨hidle.2, ht⟩, hidle.1, rfl, rfl⟩
  · cases h

theorem update_eq {j : XID} {f : Client XID → Option (Client XID)}
    (h : p.update j f = some p') : ∃ c, f (p.client j) = some c ∧
      p' = { p with client := Function.update p.client j c } := by
  obtain ⟨c, hc, rfl⟩ := Option.map_eq_some_iff.mp h
  exact ⟨c, hc, rfl⟩

theorem started_eq {j : XID} {f : Client XID → Option (Client XID)}
    (h : p.started j f = some p') : p.update j f = some p' := by
  unfold Processes.started at h
  split at h
  · exact h
  · cases h

/-- The main loop takes one action or none, and an event of a client from its reader. -/
theorem next_system (server : Turn.Server) (h : p.next env m = some p') :
    p'.system = p.system ∨ ∃ a, (machine env server).step p.system a p'.system ∧
      (a.event.registered = none ∨ ∃ j incoming,
        (p.client j).reader = .posting incoming ∧ a.event = incoming.val) := by
  have hupdate {j : XID} {f : Client XID → Option (Client XID)} {q : Processes XID}
      (h : q.update j f = some p') : p'.system = q.system := by
    obtain ⟨c, -, rfl⟩ := update_eq h
    rfl
  cases m with
  | dial authenticated authenticatedUser addr =>
      simp only [Processes.next] at h
      obtain ⟨t, ht, rfl⟩ := Option.map_eq_some_iff.mp h
      exact Or.inr ⟨.dial authenticated authenticatedUser addr, ⟨trivial, ht⟩, Or.inl rfl⟩
  | connect info => exact Or.inr ⟨_, (main_eq server h).1, Or.inl rfl⟩
  | health => exact Or.inr ⟨_, (main_eq server h).1, Or.inl rfl⟩
  | takeFrame info =>
      simp only [Processes.next] at h
      split at h
      · next incoming hposting =>
          obtain ⟨q, hq, h⟩ := Option.bind_eq_some_iff.mp h
          rw [hupdate h]
          exact Or.inr ⟨_, (main_eq server hq).1, Or.inr ⟨info.id, incoming, hposting, rfl⟩⟩
      · cases h
  | takeError info =>
      simp only [Processes.next] at h
      split at h
      · obtain ⟨q, hq, h⟩ := Option.bind_eq_some_iff.mp h
        rw [hupdate h]
        exact Or.inr ⟨_, (main_eq server hq).1, Or.inl rfl⟩
      · cases h
  | read j incoming => exact Or.inl (hupdate (started_eq h))
  | readError j code reason => exact Or.inl (hupdate (started_eq h))
  | write j err => exact Or.inl (hupdate (started_eq h))
  | ping j err => exact Or.inl (hupdate (started_eq h))
  | lose j =>
      simp only [Processes.next] at h
      exact Or.inl (hupdate h)
  | handOver =>
      simp only [Processes.next] at h
      split at h
      · cases h
      · exact Or.inl ((hupdate h).trans rfl)
  | timeOut =>
      simp only [Processes.next] at h
      split at h
      · cases h
      · obtain rfl := Option.some.inj h
        exact Or.inl rfl

theorem reachable_system (h : (processes env server).Reachable p) :
    (machine env server).Reachable p.system := by
  refine h.invariant (I := fun p ↦ (machine env server).Reachable p.system) .init ?_
  intro p p' m _ hreach hstep
  rcases next_system server hstep with heq | ⟨a, ha, -⟩
  · rw [heq]
    exact hreach
  · exact hreach.step ha

theorem Processes.Accounted.update (h : p.Accounted k n) {j : XID}
    {f : Client XID → Option (Client XID)} (hupdate : p.update j f = some p')
    (hf : ∀ {c c'}, f c = some c' → c'.farewells = c.farewells) : p'.Accounted k n := by
  obtain ⟨c, hc, rfl⟩ := update_eq hupdate
  have hkept : (Function.update p.client j c k).farewells = (p.client k).farewells := by
    by_cases hk : k = j
    · subst hk
      rw [Function.update_self]
      exact hf hc
    · rw [Function.update_of_ne hk]
  rw [Processes.Accounted] at h ⊢
  rw [← h, ← hkept]

/-- The main loop owes a `CloseWriter` to whom it takes out of the connected map. -/
theorem Processes.Accounted.main (h : p.Accounted k n) (hwf : p.system.WF env) {a : Action XID}
    (hmain : p.main env a = some p') : p'.Accounted k n := by
  obtain ⟨hstep, hidle, hclient, hhanding⟩ := main_eq (.internal ⟨∅⟩) hmain
  have heffect := step_effect hwf hstep
  have hbyes := heffect.byes hwf.rooms k
  rw [Processes.Accounted] at h ⊢
  rw [hidle, byes_nil] at h
  rw [hhanding, hbyes, hclient]
  by_cases hconnect : ∃ info, a = .connect info ∧ info.id = k
  · obtain ⟨info, rfl, rfl⟩ := hconnect
    have hunknown : info.id ∉ p.system.clients.map ClientInfo.id := fun hmem ↦
      not_dialing hwf hmem info hstep.1 rfl
    have hout : info.id ∉ p.system.rooms.connected.keys := by
      intro hconn
      obtain ⟨c, hc, hid⟩ := hwf.known _ hconn
      exact hunknown (List.mem_map.mpr ⟨c, hc, hid⟩)
    rw [if_neg hout, if_neg hunknown] at h
    rw [connect_eq hstep]
    simp [hout]
    omega
  · have hclients := step_clients_iff hstep hconnect
    have hkeys : k ∈ p'.system.rooms.connected.keys → k ∈ p.system.rooms.connected.keys := by
      intro hk
      refine (heffect.connected_keys hk).resolve_right fun hnew ↦ ?_
      obtain ⟨info, rfl⟩ := connect_of_event hstep hnew.1
      exact hconnect ⟨info, rfl, hnew.2.symm⟩
    simp only [hclients]
    by_cases hin : k ∈ p.system.rooms.connected.keys
    · by_cases hin' : k ∈ p'.system.rooms.connected.keys
      · simpa [hin, hin'] using h
      · rw [if_pos hin] at h
        rw [if_pos ⟨hin, hin'⟩, if_neg hin']
        omega
    · have hin' := mt hkeys hin
      simpa [hin, hin'] using h

omit [DecidableEq XID] in
theorem loses_timeOut {j : XID} {msg : Message XID} {rest : List (XID × Message XID)}
    (h : p.handing = (j, msg) :: rest) :
    p.loses .timeOut = some k ↔ j = k ∧ msg.kind = .bye := by
  simp only [Processes.loses, h]
  cases msg <;> simp [Message.kind]

/-- A move keeps the account, and enters what it drops. -/
theorem Processes.Accounted.step (h : p.Accounted k n) (hwf : p.system.WF env)
    (hnext : p.next env m = some p') :
    p'.Accounted k (n + if p.loses m = some k then 1 else 0) := by
  cases m with
  | dial authenticated authenticatedUser addr =>
      simp only [Processes.next] at hnext
      obtain ⟨t, ht, rfl⟩ := Option.map_eq_some_iff.mp hnext
      obtain rfl := Option.some.inj ht
      exact h
  | connect info => exact h.main hwf hnext
  | health => exact h.main hwf hnext
  | read j incoming => exact h.update (started_eq hnext) read_farewells
  | readError j code reason => exact h.update (started_eq hnext) readError_farewells
  | write j err => exact h.update (started_eq hnext) writeMessage_farewells
  | ping j err => exact h.update (started_eq hnext) ping_farewells
  | lose j =>
      simp only [Processes.next] at hnext
      refine h.update hnext fun hc ↦ ?_
      obtain rfl := Option.some.inj hc
      rfl
  | takeFrame info =>
      simp only [Processes.next] at hnext
      split at hnext
      · obtain ⟨q, hq, hnext⟩ := Option.bind_eq_some_iff.mp hnext
        refine (h.main hwf hq).update hnext fun hc ↦ ?_
        obtain rfl := Option.some.inj hc
        rfl
      · cases hnext
  | takeError info =>
      simp only [Processes.next] at hnext
      split at hnext
      · obtain ⟨q, hq, hnext⟩ := Option.bind_eq_some_iff.mp hnext
        refine (h.main hwf hq).update hnext fun hc ↦ ?_
        obtain rfl := Option.some.inj hc
        rfl
      · cases hnext
  | handOver =>
      simp only [Processes.next] at hnext
      split at hnext
      · cases hnext
      · next j msg rest hhanding =>
          -- from the list into the channel
          obtain ⟨c, hc, rfl⟩ := update_eq hnext
          rw [Processes.Accounted, hhanding, byes_cons] at h
          have hgot : (Function.update p.client j c k).farewells =
              (p.client k).farewells + if j = k ∧ msg.kind = .bye then 1 else 0 := by
            by_cases hk : j = k
            · subst hk
              rw [Function.update_self, accept_farewells hc]
              simp
            · rw [Function.update_of_ne (Ne.symm hk), if_neg fun h ↦ hk h.1, add_zero]
          simp only [Processes.Accounted, Processes.loses, hgot]
          simp only [reduceCtorEq, if_false]
          omega
  | timeOut =>
      simp only [Processes.next] at hnext
      split at hnext
      · cases hnext
      · next first rest hhanding =>
          obtain ⟨j, msg⟩ := first
          obtain rfl := Option.some.inj hnext
          rw [Processes.Accounted, hhanding, byes_cons] at h
          simp only [Processes.Accounted, loses_timeOut hhanding]
          omega

end Step

/-! ## Runs -/

/-- A message from the client `k` or to it is under way. -/
def Processes.InFlight (p : Processes XID) (k : XID) : Prop :=
  k ∈ p.system.dialing.map ClientInfo.id ∨ (∃ e, (p.client k).reader = .posting e) ∨
    (p.client k).posted.isSome ∨ (p.client k).write.isSome ∨ ∃ m, (k, m) ∈ p.handing

/-- The writer of a client has returned, once its websocket is closed, the main loop has forgotten
it, and nothing is under way. -/
def NoStranded (p : Processes XID) : Prop :=
  ∀ info ∈ p.system.clients, (p.client info.id).closed →
    info.id ∉ p.system.rooms.connected.keys → ¬ p.InFlight info.id →
      (p.client info.id).writer = .returned

section Run

variable {p : Processes XID} {l : List (Processes XID × Move XID)} {k : XID}

/-- How many times the run drops the `CloseWriter` of `k`. -/
def losses (k : XID) (l : List (Processes XID × Move XID)) : ℕ :=
  l.countP fun q ↦ q.1.loses q.2 = some k

theorem losses_eq_zero : losses k l = 0 ↔ ∀ q ∈ l, q.1.loses q.2 ≠ some k := by
  simp [losses, List.countP_eq_zero]

theorem run_accounted (h : (processes env server).Run (processes env server).init l p) (k : XID) :
    p.Accounted k (losses k l) := by
  induction h with
  | nil => rfl
  | @snoc l p p' m hrun hstep ih =>
      have hwf := reachable_wf (reachable_system ⟨l, hrun⟩)
      have hstep := ih.step hwf hstep
      rw [losses, List.countP_append, List.countP_singleton]
      simpa [losses] using hstep

/-- A client that is gone and quiet: its writer has returned unless its `CloseWriter` was
dropped. -/
theorem returned_iff (h : (processes env server).Run (processes env server).init l p)
    {info : ClientInfo XID} (hinfo : info ∈ p.system.clients)
    (hgone : info.id ∉ p.system.rooms.connected.keys) (hquiet : ¬ p.InFlight info.id) :
    (p.client info.id).writer = .returned ↔ ∀ q ∈ l, q.1.loses q.2 ≠ some info.id := by
  have haccount := run_accounted h info.id
  simp only [Processes.InFlight, not_or, not_exists, Bool.not_eq_true,
    Option.isSome_eq_false_iff, Option.isNone_iff_eq_none] at hquiet
  obtain ⟨-, -, -, hwrite, hhanding⟩ := hquiet
  rw [Processes.Accounted, if_neg hgone, if_pos (List.mem_map.mpr ⟨info, hinfo, rfl⟩), byes,
    inbox_eq_nil hhanding, Client.farewells, hwrite] at haccount
  rw [← losses_eq_zero]
  by_cases hreturned : (p.client info.id).writer = .returned
  · simp [hreturned] at haccount
    simp [hreturned, haccount]
  · simp [hreturned] at haccount
    simp [hreturned, haccount]

end Run

/-- As long as no `CloseWriter` is dropped, no writer is left behind; and a client whose
`CloseWriter` was dropped leaves one behind for good. -/
theorem writers_return {l : List (Processes XID × Move XID)} {p : Processes XID}
    (h : (processes env server).Run (processes env server).init l p) :
    ((∀ q ∈ l, q.1.loses q.2 = none) → (∀ q ∈ l, NoStranded q.1) ∧ NoStranded p) ∧
      ∀ info ∈ p.system.clients, info.id ∉ p.system.rooms.connected.keys →
        ¬ p.InFlight info.id →
        ((p.client info.id).writer = .returned ↔ ∀ q ∈ l, q.1.loses q.2 ≠ some info.id) := by
  have hnone {l : List (Processes XID × Move XID)} {p : Processes XID}
      (h : (processes env server).Run (processes env server).init l p)
      (hl : ∀ q ∈ l, q.1.loses q.2 = none) : NoStranded p := by
    intro info hinfo _ hgone hquiet
    refine (returned_iff h hinfo hgone hquiet).mpr fun q hq ↦ ?_
    rw [hl q hq]
    exact nofun
  refine ⟨fun hl ↦ ⟨fun q hq ↦ ?_, hnone h hl⟩, fun info hinfo hgone hquiet ↦
    returned_iff h hinfo hgone hquiet⟩
  obtain ⟨l', hl', hsub⟩ := h.upto_of_mem hq
  exact hnone hl' fun q hq ↦ hl q (hsub hq)

/-- Two clients meet, and what they are told reaches the first of them. -/
def encounter : List (Move ℕ) :=
  [.dial false "" [127, 0, 0, 1], .dial false "" [127, 0, 0, 1], .connect (guest 0),
    .connect (guest 1), .read 0 ⟨.create ⟨"lobby", "local", false, "", false⟩, rfl⟩,
    .takeFrame (guest 0), .handOver, .write 0 none, .read 1 ⟨.join ⟨"lobby", ""⟩, rfl⟩,
    .takeFrame (guest 1), .handOver, .handOver, .write 0 none]

/-- The first client kicks the second. -/
def kicking : List (Move ℕ) :=
  [.read 0 ⟨.ownerAction ⟨"kick", "00000000000000000001"⟩, rfl⟩, .takeFrame (guest 0)]

/-- What a script makes of the server. -/
def Processes.after (script : List (Move ℕ)) :
    List (Processes ℕ × Move ℕ) × Processes ℕ :=
  Machine.history (processes (Env.sample authModeNone) (.internal ⟨∅⟩)).init
    (Processes.next (Env.sample authModeNone)) script

theorem Processes.run_after (script : List (Move ℕ)) :
    (processes (Env.sample authModeNone) (.internal ⟨∅⟩)).Run
      (processes (Env.sample authModeNone) (.internal ⟨∅⟩)).init (Processes.after script).1
      (Processes.after script).2 :=
  Machine.run_history _ _ _

/-- The second client has made room in its channel, and takes the `CloseWriter` as well. -/
theorem writers_return_kicking : NoStranded (Processes.after (encounter ++ [.write 1 none] ++
    kicking ++ [.handOver, .handOver, .write 1 none, .readError 1 1000 "read error"])).2 :=
  ((writers_return (Processes.run_after _)).1 (by decide +kernel)).2

/-- The channel of the second client is still full when it is kicked; then its connection fails. -/
def jamming : List (Move ℕ) :=
  encounter ++ kicking ++ [.timeOut, .handOver, .write 0 none, .write 1 (some "write error"),
    .readError 1 1000 "read error", .takeError (guest 1)]

theorem writer_stranded :
    ¬ ∀ p, (processes (Env.sample authModeNone) (.internal ⟨∅⟩)).Reachable p → NoStranded p := by
  intro h
  have hreach : (processes (Env.sample authModeNone) (.internal ⟨∅⟩)).Reachable
      (Processes.after jamming).2 := ⟨_, Processes.run_after jamming⟩
  have hquiet : ¬ (Processes.after jamming).2.InFlight 1 := by
    have hreader : ((Processes.after jamming).2.client 1).reader = .returned := by decide +kernel
    have hhanding : (Processes.after jamming).2.handing = [] := by decide +kernel
    rintro (hdialing | ⟨e, hposting⟩ | hposted | hwrite | ⟨m, hm⟩)
    · exact absurd hdialing (by decide +kernel)
    · rw [hreader] at hposting
      cases hposting
    · exact absurd hposted (by decide +kernel)
    · exact absurd hwrite (by decide +kernel)
    · rw [hhanding] at hm
      cases hm
  have hreturned := h _ hreach (guest 1) (by decide +kernel) (by decide +kernel)
    (by decide +kernel) hquiet
  exact absurd hreturned (by decide +kernel)

end Screego
