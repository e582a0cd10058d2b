import Screego.Spec.Departure

/-!
# Who is given ICE servers

A session is opened by a `join` or by a `share` that succeeds.  Its ICE servers
are made from the mode of the room and from the addresses that this one message
got from the provider, and they are sent to nobody else.
-/

namespace Screego

open Outgoing World Rooms

variable {XID : Type} [DecidableEq XID] {env : Env XID} {server : Turn.Server}

/-- The session is open under `r`, with ICE servers made from addresses that the provider gave. -/
structure Serves (env : Env XID) (s : Rooms XID) (r : String) (room : Room XID)
    (o : OpenedSession XID) : Prop where
  lookup : s.rooms.lookup r = some room
  session : room.sessions.lookup o.id = some o.session
  made : ∃ n v4 v6, env.turnIPProvider n = .ok (v4, v6) ∧ o.Made env room.mode v4 v6

/-! ## What is in an announcement -/

section Announcement

variable {mode : ConnectionMode} {v4 v6 : IP} {o : OpenedSession XID}

omit [DecidableEq XID] in
theorem OpenedSession.Made.stun (h : o.Made env mode v4 v6) (hmode : mode = connectionSTUN) :
    o.iceHost = [⟨addresses env.config "stun" v4 v6 false, "", ""⟩] ∧
      o.iceClient = [⟨addresses env.config "stun" v4 v6 false, "", ""⟩] := by
  obtain ⟨host, client, w, w', heq⟩ := h
  subst hmode
  rw [Room.iceServers, if_neg (by decide), if_pos rfl, Prod.mk.injEq, Prod.mk.injEq] at heq
  exact ⟨heq.1.symm, heq.2.1.symm⟩

omit [DecidableEq XID] in
/-- In the mode `turn` each end gets the result of one call of `Credentials`. -/
theorem OpenedSession.Made.turn (h : o.Made env mode v4 v6) (hmode : mode = connectionTURN) :
    ∃ (w : World XID) (addr : IP) (w' : World XID) (addr' : IP),
      o.iceHost = [⟨addresses env.config "turn" v4 v6 true,
        (w.credentials env (Room.hostName env o.id) addr).2.1,
        (w.credentials env (Room.hostName env o.id) addr).1⟩] ∧
      o.iceClient = [⟨addresses env.config "turn" v4 v6 true,
        (w'.credentials env (Room.clientName env o.id) addr').2.1,
        (w'.credentials env (Room.clientName env o.id) addr').1⟩] := by
  obtain ⟨host, client, w, w', heq⟩ := h
  subst hmode
  rw [Room.iceServers, if_neg (by decide), if_neg (by decide), if_pos rfl, Prod.mk.injEq,
    Prod.mk.injEq] at heq
  exact ⟨_, _, _, _, heq.1.symm, heq.2.1.symm⟩

omit [DecidableEq XID] in
theorem OpenedSession.Made.other (h : o.Made env mode v4 v6) (hstun : mode ≠ connectionSTUN)
    (hturn : mode ≠ connectionTURN) : o.iceHost = [] ∧ o.iceClient = [] := by
  obtain ⟨host, client, w, w', heq⟩ := h
  rw [Room.iceServers, if_neg hstun, if_neg hturn, ite_self, Prod.mk.injEq, Prod.mk.injEq] at heq
  exact ⟨heq.1.symm, heq.2.1.symm⟩

end Announcement

section Handlers

variable {s s' : Rooms XID} {c : ClientInfo XID} {e : Event XID}

/-- What a message is that opens sessions. -/
theorem Effect.opens (h : Effect env c s e s') {k : XID} {m : Message XID}
    (hm : (k, m) ∈ s.world.since s'.world) (hkind : m.kind = .session) :
    c.id ∈ s'.connected.keys ∧
      ((∃ r room, e.named = some r ∧ s.connected.lookup c.id = some "" ∧
          s.rooms.lookup r = some room ∧ room.bannedIPs.lookup c.addr.toString ≠ some true) ∨
        (e = .startShare ∧ ∃ r room u, s.In c.id r room ∧ room.users.lookup c.id = some u ∧
          u.canShare ∧ ∀ k u, room.users.lookup k = some u → u.streaming → k = c.id)) := by
  have hsession : (k, m) ∈ only .session (s.world.since s'.world) := mem_only.mpr ⟨hm, hkind⟩
  have hquiet {msgs : List (XID × Message XID)} (hsince : s.world.since s'.world = msgs)
      (hnone : only .session msgs = []) : False := by
    rw [hsince, hnone] at hsession
    cases hsession
  cases h with
  | idle hworld => exact (hquiet hworld.since rfl).elim
  | connect => exact (hquiet (since_self _) rfl).elim
  | relay hrelay _ _ _ hworld =>
      refine (hquiet hworld.since ?_).elim
      rw [only_cons_of_ne (by rw [Event.relayed_msg hrelay]; decide)]
      rfl
  | create _ _ _ htold hworld =>
      exact (hquiet hworld.since (htold.ofKind.only_ne (by decide))).elim
  | join hnamed hout hroom hban _ _ _ =>
      exact ⟨by simp, Or.inl ⟨_, _, hnamed, hout, hroom, hban⟩⟩
  | joinFailed _ _ _ _ _ htold htold' hworld =>
      refine (hquiet hworld.since ?_).elim
      rw [only_append, only_cons_of_ne (by simp [Message.kind]), htold.ofKind.only_ne (by decide),
        htold'.ofKind.only_ne (by decide), List.append_nil]
  | haunt _ _ _ _ htold hworld =>
      refine (hquiet hworld.since ?_).elim
      rw [only_append, htold.ofKind.only_ne (by decide)]
      rfl
  | update hin hop hended htold hworld =>
      refine (hquiet hworld.since ?_).elim
      rw [only_append, (hended.ofKind (e.mem_notices c.id)).only_ne (by decide),
        htold.ofKind.only_ne (by decide)]
      rfl
  | share hin huser hcan hfree _ _ _ _ =>
      exact ⟨GoMap.mem_keys_of_lookup hin.connected,
        Or.inr ⟨rfl, _, _, _, hin, huser, hcan, hfree⟩⟩
  | remove _ _ _ _ _ htold hworld =>
      refine (hquiet hworld.since ?_).elim
      rw [only_cons_of_ne (by simp [Message.kind]), htold.ofKind.only_ne (by decide)]
  | leave hin hleft =>
      cases hleft with
      | stay _ hended htold hworld =>
          refine (hquiet hworld.since ?_).elim
          rw [only_cons_of_ne (by simp [Message.kind]), only_append,
            (hended.ofKind fun _ _ _ _ h ↦ h).only_ne (by decide), htold.ofKind.only_ne (by decide)]
          rfl
      | last _ hworld => exact (hquiet hworld.since rfl).elim
  | leaveNowhere _ hworld => exact (hquiet hworld.since rfl).elim
  | dissolve _ _ _ _ hworld =>
      refine (hquiet hworld.since (OfKind.only_ne (κ := .bye) ?_ (by decide))).elim
      intro k m hm
      obtain ⟨k', -, heq⟩ := List.mem_map.mp hm
      rw [← (Prod.mk.inj heq).2]
      rfl

theorem exists_serves {r : String} (room : Room XID) {os : List (OpenedSession XID)}
    {mode : ConnectionMode} (hroom : s.rooms.lookup r = some (room.openSessions os))
    (hmode : room.mode = mode)
    (hids : (os.map OpenedSession.id).Nodup) {n : ℕ} {v4 v6 : IP}
    (hip : env.turnIPProvider n = .ok (v4, v6)) (hmade : ∀ o ∈ os, o.Made env mode v4 v6)
    {k : XID} {m : Message XID} (hm : (k, m) ∈ os.flatMap OpenedSession.messages)
    {msgs : List (XID × Message XID)} (hmsgs : os.flatMap OpenedSession.messages ⊆ msgs) :
    ∃ room' o, Serves env s r room' o ∧ (k, m) ∈ o.messages ∧ o.messages ⊆ msgs := by
  subst hmode
  obtain ⟨o, ho, hm⟩ := List.mem_flatMap.mp hm
  have hsession : (room.openSessions os).sessions.lookup o.id = some o.session :=
    (Room.openSessions_lookup hids).mpr (Or.inl ⟨o, ho, rfl, rfl⟩)
  exact ⟨_, o, ⟨hroom, hsession, n, v4, v6, hip, hmade o ho⟩, hm,
    fun _ hp ↦ hmsgs (List.mem_flatMap.mpr ⟨o, ho, hp⟩)⟩

omit [DecidableEq XID] in
/-- The announcements among messages that are otherwise about rooms. -/
theorem mem_announced {told msgs : List (XID × Message XID)} {os : List (OpenedSession XID)}
    (htold : OfKind .view told) (hmsgs : only .session msgs =
      only .session told ++ os.flatMap OpenedSession.messages ∨ only .session msgs =
      os.flatMap OpenedSession.messages ++ only .session told) {k : XID} {m : Message XID}
    (hm : (k, m) ∈ msgs) (hkind : m.kind = .session) :
    (k, m) ∈ os.flatMap OpenedSession.messages := by
  have hsession : (k, m) ∈ only .session msgs := mem_only.mpr ⟨hm, hkind⟩
  rw [htold.only_ne (by decide)] at hmsgs
  rcases hmsgs with hmsgs | hmsgs
  · rwa [hmsgs, List.nil_append] at hsession
  · rwa [hmsgs, List.append_nil] at hsession

/-- The message asks to enter the room under `r`, if there is one. -/
def Event.AsksFor (r : String) : Event XID → Prop
  | .create e => e.id = r ∧ e.joinIfExist
  | .join e => e.id = r
  | _ => False

/-- Both ways into an open room are a `join`. -/
theorem Event.AsksFor.execute_eq {r : String} (h : e.AsksFor r) {room : Room XID}
    (hout : s.connected.lookup c.id = some "") (hroom : s.rooms.lookup r = some room) :
    ∃ j : Join, j.id = r ∧ e.execute env s c = j.execute env s c := by
  cases e with
  | join j => exact ⟨j, h, rfl⟩
  | create e =>
      obtain ⟨rfl, hjoin⟩ := h
      have hfirst : ¬ s.connectedTo c.id ≠ "" := by
        rw [connectedTo, hout]
        simp
      refine ⟨⟨e.id, e.userName⟩, rfl, ?_⟩
      simp only [Event.execute, Create.execute, if_neg hfirst, hroom, if_pos hjoin]
  | _ => exact h.elim

/-- A message that names an open room asks to enter it, or it is refused. -/
theorem execute_named {r : String} {room : Room XID} (hnamed : e.named = some r)
    (hout : s.connected.lookup c.id = some "") (hroom : s.rooms.lookup r = some room) :
    e.AsksFor r ∨ ∃ err, e.execute env s c = .error err s := by
  by_cases hasks : e.AsksFor r
  · exact Or.inl hasks
  cases e with
  | join j => exact absurd (Option.some.inj hnamed) hasks
  | create e =>
      obtain rfl := Option.some.inj hnamed
      have hfirst : ¬ s.connectedTo c.id ≠ "" := by
        rw [connectedTo, hout]
        simp
      refine Or.inr ⟨"room with id " ++ e.id ++ " does already exist", ?_⟩
      simp only [Event.execute, Create.execute, if_neg hfirst, hroom,
        if_neg fun hjoin ↦ hasks ⟨rfl, hjoin⟩]
  | _ => cases hnamed

/-- A session message comes from a handler that opened the session and announced it. -/
theorem execute_serves (hwf : s.WF env) (hrun : e.execute env s c = .ok s')
    (heffect : Effect env c s e s') {k : XID} {m : Message XID}
    (hm : (k, m) ∈ s.world.since s'.world) (hkind : m.kind = .session) :
    ∃ r room o, Serves env s' r room o ∧ (k, m) ∈ o.messages ∧
      o.messages ⊆ s.world.since s'.world := by
  rcases (heffect.opens hm hkind).2 with ⟨r, room, hnamed, hout, hroom, hban⟩ |
    ⟨rfl, r, room, u, hin, hu, hcan, hfree⟩
  · rcases execute_named hnamed hout hroom with hasks | ⟨err, heq⟩
    · obtain ⟨j, rfl, heq⟩ := hasks.execute_eq hout hroom
      have hwelcome : j.Welcome s c room := ⟨hout, hroom, hban⟩
      obtain ⟨told, htold, hworld⟩ := hwelcome.announced_change hwf
      rw [heq] at hrun
      cases hip : env.turnIPProvider (j.announced env c room s.world).tick with
      | error err =>
          rw [hwelcome.execute_failed hwf hip] at hrun
          cases hrun
      | ok p =>
          obtain ⟨v4, v6⟩ := p
          obtain ⟨os, w, hok, hos, hmade, hchange⟩ := hwelcome.execute_ok hwf hip
          obtain rfl := Outcome.ok.inj (hok.symm.trans hrun)
          rw [(hworld.before hchange).since] at hm ⊢
          have hmem := mem_announced htold.ofKind (Or.inl (by
            rw [only_append, (OpenedSession.ofKind_messages os).only_self])) hm hkind
          exact ⟨_, exists_serves (j.entered env c room s.world)
            (GoMap.lookup_insert_self _ _ _) rfl hos.nodup_ids hip hmade hmem
            (List.subset_append_right _ _)⟩
    · rw [heq] at hrun
      cases hrun
  · cases hip : env.turnIPProvider s.world.tick with
    | error err =>
        rw [Event.execute, startShare_failed hwf hin hu hcan hfree hip] at hrun
        cases hrun
    | ok p =>
        obtain ⟨v4, v6⟩ := p
        obtain ⟨os, told, w, hok, hos, hmade, htold, hchange⟩ :=
          startShare_ok hwf hin hu hcan hfree hip
        obtain rfl := Outcome.ok.inj (hok.symm.trans hrun)
        rw [hchange.since] at hm ⊢
        have hmem := mem_announced htold.ofKind (Or.inr (by
          rw [only_append, (OpenedSession.ofKind_messages os).only_self])) hm hkind
        exact ⟨_, exists_serves (room.startStream c.id) (GoMap.lookup_insert_self _ _ _) rfl
          hos.nodup_ids hip hmade hmem (List.subset_append_left _ _)⟩

end Handlers

/-! ## Steps of the server -/

/-- Whoever is told of a session in a step is told of one that this step opened, and so is the
other end. -/
theorem step_serves {s t : System XID} {a : Action XID} (hwf : s.WF env)
    (h : (machine env server).step s a t) {k : XID} {m : Message XID}
    (hm : (k, m) ∈ s.rooms.world.since t.rooms.world) (hkind : m.kind = .session) :
    ∃ r room o, Serves env t.rooms r room o ∧ (k, m) ∈ o.messages ∧
      o.messages ⊆ s.rooms.world.since t.rooms.world := by
  have heffect := step_effect hwf h
  obtain ⟨hconn, hevent⟩ := heffect.opens hm hkind
  have hregistered : a.event.registered.isSome := by
    rcases hevent with ⟨r, room, hnamed, -⟩ | ⟨he, -⟩
    · generalize a.event = e at hnamed
      cases e <;> first | rfl | cases hnamed
    · rw [he]
      rfl
  obtain ⟨info, e, rfl⟩ : ∃ info e, a = .receive info e := by
    obtain ⟨info, heq⟩ := receive_of_event rfl hregistered
    exact ⟨info, _, heq⟩
  have hc : info.id ∈ s.rooms.connected.keys := by
    rcases hevent with ⟨r, room, -, hout, -⟩ | ⟨-, r, room, u, hin, -⟩
    · exact GoMap.mem_keys_of_lookup hout
    · exact GoMap.mem_keys_of_lookup hin.connected
  have hsettles := event_settles hwf.rooms hc h.1.2
  cases hrun : Event.execute env _ s.rooms info with
  | ok s' =>
      obtain rfl := step_of_execute h hc hrun
      exact execute_serves hwf.rooms hrun heffect hm hkind
  | error err s₁ =>
      -- a handler that fails takes its client out
      rw [step_of_error h hc hrun, executeNoError_connected, GoMap.keys_erase] at hconn
      exact absurd hconn (Finset.notMem_erase _ _)
  | panicked =>
      rw [hrun] at hsettles
      exact hsettles.elim

end Screego
