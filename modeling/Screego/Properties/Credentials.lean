import Screego.Spec.Ledger

/-!
# TURN credentials and sessions

The internal TURN server accepts exactly the usernames of the open sessions of
rooms in the mode `turn`, so a username that was handed out works as long as its
session does.
-/

namespace Screego

open Outgoing World Rooms

variable {XID : Type} [DecidableEq XID] {env : Env XID} {s s' : Rooms XID}

/-- The server accepts the usernames of the open sessions that relay through it. -/
structure Accepts (env : Env XID) (s : Rooms XID) : Prop where
  internal : s.world.turnServer.IsInternal
  entry_iff : ∀ name, (s.world.turnServer.entry name).isSome ↔
    ∃ r id l, Open s.rooms r connectionTURN id l ∧ IsNameOf env id name

theorem accepts_newRooms : Accepts env (newRooms (.internal ⟨∅⟩) : Rooms XID) where
  internal := trivial
  entry_iff := by simp [newRooms, Open, Turn.Server.entry]

/-- Sessions that start are let in, sessions that end are shut out, and the rest is kept. -/
theorem Accepts.turnover {r : String} {mode : ConnectionMode} {dead : Finset XID}
    {os : List (OpenedSession XID)} (h : Accepts env s) (hwf : s.WF env)
    (hturn : Turnover env s s' r mode dead os) : Accepts env s' := by
  obtain ⟨d, msgs, hchange⟩ := hturn.change
  have hborn : ∀ id, id ∈ (os.map OpenedSession.id).toFinset ↔ ∃ o ∈ os, o.id = id := by
    simp
  refine ⟨hchange.internal.mpr h.internal, fun name ↦ ?_⟩
  constructor
  · intro hsome
    by_cases hstart : mode = connectionTURN ∧ ∃ o ∈ os, IsNameOf env o.id name
    · obtain ⟨rfl, o, ho, hname⟩ := hstart
      exact ⟨r, o.id, o.session, (hturn.open_iff _ _ _ _).mpr (Or.inr ⟨rfl, rfl, o, ho, rfl, rfl⟩),
        hname⟩
    by_cases hend : mode = connectionTURN ∧ ∃ id ∈ dead, IsNameOf env id name
    · obtain ⟨hmode, id, hid, hname⟩ := hend
      have hnot : id ∉ (os.map OpenedSession.id).toFinset := by
        intro hmem
        obtain ⟨o, ho, rfl⟩ := (hborn id).mp hmem
        exact hstart ⟨hmode, o, ho, hname⟩
      rw [hchange.withdrawn hmode id hid hnot name hname] at hsome
      cases hsome
    -- the username is not about this step
    rw [hchange.kept name] at hsome
    · obtain ⟨r', id, l, hopen, hname⟩ := (h.entry_iff name).mp hsome
      refine ⟨r', id, l, (hturn.open_iff _ _ _ _).mpr (Or.inl ⟨hopen, fun hid ↦ hend ?_⟩), hname⟩
      obtain ⟨l', hopen'⟩ := hturn.dead_open id hid
      exact ⟨hwf.mode_unique hopen' hopen, id, hid, hname⟩
    · intro hmode id hid hname
      rcases Finset.mem_union.mp hid with hid | hid
      · exact hend ⟨hmode, id, hid, hname⟩
      · obtain ⟨o, ho, rfl⟩ := (hborn id).mp hid
        exact hstart ⟨hmode, o, ho, hname⟩
  · rintro ⟨r', id, l, hopen, hname⟩
    rcases (hturn.open_iff _ _ _ _).mp hopen with ⟨hold, hid⟩ | ⟨-, hmode, o, ho, rfl, -⟩
    · rw [hchange.kept name]
      · exact (h.entry_iff name).mpr ⟨r', id, l, hold, hname⟩
      · intro _ id' hid' hname'
        obtain rfl := hname'.unique hname
        rcases Finset.mem_union.mp hid' with hid' | hid'
        · exact hid hid'
        · obtain ⟨o, ho, rfl⟩ := (hborn id').mp hid'
          exact hturn.born_unused hwf ho hold
    · exact hchange.granted h.internal hmode.symm o.id ((hborn o.id).mpr ⟨o, ho, rfl⟩) name hname

theorem reachable_accepts {t : System XID}
    (h : (machine env (.internal ⟨∅⟩)).Reachable t) : Accepts env t.rooms := by
  refine reachable_invariant (J := fun s ↦ Accepts env s) h accepts_newRooms ?_
  intro s s' c e hwf haccepts heffect
  obtain ⟨r, mode, dead, os, hturn⟩ := heffect.turnover hwf
  exact haccepts.turnover hwf hturn

/-! ## Usernames that were handed out -/

/-- What the internal TURN server knows in a state. -/
structure CredentialsTrack (env : Env XID) (s : Rooms XID) (a : Turn.InternalServer) : Prop where
  turnServer : s.world.turnServer = .internal a
  usernames : ∀ name, name ∈ a.lookup.keys ↔ ∃ r room id, s.rooms.lookup r = some room ∧
    room.mode = connectionTURN ∧ id ∈ room.sessions.keys ∧
    (name = env.xid.toString id ++ "host" ∨ name = env.xid.toString id ++ "client")
  authenticates : ∀ k m id iceServers, (k, m) ∈ s.world.out → m.HandsOut id iceServers →
    ∀ srv ∈ iceServers, srv.username ≠ "" → ((a.authenticate srv.username).isSome ↔
      ∃ r room, s.rooms.lookup r = some room ∧ id ∈ room.sessions.keys)

theorem Ledger.username {os : List (OpenedSession XID)} (h : Ledger env s os)
    (hint : s.world.turnServer.IsInternal) {k id : XID} {m : Message XID}
    {iceServers : List ICEServer} (hm : (k, m) ∈ s.world.out) (hout : m.HandsOut id iceServers)
    {srv : ICEServer} (hsrv : srv ∈ iceServers) (hne : srv.username ≠ "") :
    IsNameOf env id srv.username ∧ ∀ r mode l, Open s.rooms r mode id l →
      mode = connectionTURN := by
  obtain ⟨peer, hout⟩ := hout
  have hsession : m.kind = .session := by
    rcases hout with rfl | rfl <;> rfl
  obtain ⟨o, ho, hmem⟩ := h.mem hm hsession
  obtain ⟨mode, ⟨hhost, hclient⟩, hmode⟩ := h.names hint o ho
  rcases OpenedSession.mem_messages.mp hmem with ⟨-, heq⟩ | ⟨-, heq⟩
  · rcases hout with rfl | rfl
    · obtain ⟨rfl, -, rfl⟩ := Message.hostSession.inj heq
      obtain ⟨rfl, hname⟩ := (hhost srv hsrv).resolve_left hne
      exact ⟨Or.inl hname, hmode⟩
    · cases heq
  · rcases hout with rfl | rfl
    · cases heq
    · obtain ⟨rfl, -, rfl⟩ := Message.clientSession.inj heq
      obtain ⟨rfl, hname⟩ := (hclient srv hsrv).resolve_left hne
      exact ⟨Or.inr hname, hmode⟩

theorem credentials_track {t : System XID} (h : (machine env (.internal ⟨∅⟩)).Reachable t) :
    ∃ a, CredentialsTrack env t.rooms a := by
  obtain ⟨hint, hentry⟩ := reachable_accepts h
  obtain ⟨os, hledger⟩ := reachable_ledger h
  cases ha : t.rooms.world.turnServer with
  | external a =>
      rw [ha] at hint
      exact hint.elim
  | internal a =>
      have husername : ∀ name, name ∈ a.lookup.keys ↔
          ∃ r id l, Open t.rooms.rooms r connectionTURN id l ∧ IsNameOf env id name := by
        intro name
        rw [← hentry name, ha, GoMap.mem_keys, Turn.Server.entry, Option.isSome_iff_exists]
      refine ⟨a, ha, ?_, ?_⟩
      · intro name
        rw [husername name]
        constructor
        · rintro ⟨r, id, l, ⟨room, hroom, hmode, hl⟩, hname⟩
          exact ⟨r, room, id, hroom, hmode, GoMap.mem_keys_of_lookup hl, hname⟩
        · rintro ⟨r, room, id, hroom, hmode, hid, hname⟩
          obtain ⟨l, hl⟩ := GoMap.mem_keys.mp hid
          exact ⟨r, id, l, ⟨room, hroom, hmode, hl⟩, hname⟩
      · intro k m id iceServers hm hout srv hsrv hne
        obtain ⟨hname, hmode⟩ := hledger.username hint hm hout hsrv hne
        rw [Turn.InternalServer.authenticate_isSome, husername]
        constructor
        · rintro ⟨r, id', l, ⟨room, hroom, -, hl⟩, hname'⟩
          obtain rfl := hname'.unique hname
          exact ⟨r, room, hroom, GoMap.mem_keys_of_lookup hl⟩
        · rintro ⟨r, room, hroom, hid⟩
          obtain ⟨l, hl⟩ := GoMap.mem_keys.mp hid
          have hopen : Open t.rooms.rooms r room.mode id l := ⟨room, hroom, rfl, hl⟩
          exact ⟨r, id, l, hmode r _ l hopen ▸ hopen, hname⟩

theorem credentials_track_screening : ∃ a, CredentialsTrack (Env.sample authModeNone)
    (System.after (Env.sample authModeNone) (.internal ⟨∅⟩) (screening "turn")).rooms a :=
  credentials_track (System.reachable_after _ _ _)

end Screego
