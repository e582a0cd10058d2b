import Screego.Spec.Refinement

/-!
# Who is in which room

The main loop keeps membership twice: in the connected map and in the user maps
of the rooms.  The two agree in every state without a room of the empty id, for
the empty string also says that a connection is in no room.  A `create` can open
such a room, and its members are listed but cannot find it.
-/

namespace Screego

open Outgoing World Rooms

variable {XID : Type} [DecidableEq XID] {env : Env XID} {server : Turn.Server}

/-- Listed members and connected clients agree. -/
structure Agreement (env : Env XID) (s : Rooms XID) : Prop where
  listed_iff : ∀ (info : ClientInfo XID) r, Member s.rooms info.id r ↔
    info.id ∈ s.connected.keys ∧
      ∃ room, s.rooms.lookup r = some room ∧ s.currentRoom info = .ok (r, room)
  unique : ∀ k r r', Member s.rooms k r → Member s.rooms k r' → r = r'
  leaves : ∀ (info : ClientInfo XID) (d : Disconnected) r, Member s.rooms info.id r →
    ¬ Member (d.executeNoError env s info).rooms info.id r
  id_eq : ∀ r room, s.rooms.lookup r = some room → room.id = r

theorem agreement_iff {s : Rooms XID} (hwf : s.WF env) :
    Agreement env s ↔ s.rooms.lookup "" = none := by
  constructor
  · intro h
    rw [Option.eq_none_iff_forall_ne_some]
    intro room hroom
    obtain ⟨k, hk⟩ := (hwf.sound "" room hroom).nonempty
    let info : ClientInfo XID := ⟨k, false, "", []⟩
    obtain ⟨-, room', -, hcurrent⟩ := (h.listed_iff info "").mp ⟨room, hroom, hk⟩
    exact (in_of_currentRoom hcurrent).ne_empty rfl
  · intro hnone
    have hne : ∀ k r, Member s.rooms k r → r ≠ "" := by
      rintro k r ⟨room, hroom, -⟩ rfl
      rw [hnone] at hroom
      cases hroom
    have hin : ∀ k r, Member s.rooms k r → ∃ room, s.In k r room := by
      rintro k r ⟨room, hroom, hk⟩
      exact ⟨room, hwf.in_of_mem (hne k r ⟨room, hroom, hk⟩) hroom hk⟩
    refine ⟨?_, ?_, ?_, fun r room hroom ↦ (hwf.sound r room hroom).id_eq⟩
    · intro info r
      constructor
      · intro hmem
        obtain ⟨room, hin⟩ := hin info.id r hmem
        exact ⟨GoMap.mem_keys_of_lookup hin.connected, room, hin.lookup, currentRoom_of_in hin⟩
      · rintro ⟨-, room, -, hcurrent⟩
        have hin := in_of_currentRoom hcurrent
        exact ⟨room, hin.lookup, hin.member hwf⟩
    · intro k r r' hmem hmem'
      have hconn := (hwf.linked k r (hne k r hmem)).mpr hmem
      rw [(hwf.linked k r' (hne k r' hmem')).mpr hmem'] at hconn
      exact (Option.some.inj hconn).symm
    · intro info d r hmem
      obtain ⟨room, hin⟩ := hin info.id r hmem
      exact (executeNoError_left hwf hin d).not_member

/-! ## The room with the empty id -/

/-- The step is a `create` that opens the room with the empty id, if there is none. -/
def OpensEmpty (env : Env XID) (s : System XID) : Action XID → Prop
  | .receive info (.create e) => e.id = "" ∧ s.rooms.connected.lookup info.id = some "" ∧
      e.authError env info = none
  | _ => False

theorem create_opens {s : Rooms XID} {c : ClientInfo XID} {e : Create}
    (hout : s.connected.lookup c.id = some "") (hnone : s.rooms.lookup e.id = none)
    (hauth : e.authError env c = none) :
    ∃ s', e.execute env s c = .ok s' ∧ ∃ room, s'.rooms = s.rooms.insert e.id room := by
  have hfirst : ¬ s.connectedTo c.id ≠ "" := by
    rw [connectedTo, hout]
    simp
  simp only [Create.execute, if_neg hfirst, hnone, hauth]
  exact ⟨_, rfl, _, rfl⟩

theorem lookup_empty_step {s t : System XID} {a : Action XID} (hwf : s.WF env)
    (h : (machine env server).step s a t) (hnone : s.rooms.rooms.lookup "" = none) :
    t.rooms.rooms.lookup "" = none ↔ ¬ OpensEmpty env s a := by
  constructor
  · intro hstill hopens
    cases a with
    | receive info event =>
        cases event with
        | create e =>
            obtain ⟨hid, hout, hauth⟩ := hopens
            obtain ⟨s', hrun, room, hrooms⟩ := create_opens hout (hid ▸ hnone) hauth
            rw [step_of_execute h (GoMap.mem_keys_of_lookup hout) hrun, hrooms, hid,
              GoMap.lookup_insert_self] at hstill
            cases hstill
        | _ => exact hopens
    | _ => exact hopens
  · intro hnot
    rw [Option.eq_none_iff_forall_ne_some]
    intro room hroom
    rcases (step_effect hwf h).room_step hwf.rooms hroom with hold |
      ⟨ce, name, createdAt, hevent, hid, hout, -, hauth, -⟩ | ⟨room', hold, -⟩
    · rw [hnone] at hold
      cases hold
    · refine hnot ?_
      obtain ⟨info, rfl⟩ := receive_of_event hevent rfl
      exact ⟨hid.symm, hout, hauth⟩
    · rw [hnone] at hold
      cases hold

/-- The room id that a `create` carries. -/
def Action.creates : Action XID → Option String
  | .receive _ (.create e) => some e.id
  | _ => none

/-- Without a `create` that carries the empty id there is no room with it. -/
theorem run_lookup_empty {l : List (System XID × Action XID)} {t : System XID}
    (h : (machine env server).Run (machine env server).init l t)
    (hnames : ∀ p ∈ l, p.2.creates ≠ some "") : t.rooms.rooms.lookup "" = none := by
  induction h with
  | nil => rfl
  | @snoc l s u a hr hst ih =>
      have hnone := ih fun p hp ↦ hnames p (List.mem_append_left _ hp)
      have hlast := hnames (s, a) (List.mem_append_right _ List.mem_cons_self)
      refine (lookup_empty_step (reachable_wf ⟨l, hr⟩) hst hnone).mpr fun hopens ↦ hlast ?_
      cases a with
      | receive info event =>
          cases event with
          | create e => exact congrArg some hopens.1
          | _ => exact hopens.elim
      | _ => exact hopens.elim

/-- In a run the two maps agree throughout exactly when no step opens the room with the empty
id. -/
theorem run_agreement_iff {l : List (System XID × Action XID)} {t : System XID}
    (h : (machine env server).Run (machine env server).init l t) :
    ((∀ p ∈ l, Agreement env p.1.rooms) ∧ Agreement env t.rooms) ↔
      ∀ p ∈ l, ¬ OpensEmpty env p.1 p.2 := by
  refine h.always_iff (P := fun s ↦ Agreement env s.rooms)
    (Q := fun s a ↦ ¬ OpensEmpty env s a) ?_ ?_
  · exact (agreement_iff (wf_newRooms server)).mpr rfl
  · intro s t a hreach hagree hstep
    have hwf := reachable_wf hreach
    rw [agreement_iff (hwf.step hstep).rooms]
    exact lookup_empty_step hwf hstep ((agreement_iff hwf.rooms).mp hagree)

theorem run_agreement_meeting :
    ((∀ p ∈ (System.history (Env.sample authModeNone) (.internal ⟨∅⟩) (meeting "local")).1,
        Agreement (Env.sample authModeNone) p.1.rooms) ∧
      Agreement (Env.sample authModeNone)
        (System.history (Env.sample authModeNone) (.internal ⟨∅⟩) (meeting "local")).2.rooms) ↔
      ∀ p ∈ (System.history (Env.sample authModeNone) (.internal ⟨∅⟩) (meeting "local")).1,
        ¬ OpensEmpty (Env.sample authModeNone) p.1 p.2 :=
  run_agreement_iff (System.run_history _ _ _)

/-- A guest creates a room without an id and disconnects: it stays a member. -/
theorem agreement_fails :
    ¬ ∀ s, (machine (Env.sample authModeNone) (.internal ⟨∅⟩)).Reachable s →
      Agreement (Env.sample authModeNone) s.rooms := by
  intro h
  have hagree := h _ (System.reachable_after (Env.sample authModeNone) (.internal ⟨∅⟩)
    (arrivals ++ [.receive (guest 0) (.create ⟨"", "local", false, "", false⟩),
      .receive (guest 0) (.disconnected ⟨1001, ""⟩)]))
  have hlisted := (hagree.listed_iff (guest 0) "").mp (by decide +kernel)
  exact absurd hlisted.1 (by decide +kernel)

/-! ## No step panics -/

/-- Every entry that a handler reads through a pointer is there. -/
structure NeverPanics (env : Env XID) (s : Rooms XID) : Prop where
  start : ∀ msg : ClientMessage XID,
    msg.skipConnectedCheck = false ∨ msg.incoming = .connected ∨ msg.incoming = .health →
    (s.start env msg).isSome
  current : ∀ info r room, s.currentRoom info = .ok (r, room) → info.id ∈ room.users.keys
  ends : ∀ r room id l, s.rooms.lookup r = some room → room.sessions.lookup id = some l →
    l.host ∈ room.users.keys ∧ l.client ∈ room.users.keys
  sharing : ∀ info r room, s.currentRoom info = .ok (r, room) → ∀ k ∈ room.users.keys,
    ∀ v4 v6 w, ((room.startStream info.id).newSession env info.id k v4 v6 w).isSome
  joining : ∀ (info : ClientInfo XID) r room name, s.rooms.lookup r = some room →
    ∀ k ∈ room.users.keys, ∀ v4 v6 w,
      ((room.enter (info.newUser name false)).newSession env k info.id v4 v6 w).isSome

theorem newSession_isSome {room : Room XID} {host client : XID} (hhost : host ∈ room.users.keys)
    (hclient : client ∈ room.users.keys) (v4 v6 : IP) (w : World XID) :
    (room.newSession env host client v4 v6 w).isSome := by
  obtain ⟨hu, hhost⟩ := GoMap.mem_keys.mp hhost
  obtain ⟨cu, hclient⟩ := GoMap.mem_keys.mp hclient
  simp [Room.newSession, hhost, hclient]

theorem start_isSome {s : Rooms XID} (hwf : s.WF env) (msg : ClientMessage XID)
    (hmsg : msg.skipConnectedCheck = false ∨ msg.incoming = .connected ∨ msg.incoming = .health) :
    (s.start env msg).isSome := by
  obtain ⟨info, skip, event⟩ := msg
  by_cases hconnected : event = .connected
  · subst hconnected
    simp only [start, Event.execute, Connected.execute]
    split <;> rfl
  by_cases hhealth : event = .health
  · subst hhealth
    simp only [start, Event.execute, Health.execute]
    split <;> rfl
  obtain rfl : skip = false := (hmsg.resolve_right (by simp [hconnected, hhealth]))
  have he : event.FromClient := by
    cases event <;> simp_all [Event.FromClient, Event.registered]
  obtain ⟨s', hrun, -⟩ := start_effect hwf info he
  rw [hrun]
  rfl

theorem neverPanics {s : System XID} (h : (machine env server).Reachable s) :
    NeverPanics env s.rooms := by
  have hwf := (reachable_wf h).rooms
  have hcurrent : ∀ info r room, s.rooms.currentRoom info = .ok (r, room) →
      info.id ∈ room.users.keys :=
    fun info r room hroom ↦ (in_of_currentRoom hroom).member hwf
  refine ⟨start_isSome hwf, hcurrent, ?_, ?_, ?_⟩
  · intro r room id l hroom hl
    exact (hwf.sound r room hroom).ends_mem hl
  · intro info r room hroom k hk v4 v6 w
    apply newSession_isSome <;> rw [Room.startStream_keys]
    · exact hcurrent info r room hroom
    · exact hk
  · intro info r room name _ k hk v4 v6 w
    apply newSession_isSome <;> rw [Room.enter_keys]
    · exact Or.inr hk
    · exact Or.inl rfl

/-- A screening, which has a session with two ends. -/
theorem neverPanics_screening :
    NeverPanics (Env.sample authModeNone)
      (System.after (Env.sample authModeNone) (.internal ⟨∅⟩) (screening "turn")).rooms ∧
    ((System.after (Env.sample authModeNone) (.internal ⟨∅⟩) (screening "turn")).rooms.rooms.lookup
      "lobby").any fun room ↦ room.sessions.lookup 17 = some ⟨0, 1⟩ :=
  ⟨neverPanics (System.reachable_after _ _ _), by decide +kernel⟩

end Screego
