import Screego.Spec.Refinement

/-!
# Departures

A member goes when it says so, when its connection ends, or when one of its
messages fails.  The three come to the same: the room closes behind the last
member, and otherwise the first member that the iteration visits takes over what
the departing one owned.  The iteration is a draw of its own, and which draw it
is depends on how far a failing message got.
-/

namespace Screego

open Outgoing World Rooms

variable {XID : Type} [DecidableEq XID] {env : Env XID} {server : Turn.Server}

/-- The message takes its sender out of the room: it says so, or its handler fails. -/
def Event.Departs (env : Env XID) (s : Rooms XID) (c : ClientInfo XID) (e : Event XID) : Prop :=
  (∃ d, e = .disconnected d) ∨ e = .exit ∨ ∃ err s₁, e.execute env s c = .error err s₁

/-- What `share` checks before it looks for an address. -/
def Room.MayStart (c : XID) (room : Room XID) : Prop :=
  (∃ u, room.users.lookup c = some u ∧ u.canShare) ∧
    ∀ k ∈ room.users.keys, ¬ (room.users.lookup k).any fun u ↦ u.streaming ∧ u.id ≠ c

instance (c : XID) (room : Room XID) : Decidable (room.MayStart c) :=
  decidable_of_iff (((room.users.lookup c).any fun u ↦ u.canShare) ∧
    ∀ k ∈ room.users.keys, ¬ (room.users.lookup k).any fun u ↦ u.streaming ∧ u.id ≠ c) (by
    rw [Option.any_eq_true]
    rfl)

/-- The draws that the handler makes before it fails. -/
def Event.draws (room : Room XID) (c : XID) : Event XID → ℕ
  | .startShare => if room.MayStart c then 1 else 0
  | _ => 0

/-- The member that the iteration after the departure of `c` visits first. -/
def Room.successor (env : Env XID) (n : ℕ) (c : XID) (room : Room XID) : Option XID :=
  ((env.range n).visit (room.users.keys.erase c)).head?

/-! ## Which draw it is -/

/-- A loop over the sessions makes one draw if its body makes none. -/
theorem Room.rangeSessions_tick (env : Env XID)
    {body : XID → RoomSession XID → Room XID × World XID → Room XID × World XID}
    (hbody : ∀ id session s, (body id session s).2.tick = s.2.tick) (room : Room XID)
    (w : World XID) : (rangeSessions env body (room, w)).2.tick = w.tick + 1 := by
  obtain ⟨visit, hrange, hnone, hsome⟩ := rangeSessions_eq env body room w
  have hvisit : ∀ s id, (visit s id).2.tick = s.2.tick := by
    rintro ⟨r, w⟩ id
    cases hl : r.sessions.lookup id with
    | none => rw [hnone r w id hl]
    | some l => rw [hsome r w id l hl, hbody]
  have hloop : ∀ (ids : List XID) (s : Room XID × World XID),
      (ids.foldl visit s).2.tick = s.2.tick := by
    intro ids
    induction ids with
    | nil => exact fun _ ↦ rfl
    | cons id ids ih => exact fun s ↦ (ih _).trans (hvisit s id)
  rw [hrange, hloop]
  rfl

theorem Room.closeSession_tick (id : XID) (s : Room XID × World XID) :
    (closeSession env id s).2.tick = s.2.tick := by
  unfold closeSession
  split
  split <;> rfl

theorem Disconnected.endSession_tick (env : Env XID) (current id : XID)
    (session : RoomSession XID) (s : Room XID × World XID) :
    (endSession env current id session s).2.tick = s.2.tick := by
  have hside (p : Prop) [Decidable p] (s : Room XID × World XID) (w : World XID)
      (hw : w.tick = s.2.tick) :
      (if p then Room.closeSession env id (s.1, w) else s).2.tick = s.2.tick := by
    split
    · rw [Room.closeSession_tick, hw]
    · rfl
  unfold endSession
  refine (hside _ _ _ ?_).trans (hside _ _ _ ?_)
  · generalize ite (session.client = current) _ _ = s'
    cases s'.1.users.lookup session.client <;> rfl
  · cases s.1.users.lookup session.host <;> rfl

variable {s s₁ : Rooms XID} {c : ClientInfo XID} {e : Event XID} {r : String} {room : Room XID}

/-- The next owner is the member that the iteration visits first. -/
theorem executeNoError_promotes (hwf : s.WF env) (hin : s.In c.id r room)
    (howner : room.OwnedBy c.id) {next : XID}
    (hnext : ((env.range (s.world.tick + 1)).visit (room.remove c.id).users.keys).head? = some next)
    (d : Disconnected) :
    (d.executeNoError env s c).rooms = s.rooms.insert r ((room.remove c.id).promote next) := by
  obtain ⟨user, huser, ho⟩ := howner
  obtain ⟨_, w, -, hrange, -⟩ := rangeSessions_leave env (hwf.sound r room hin.lookup) c.id
    ((s.world.writeTimeout c.id (.closeWriter d.code d.reason)).count { usersLeft := 1 })
  have htick : w.tick = s.world.tick + 1 := by
    have hloop := Room.rangeSessions_tick env (Disconnected.endSession_tick env c.id)
      { room with users := room.users.erase c.id }
      ((s.world.writeTimeout c.id (.closeWriter d.code d.reason)).count { usersLeft := 1 })
    rwa [hrange] at hloop
  simp only [Disconnected.executeNoError, not_connectedTo_empty hin, if_neg hin.ne_empty,
    hin.lookup, huser, hrange, if_pos ho, htick, hnext]
  rw [Room.modifyUser_eq]
  rfl

/-! ## Where a handler fails -/

theorem closeRoom_connected (s : Rooms XID) (r : String) :
    (s.closeRoom env r).connected = s.connected := by
  unfold closeRoom
  split <;> rfl

theorem executeNoError_connected (d : Disconnected) (s : Rooms XID) (c : ClientInfo XID) :
    (d.executeNoError env s c).connected = s.connected.erase c.id := by
  unfold Disconnected.executeNoError
  simp only
  split
  · rfl
  · split
    · rfl
    · split
      · rfl
      · split
        · split
          · rfl
          · exact closeRoom_connected _ _
        · split
          · exact closeRoom_connected _ _
          · rfl

theorem mayStart_iff (hkeyed : room.Keyed) {k : XID} : room.MayStart k ↔
    (∃ u, room.users.lookup k = some u ∧ u.canShare) ∧
      ∀ k' u, room.users.lookup k' = some u → u.streaming → k' = k := by
  refine and_congr_right fun _ ↦ ⟨fun h k' u hu hs ↦ ?_, fun h k' _ ↦ ?_⟩
  · by_contra hne
    refine h k' (GoMap.mem_keys_of_lookup hu) ?_
    simp [hu, hs, (hkeyed k' u hu).1, hne]
  · intro hother
    exact not_busy hkeyed h ⟨k', ‹_›, hother⟩

/-- How the handler of a message ends for a member of the room under `r`. -/
inductive Event.Fate (env : Env XID) (s : Rooms XID) (c : ClientInfo XID) (r : String)
    (room : Room XID) : Event XID → Outcome XID → Prop
  | goes {e : Event XID} {s' : Rooms XID} (he : (∃ d, e = .disconnected d) ∨ e = .exit) :
      Fate env s c r room e (.ok s')
  | dissolves {s' : Rooms XID} (howner : room.OwnedBy c.id)
      (hrooms : s'.rooms = s.rooms.erase r) : Fate env s c r room .dissolve (.ok s')
  | stays {e : Event XID} {s' : Rooms XID}
      (hconn : s'.connected.lookup c.id = s.connected.lookup c.id) : Fate env s c r room e (.ok s')
  | fails {e : Event XID} {err : String} (hdraws : e.draws room c.id = 0) :
      Fate env s c r room e (.error err s)
  /-- The member was put on the air, but there is no address. -/
  | failsOnAir {err : String} (hmay : room.MayStart c.id) : Fate env s c r room .startShare
      (.error err ⟨s.rooms.insert r (room.startStream c.id), s.connected, s.world.draw 1⟩)

theorem relay_fate (hwf : s.WF env) (hin : s.In c.id r room)
    {sender recipient : RoomSession XID → XID} {msg : P2PMessage XID → Message XID}
    {m : P2PMessage XID} (hdraws : e.draws room c.id = 0)
    (hends : recipient = RoomSession.host ∨ recipient = RoomSession.client) :
    e.Fate env s c r room (relay env sender recipient msg m s c) := by
  simp only [relay, currentRoom_of_in hin]
  split
  · exact .stays rfl
  · next l hl =>
      split
      · exact .fails hdraws
      · split
        · next hnone =>
            obtain ⟨hhost, hclient⟩ := (hwf.sound r room hin.lookup).ends_mem hl
            rw [GoMap.lookup_eq_none] at hnone
            rcases hends with rfl | rfl
            · exact absurd hhost hnone
            · exact absurd hclient hnone
        · exact .stays rfl

theorem startShare_fate (hwf : s.WF env) (hin : s.In c.id r room) :
    Event.Fate env s c r room .startShare (StartShare.execute env s c) := by
  have hkeyed := (hwf.sound r room hin.lookup).keyed
  by_cases hmay : room.MayStart c.id
  · obtain ⟨⟨u, hu, hcan⟩, hfree⟩ := (mayStart_iff hkeyed).mp hmay
    cases hip : env.turnIPProvider s.world.tick with
    | ok p =>
        obtain ⟨v4, v6⟩ := p
        obtain ⟨os, told, w, hrun, -⟩ := startShare_ok hwf hin hu hcan hfree hip
        rw [hrun]
        exact .stays rfl
    | error err =>
        rw [startShare_failed hwf hin hu hcan hfree hip]
        exact .failsOnAir hmay
  · obtain ⟨err, hrun⟩ := startShare_refused hwf hin (mt (mayStart_iff hkeyed).mpr hmay)
    rw [hrun]
    exact .fails (if_neg hmay)

theorem execute_fate (hwf : s.WF env) (hin : s.In c.id r room) (he : e.FromClient) :
    e.Fate env s c r room (e.execute env s c) := by
  have hconn : s.connectedTo c.id ≠ "" := by
    rw [not_connectedTo_empty hin]
    exact hin.ne_empty
  cases e with
  | connected => cases he
  | health => cases he
  | disconnected d => exact .goes (Or.inl ⟨d, rfl⟩)
  | exit => exact .goes (Or.inr rfl)
  | create e =>
      simp only [Event.execute, Create.execute, if_pos hconn]
      exact .fails rfl
  | join e =>
      simp only [Event.execute, Join.execute, if_pos hconn]
      exact .fails rfl
  | name e =>
      rw [Event.execute, name_ok hwf hin e]
      exact .stays rfl
  | startShare => exact startShare_fate hwf hin
  | stopShare =>
      obtain ⟨ended, w, hrun, -⟩ := stopShare_ok hwf hin
      rw [Event.execute, hrun]
      exact .stays rfl
  | ownerAction a =>
      by_cases haccepted : a.Accepted env c.id room
      · obtain ⟨s', hrun, hkept⟩ := OwnerAction.execute_accepted hwf hin haccepted
        rw [Event.execute, hrun]
        exact .stays hkept.connected
      · obtain ⟨err, hrun⟩ := OwnerAction.execute_refused hin haccepted
        rw [Event.execute, hrun]
        exact .fails rfl
  | dissolve =>
      by_cases howner : room.OwnedBy c.id
      · obtain ⟨ks, w, -, -, hrun, -⟩ := dissolve_ok hwf hin howner
        rw [Event.execute, hrun]
        exact .dissolves howner rfl
      · rw [Event.execute, dissolve_refused hin (hin.member hwf) howner]
        exact .fails rfl
  | hostOffer m => exact relay_fate hwf hin rfl (Or.inr rfl)
  | hostICE m => exact relay_fate hwf hin rfl (Or.inr rfl)
  | clientAnswer m => exact relay_fate hwf hin rfl (Or.inl rfl)
  | clientICE m => exact relay_fate hwf hin rfl (Or.inl rfl)

theorem Left.connected {k : XID} {s' : Rooms XID} (h : Left env k s r room s') :
    s'.connected = s.connected.erase k := by
  cases h <;> rfl

theorem Room.LeftBy.other {k : XID} {room' : Room XID} (h : room.LeftBy k room') :
    room.users.keys ≠ {k} := by
  intro honly
  cases h with
  | member _ _ hother hne => exact hne (Finset.mem_singleton.mp (honly ▸ hother))
  | owner _ hnext hne => exact hne (Finset.mem_singleton.mp (honly ▸ hnext))

theorem Left.rooms {k : XID} {s' : Rooms XID} (h : Left env k s r room s') :
    (∃ room', room.LeftBy k room' ∧ s'.rooms = s.rooms.insert r room') ∨
      (room.users.keys = {k} ∧ s'.rooms = s.rooms.erase r) := by
  cases h with
  | stay hleft _ _ _ => exact Or.inl ⟨_, hleft, rfl⟩
  | last honly _ => exact Or.inr ⟨honly, rfl⟩

/-- Whoever stays behind has a successor among them. -/
theorem successor_isSome {c k : XID} (hk : k ∈ room.users.keys) (hne : k ≠ c) (n : ℕ) :
    ∃ next, room.successor env n c = some next ∧ next ∈ room.users.keys ∧ next ≠ c := by
  have hmem : k ∈ (env.range n).visit (room.users.keys.erase c) :=
    (RangeOrder.mem_visit _).mpr (Finset.mem_erase.mpr ⟨hne, hk⟩)
  obtain ⟨next, rest, hvisit⟩ := List.exists_cons_of_ne_nil (List.ne_nil_of_mem hmem)
  have hnext : next ∈ room.users.keys.erase c := by
    rw [← RangeOrder.mem_visit (env.range n), hvisit]
    exact List.mem_cons_self
  refine ⟨next, ?_, Finset.mem_of_mem_erase hnext, Finset.ne_of_mem_erase hnext⟩
  rw [Room.successor, hvisit, List.head?_cons]

/-! ## Steps of the server -/

section Step

variable {s t : System XID} {info : ClientInfo XID} {e : Event XID} {r : String} {room : Room XID}

/-- Where a departure starts from: the state before the step, or the one in which the member is on
the air already. -/
theorem step_of_departs (hwf : s.WF env) (h : (machine env server).step s (.receive info e) t)
    (hin : s.rooms.In info.id r room) (hdeparts : e.Departs env s.rooms info) :
    ∃ d : Disconnected, (e.draws room info.id = 0 ∧ t.rooms = d.executeNoError env s.rooms info) ∨
      (e.draws room info.id = 1 ∧ room.MayStart info.id ∧ t.rooms = d.executeNoError env
        ⟨s.rooms.rooms.insert r (room.startStream info.id), s.rooms.connected,
          s.rooms.world.draw 1⟩ info) := by
  have hconn := GoMap.mem_keys_of_lookup hin.connected
  rcases hdeparts with ⟨d, rfl⟩ | rfl | ⟨err, s₁, hfail⟩
  · exact ⟨d, Or.inl ⟨rfl, step_of_execute h hconn rfl⟩⟩
  · exact ⟨_, Or.inl ⟨rfl, step_of_execute h hconn rfl⟩⟩
  · have hfate := execute_fate hwf.rooms hin h.1.2
    have hrooms := step_of_error h hconn hfail
    rw [hfail] at hfate
    cases hfate with
    | fails hdraws => exact ⟨_, Or.inl ⟨hdraws, hrooms⟩⟩
    | failsOnAir hmay => exact ⟨_, Or.inr ⟨if_pos hmay, hmay, hrooms⟩⟩

/-- Whatever the reason, a departure is the departure of a member. -/
theorem step_departs (hwf : s.WF env) (h : (machine env server).step s (.receive info e) t)
    (hin : s.rooms.In info.id r room) (hdeparts : e.Departs env s.rooms info) :
    Left env info.id s.rooms r room t.rooms := by
  obtain ⟨d, ⟨-, hrooms⟩ | ⟨-, hmay, hrooms⟩⟩ := step_of_departs hwf h hin hdeparts
  · rw [hrooms]
    exact executeNoError_left hwf.rooms hin d
  · obtain ⟨⟨u, hu, hcan⟩, hfree⟩ :=
      (mayStart_iff (hwf.rooms.sound r room hin.lookup).keyed).mp hmay
    rw [hrooms]
    exact shareFailed_left hwf.rooms hin hu hcan hfree (change_draw env "" 1 s.rooms.world) d

/-- The draws decide who takes the room over. -/
theorem step_promotes (hwf : s.WF env) (h : (machine env server).step s (.receive info e) t)
    (hin : s.rooms.In info.id r room) (howner : room.OwnedBy info.id)
    (hdeparts : e.Departs env s.rooms info) {next : XID}
    (hnext : room.successor env (s.rooms.world.tick + e.draws room info.id + 1) info.id =
      some next) :
    t.rooms.rooms = s.rooms.rooms.insert r ((room.remove info.id).promote next) := by
  rw [Room.successor, ← Room.remove_keys] at hnext
  obtain ⟨d, ⟨hdraws, hrooms⟩ | ⟨hdraws, hmay, hrooms⟩⟩ := step_of_departs hwf h hin hdeparts
  · rw [hdraws] at hnext
    rw [hrooms]
    exact executeNoError_promotes hwf.rooms hin howner hnext d
  · obtain ⟨⟨u, hu, hcan⟩, hfree⟩ :=
      (mayStart_iff (hwf.rooms.sound r room hin.lookup).keyed).mp hmay
    have hwf' := shareStarted_wf hwf.rooms hin hu hcan hfree
      (change_draw env "" 1 s.rooms.world).tick
    have howner' : (room.startStream info.id).OwnedBy info.id := by
      obtain ⟨u, hu, ho⟩ := howner
      exact ⟨_, Room.startStream_lookup.mpr ⟨u, hu, if_pos rfl⟩, ho⟩
    have hin' : (⟨s.rooms.rooms.insert r (room.startStream info.id), s.rooms.connected,
        s.rooms.world.draw 1⟩ : Rooms XID).In info.id r (room.startStream info.id) :=
      ⟨hin.connected, hin.ne_empty, GoMap.lookup_insert_self _ _ _⟩
    rw [hdraws, ← Room.startStream_remove] at hnext
    rw [hrooms, executeNoError_promotes hwf' hin' howner' hnext d, GoMap.insert_insert,
      Room.startStream_remove]

/-- A member goes by a departure, or with the whole room. -/
theorem departs_of_gone (hwf : s.WF env) (h : (machine env server).step s (.receive info e) t)
    (hin : s.rooms.In info.id r room) (hgone : info.id ∉ t.rooms.connected.keys) :
    e.Departs env s.rooms info ∨
      (e = .dissolve ∧ room.OwnedBy info.id ∧ t.rooms.rooms = s.rooms.rooms.erase r) := by
  have hconn := GoMap.mem_keys_of_lookup hin.connected
  have hfate := execute_fate hwf.rooms hin h.1.2
  generalize hrun : e.execute env s.rooms info = o at hfate
  cases hfate with
  | goes he => exact Or.inl (he.imp_right Or.inl)
  | dissolves howner hrooms => exact Or.inr ⟨rfl, howner, step_of_execute h hconn hrun ▸ hrooms⟩
  | stays hkept =>
      rw [step_of_execute h hconn hrun] at hgone
      exact absurd (GoMap.mem_keys_of_lookup (hkept.trans hin.connected)) hgone
  | fails _ => exact Or.inl (Or.inr (Or.inr ⟨_, _, hrun⟩))
  | failsOnAir _ => exact Or.inl (Or.inr (Or.inr ⟨_, _, hrun⟩))

end Step

end Screego
