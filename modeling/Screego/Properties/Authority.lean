import Screego.Spec.Refinement

/-!
# Who has power over whom

Two handlers look at the `Owner` flag before they write to the records of other
members.  Whoever is not the owner of a room changes its own record and its own
sessions at most, whatever it sends, and the owner cannot turn an action on
itself.
-/

namespace Screego

open Outgoing World Rooms

variable {XID : Type} [DecidableEq XID] {env : Env XID} {server : Turn.Server}

/-- What the client `c` leaves alone in a room: the other members, the bans, and the sessions of
others. -/
structure Untouched (c : XID) (room room' : Room XID) : Prop where
  users : ∀ k u, k ≠ c → room.users.lookup k = some u → room'.users.lookup k = some u
  bannedIPs : room'.bannedIPs = room.bannedIPs
  sessions : ∀ id l, room.sessions.lookup id = some l → ¬ Touches c l →
    room'.sessions.lookup id = some l

theorem Untouched.refl (c : XID) (room : Room XID) : Untouched c room room :=
  ⟨fun _ _ _ hu ↦ hu, rfl, fun _ _ hl _ ↦ hl⟩

section Room

variable {c : ClientInfo XID} {w : World XID} {e : Event XID} {r : String} {room room' : Room XID}

theorem Untouched.openSessions (h : Untouched c.id room room') {os : List (OpenedSession XID)}
    (hids : (os.map OpenedSession.id).Nodup) (hnew : ∀ o ∈ os, o.id ∉ room.sessions.keys) :
    Untouched c.id room (room'.openSessions os) where
  users := by
    intro k u hk hu
    rw [Room.openSessions_users]
    exact h.users k u hk hu
  bannedIPs := h.bannedIPs
  sessions := by
    intro id l hl htouch
    refine (Room.openSessions_lookup hids).mpr (Or.inr ⟨?_, h.sessions id l hl htouch⟩)
    rintro o ho rfl
    exact hnew o ho (GoMap.mem_keys_of_lookup hl)

theorem untouched_enter (c : ClientInfo XID) (name : String) (room : Room XID) :
    Untouched c.id room (room.enter (c.newUser name false)) where
  users := fun _ _ hk hu ↦ Room.enter_lookup.mpr (Or.inr ⟨hk, hu⟩)
  bannedIPs := rfl
  sessions := fun _ _ hl _ ↦ hl

theorem untouched_startStream (c : XID) (room : Room XID) :
    Untouched c room (room.startStream c) where
  users := fun _ u hk hu ↦ Room.startStream_lookup.mpr ⟨u, hu, if_neg hk⟩
  bannedIPs := rfl
  sessions := fun _ _ hl _ ↦ hl

theorem untouched_remove (c : XID) (room : Room XID) : Untouched c room (room.remove c) where
  users := fun _ _ hk hu ↦ Room.remove_lookup.mpr ⟨hk, hu⟩
  bannedIPs := rfl
  sessions := fun _ _ hl htouch ↦ Room.remove_sessions_lookup.mpr ⟨hl, htouch⟩

theorem untouched_rename (c : XID) (name : String) (room : Room XID) :
    Untouched c room ((RoomOp.rename c name).apply room) where
  users := fun _ u hk hu ↦ RoomOp.apply_lookup.mpr ⟨u, hu, if_neg hk⟩
  bannedIPs := rfl
  sessions := fun _ _ hl _ ↦ RoomOp.apply_sessions_lookup.mpr ⟨hl, id⟩

theorem untouched_stopStream (c : XID) (room : Room XID) :
    Untouched c room ((RoomOp.stopStream c).apply room) where
  users := fun _ u hk hu ↦ RoomOp.apply_lookup.mpr ⟨u, hu, if_neg hk⟩
  bannedIPs := rfl
  sessions := fun _ _ hl htouch ↦
    RoomOp.apply_sessions_lookup.mpr ⟨hl, fun hends ↦ htouch (Or.inl hends)⟩

theorem Room.Step.untouched (hstep : room.Step env c w e r room') (hnot : ¬ room.OwnedBy c.id) :
    Untouched c.id room room' := by
  cases hstep with
  | enter _ _ _ hos hnew => exact (untouched_enter c _ room).openSessions hos.nodup_ids hnew
  | update _ _ hop =>
      cases hop with
      | name e => exact untouched_rename c.id e.userName room
      | stopShare => exact untouched_stopStream c.id room
      | ownerStop _ howner _ => exact absurd howner hnot
      | ownerEnable _ howner => exact absurd howner hnot
      | ownerDisable _ howner => exact absurd howner hnot
      | ownerToggle _ howner _ => exact absurd howner hnot
  | share _ _ _ _ _ _ hos hnew =>
      exact (untouched_startStream c.id room).openSessions hos.nodup_ids hnew
  | remove _ howner _ _ _ => exact absurd howner hnot
  | left _ hleft =>
      cases hleft with
      | member _ _ _ _ => exact untouched_remove c.id room
      | owner howner _ _ => exact absurd howner hnot

end Room

section Step

variable {s s' : Rooms XID} {c : ClientInfo XID} {e : Event XID} {r : String} {room : Room XID}

omit [DecidableEq XID] in
theorem exists_lookup_insert {rooms : GoMap String (Room XID)} (r₀ : String) (room₀ : Room XID)
    (hroom : rooms.lookup r = some room) :
    ∃ room', (rooms.insert r₀ room₀).lookup r = some room' := by
  rw [GoMap.lookup_insert]
  split
  · exact ⟨room₀, rfl⟩
  · exact ⟨room, hroom⟩

/-- Only its owner can close a room. -/
theorem Effect.room_kept (h : Effect env c s e s') (hwf : s.WF env)
    (hroom : s.rooms.lookup r = some room) (hnot : ¬ room.OwnedBy c.id) :
    ∃ room', s'.rooms.lookup r = some room' := by
  cases h with
  | idle _ => exact ⟨room, hroom⟩
  | connect => exact ⟨room, hroom⟩
  | relay _ _ _ _ _ => exact ⟨room, hroom⟩
  | joinFailed _ _ _ _ _ _ _ _ => exact ⟨room, hroom⟩
  | leaveNowhere _ _ => exact ⟨room, hroom⟩
  | create _ _ _ _ _ => exact exists_lookup_insert _ _ hroom
  | join _ _ _ _ _ _ _ => exact exists_lookup_insert _ _ hroom
  | haunt _ _ _ _ _ _ => exact exists_lookup_insert _ _ hroom
  | update _ _ _ _ _ => exact exists_lookup_insert _ _ hroom
  | share _ _ _ _ _ _ _ _ => exact exists_lookup_insert _ _ hroom
  | remove _ _ _ _ _ _ _ => exact exists_lookup_insert _ _ hroom
  | @leave _ r₀ room₀ _ hin hleft =>
      cases hleft with
      | stay _ _ _ _ => exact exists_lookup_insert _ _ hroom
      | last honly _ =>
          by_cases hr : r = r₀
          · -- the last member of a room owns it
            subst hr
            obtain rfl := Option.some.inj (hroom.symm.trans hin.lookup)
            obtain ⟨o, ho⟩ := (hwf.sound r room hroom).owned hin.ne_empty
            have hself : o = c.id := Finset.mem_singleton.mp (honly ▸ ho.mem)
            exact absurd (hself ▸ ho) hnot
          · exact ⟨room, (GoMap.lookup_erase_of_ne hr).trans hroom⟩
  | @dissolve r₀ room₀ _ _ hin howner _ _ _ =>
      by_cases hr : r = r₀
      · subst hr
        obtain rfl := Option.some.inj (hroom.symm.trans hin.lookup)
        exact absurd howner hnot
      · exact ⟨room, (GoMap.lookup_erase_of_ne hr).trans hroom⟩

theorem Effect.untouched (h : Effect env c s e s') (hwf : s.WF env)
    (hroom : s.rooms.lookup r = some room) (hnot : ¬ room.OwnedBy c.id) :
    ∃ room', s'.rooms.lookup r = some room' ∧ Untouched c.id room room' := by
  obtain ⟨room', hroom'⟩ := h.room_kept hwf hroom hnot
  refine ⟨room', hroom', ?_⟩
  rcases h.room_step hwf hroom' with hold | ⟨_, _, _, -, -, -, hnone, -, -⟩ |
    ⟨room₀, hroom₀, hstep⟩
  · obtain rfl := Option.some.inj (hroom.symm.trans hold)
    exact .refl c.id room
  · rw [hroom] at hnone
    cases hnone
  · obtain rfl := Option.some.inj (hroom.symm.trans hroom₀)
    exact hstep.untouched hnot

end Step

/-! ## Every event -/

/-- Who can do what to the room under `r`. -/
structure OwnerOnly (env : Env XID) (server : Turn.Server) (s : System XID) (r : String)
    (room : Room XID) : Prop where
  others : ∀ a t, (machine env server).step s a t → ¬ room.OwnedBy (a.info env).id →
    ∃ room', t.rooms.rooms.lookup r = some room' ∧ Untouched (a.info env).id room room'
  owner : ∀ a t, (machine env server).step s a t → ∀ o u, room.users.lookup o = some u →
    u.owner → (a.info env).id ≠ o →
    ∃ room', t.rooms.rooms.lookup r = some room' ∧ room'.users.lookup o = some u
  self : ∀ info (act : OwnerAction) s', s.rooms.In info.id r room →
    act.execute env s.rooms info = .ok s' → room.OwnedBy info.id ∧
      ∃ room', s'.rooms.lookup r = some room' ∧
        room'.users.lookup info.id = room.users.lookup info.id

theorem only_owner_acts {s : System XID} (h : (machine env server).Reachable s) {r : String}
    {room : Room XID} (hroom : s.rooms.rooms.lookup r = some room) :
    OwnerOnly env server s r room := by
  have hwf := reachable_wf h
  have hsound := hwf.rooms.sound r room hroom
  have hothers : ∀ a t, (machine env server).step s a t → ¬ room.OwnedBy (a.info env).id →
      ∃ room', t.rooms.rooms.lookup r = some room' ∧ Untouched (a.info env).id room room' :=
    fun a t hstep hnot ↦ (step_effect hwf hstep).untouched hwf.rooms hroom hnot
  refine ⟨hothers, ?_, ?_⟩
  · intro a t hstep o u hu howner hne
    have hnot : ¬ room.OwnedBy (a.info env).id := fun howned ↦
      hne (hsound.owner_unique _ o howned ⟨u, hu, howner⟩)
    obtain ⟨room', hroom', huntouched⟩ := hothers a t hstep hnot
    exact ⟨room', hroom', huntouched.users o u hne.symm hu⟩
  · intro info act s' hin hrun
    by_cases haccepted : act.Accepted env info.id room
    · obtain ⟨s'', hrun', hkept⟩ := OwnerAction.execute_accepted hwf.rooms hin haccepted
      rw [hrun] at hrun'
      obtain rfl := Outcome.ok.inj hrun'
      exact ⟨haccepted.1, hkept.record⟩
    · obtain ⟨err, hrun'⟩ := OwnerAction.execute_refused hin haccepted
      rw [hrun] at hrun'
      cases hrun'

theorem only_owner_acts_meeting : ∃ room, (System.after (Env.sample authModeNone)
    (.internal ⟨∅⟩) (meeting "local")).rooms.rooms.lookup "lobby" = some room ∧
    OwnerOnly (Env.sample authModeNone) (.internal ⟨∅⟩) (System.after (Env.sample authModeNone)
      (.internal ⟨∅⟩) (meeting "local")) "lobby" room := by
  have hsome : ((System.after (Env.sample authModeNone) (.internal ⟨∅⟩)
      (meeting "local")).rooms.rooms.lookup "lobby").isSome := by decide +kernel
  obtain ⟨room, hroom⟩ := Option.isSome_iff_exists.mp hsome
  exact ⟨room, hroom, only_owner_acts (System.reachable_after _ _ _) hroom⟩

end Screego
