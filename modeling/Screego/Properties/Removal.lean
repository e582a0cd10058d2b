import Screego.Properties.Failures

/-!
# Three ways out of a room

A member that is not the owner goes by itself, is kicked or is banned.  The
three handlers do the same things in different orders, and what they leave
differs in nothing but the ban list.
-/

namespace Screego

open Outgoing World Rooms

variable {XID : Type} [DecidableEq XID] {env : Env XID} {server : Turn.Server}

/-- The two maps, the accepted usernames and the counters are the same. -/
structure SameState (s s' : Rooms XID) : Prop extends SameTables s s' where
  metrics : s.world.metrics = s'.world.metrics

theorem SameState.of_change {rooms : GoMap String (Room XID)} {connected : GoMap XID String}
    {mode : ConnectionMode} {dead : Finset XID} {d : Metrics}
    {msgs msgs' : List (XID × Message XID)} {w w₁ w₂ : World XID}
    (h : Change env mode dead ∅ d msgs w w₁) (h' : Change env mode dead ∅ d msgs' w w₂) :
    SameState ⟨rooms, connected, w₁⟩ ⟨rooms, connected, w₂⟩ where
  connected := rfl
  rooms := rfl
  lookup := h.entry_unique h'
  metrics := h.metrics.trans h'.metrics.symm

/-- What the owner `o` and the member `t` of the room under `r` can do to end the membership of
`t` comes to the same. -/
structure RemovalsAgree (env : Env XID) (server : Turn.Server) (s : System XID) (r : String)
    (room : Room XID) (o t : ClientInfo XID) : Prop where
  kick : ∀ a : OwnerAction, a.action = "kick" → a.Targets env o.id t.id → ∀ d,
    ∃ kicked gone, (machine env server).step s (.receive o (.ownerAction a)) kicked ∧
      (machine env server).step s (.receive t (.disconnected d)) gone ∧
      SameState kicked.rooms gone.rooms
  ban : ∀ a : OwnerAction, a.action = "ban" → a.Targets env o.id t.id → ∀ d,
    ∃ banned gone target left, (machine env server).step s (.receive o (.ownerAction a)) banned ∧
      (machine env server).step s (.receive t (.disconnected d)) gone ∧
      room.users.lookup t.id = some target ∧ gone.rooms.rooms.lookup r = some left ∧
      SameState banned.rooms { gone.rooms with
        rooms := gone.rooms.rooms.insert r (left.banAddr target.addr) }

section Removal

variable {s : System XID} {r : String} {room : Room XID} {o t : ClientInfo XID}

theorem step_of_enabled (server : Turn.Server) (hwf : s.WF env) {a : Action XID}
    (ha : s.Enabled a) : ∃ t, (machine env server).step s a t := by
  obtain ⟨t, hnext, -⟩ := System.next_effect hwf ha
  exact ⟨t, ha, hnext⟩

/-- A member that the owner can act on leaves by itself. -/
theorem step_disconnected (server : Turn.Server) (hwf : s.WF env) (ht : t ∈ s.clients)
    (hin : s.rooms.In t.id r room)
    (hnot : ¬ room.OwnedBy t.id) {o : XID} (ho : o ∈ room.users.keys) (hne : o ≠ t.id)
    (d : Disconnected) :
    ∃ gone msgs w, (machine env server).step s (.receive t (.disconnected d)) gone ∧
      gone.rooms = ⟨s.rooms.rooms.insert r (room.remove t.id), s.rooms.connected.erase t.id, w⟩ ∧
      Change env room.mode (room.sessionsWhere (Touches t.id)) ∅
        { usersLeft := 1, sessionClosed := (room.sessionsWhere (Touches t.id)).card } msgs
        s.rooms.world w := by
  obtain ⟨gone, hstep⟩ := step_of_enabled server hwf
    (show s.Enabled (.receive t (.disconnected d)) from ⟨ht, trivial⟩)
  have hleft := step_departs hwf hstep hin (Or.inl ⟨d, rfl⟩)
  generalize hgone : gone.rooms = s' at hleft
  cases hleft with
  | stay hleave _ _ hworld =>
      cases hleave with
      | member _ _ _ _ => exact ⟨gone, _, _, hstep, hgone, hworld⟩
      | owner howner _ _ => exact absurd howner hnot
  | last honly _ =>
      rw [honly] at ho
      exact absurd (Finset.mem_singleton.mp ho) hne

/-- The owner takes the member out. -/
theorem step_remove (server : Turn.Server) (hwf : s.WF env) (ho : o ∈ s.clients)
    (hin : s.rooms.In o.id r room)
    (howner : room.OwnedBy o.id) {a : OwnerAction} (ha : a.action = "kick" ∨ a.action = "ban")
    (ht : a.Targets env o.id t.id) {target : User XID}
    (htarget : room.users.lookup t.id = some target) :
    ∃ out msgs w, (machine env server).step s (.receive o (.ownerAction a)) out ∧
      out.rooms = ⟨s.rooms.rooms.insert r ((if a.action = "ban" then room.banAddr target.addr
        else room).remove t.id), s.rooms.connected.erase t.id, w⟩ ∧
      Change env room.mode (room.sessionsWhere (Touches t.id)) ∅
        { usersLeft := 1, sessionClosed := (room.sessionsWhere (Touches t.id)).card } msgs
        s.rooms.world w := by
  have hsound := hwf.rooms.sound r room hin.lookup
  have howned := Room.ownedBy_iff_any.mp howner
  obtain ⟨out, hstep⟩ := step_of_enabled server hwf
    (show s.Enabled (.receive o (.ownerAction a)) from ⟨ho, rfl⟩)
  have hconn := GoMap.mem_keys_of_lookup hin.connected
  rcases ha with ha | ha
  · have hrun := OwnerAction.execute_on (currentRoom_of_in hin) howned
      (by rw [ha]; decide) (by rw [ha]; decide) ht htarget
    simp only [OwnerAction.onTarget, ha] at hrun
    obtain ⟨told, w, hremove, -, hchange⟩ :=
      OwnerAction.remove_spec env (s := s.rooms) hsound htarget "kickedByOwner"
    refine ⟨out, _, w, hstep, ?_, hchange⟩
    rw [step_of_execute hstep hconn (hrun.trans (by rfl)), ha, if_neg (by decide)]
    exact hremove
  · have hrun := OwnerAction.execute_on (currentRoom_of_in hin) howned
      (by rw [ha]; decide) (by rw [ha]; decide) ht htarget
    simp only [OwnerAction.onTarget, ha] at hrun
    obtain ⟨told, w, hremove, -, hchange⟩ := OwnerAction.remove_spec env (s := s.rooms)
      (hsound.banAddr target.addr) htarget "bannedByOwner"
    refine ⟨out, _, w, hstep, ?_, hchange⟩
    rw [step_of_execute hstep hconn (hrun.trans (by rfl)), ha, if_pos rfl]
    exact hremove

end Removal

/-- Kicking a member and banning it leave what its own departure leaves, but for the ban. -/
theorem removals_agree {s : System XID} (h : (machine env server).Reachable s) {r : String}
    {room : Room XID} (hr : r ≠ "") (hroom : s.rooms.rooms.lookup r = some room)
    {o t : ClientInfo XID} (ho : o ∈ s.clients) (ht : t ∈ s.clients) (howner : room.OwnedBy o.id)
    (hmem : t.id ∈ room.users.keys) (hne : t.id ≠ o.id) :
    RemovalsAgree env server s r room o t := by
  have hwf := reachable_wf h
  have hino := hwf.rooms.in_of_mem hr hroom howner.mem
  have hint := hwf.rooms.in_of_mem hr hroom hmem
  have hnot : ¬ room.OwnedBy t.id := fun howns ↦
    hne ((hwf.rooms.sound r room hroom).owner_unique _ _ howns howner)
  obtain ⟨target, htarget⟩ := GoMap.mem_keys.mp hmem
  constructor
  · intro a ha htargets d
    obtain ⟨gone, _, w, hleft, hgone, hchange⟩ :=
      step_disconnected server hwf ht hint hnot howner.mem hne.symm d
    obtain ⟨kicked, _, w', hkick, hkicked, hchange'⟩ :=
      step_remove server hwf ho hino howner (Or.inl ha) htargets htarget
    rw [ha, if_neg (by decide)] at hkicked
    refine ⟨kicked, gone, hkick, hleft, ?_⟩
    rw [hkicked, hgone]
    exact .of_change hchange' hchange
  · intro a ha htargets d
    obtain ⟨gone, _, w, hleft, hgone, hchange⟩ :=
      step_disconnected server hwf ht hint hnot howner.mem hne.symm d
    obtain ⟨banned, _, w', hban, hbanned, hchange'⟩ :=
      step_remove server hwf ho hino howner (Or.inr ha) htargets htarget
    rw [ha, if_pos rfl] at hbanned
    refine ⟨banned, gone, target, room.remove t.id, hban, hleft, htarget, ?_, ?_⟩
    · rw [hgone, GoMap.lookup_insert_self]
    · rw [hbanned, hgone, GoMap.insert_insert]
      exact .of_change hchange' hchange

/-- The member that goes watches the screen of the owner. -/
theorem removals_agree_screening : ∃ room, (System.after (Env.sample authModeNone)
    (.internal ⟨∅⟩) (screening "turn")).rooms.rooms.lookup "lobby" = some room ∧
    RemovalsAgree (Env.sample authModeNone) (.internal ⟨∅⟩) (System.after (Env.sample authModeNone)
      (.internal ⟨∅⟩) (screening "turn")) "lobby" room (guest 0) (guest 1) := by
  have hlobby : ((System.after (Env.sample authModeNone) (.internal ⟨∅⟩)
      (screening "turn")).rooms.rooms.lookup "lobby").any fun room ↦
      ((room.users.lookup 0).any fun u ↦ u.owner) ∧ 1 ∈ room.users.keys := by
    decide +kernel
  obtain ⟨room, hroom, hlobby⟩ := (Option.any_eq_true _ _).mp hlobby
  obtain ⟨howner, hmem⟩ := of_decide_eq_true hlobby
  exact ⟨room, hroom, removals_agree (System.reachable_after _ _ _) (by decide) hroom
    (by decide +kernel) (by decide +kernel) (Room.ownedBy_iff_any.mpr howner) hmem (by decide)⟩

end Screego
