import Screego.Spec.Refinement

/-!
# Bans

The ban list belongs to the room.  No message shortens it, only the owner makes
it longer, and both ways into an existing room ask it.  So nobody with a banned
address enters until the room itself is gone.
-/

namespace Screego

open Outgoing World Rooms

variable {XID : Type} [DecidableEq XID] {env : Env XID} {server : Turn.Server}

/-- Addresses with the text `a` are banned. -/
def Room.Bans (room : Room XID) (a : String) : Prop := room.bannedIPs.lookup a = some true

/-- A message of `c` turns `room` into `room'` and respects the bans. -/
structure BanStep (c : XID) (room room' : Room XID) : Prop where
  kept : ∀ a, room.Bans a → room'.Bans a
  added : ∀ a, room'.Bans a → room.Bans a ∨ room.OwnedBy c
  barred : ∀ k u, room'.users.lookup k = some u → room.Bans u.addr.toString →
    ∃ v, room.users.lookup k = some v ∧ v.addr = u.addr

section Room

variable {c : ClientInfo XID} {w : World XID} {e : Event XID} {r : String} {room room' : Room XID}

/-- The list stays, and so do the addresses of the members. -/
theorem BanStep.of_eq {c : XID} (hbans : room'.bannedIPs = room.bannedIPs)
    (husers : ∀ k u, room'.users.lookup k = some u →
      ∃ v, room.users.lookup k = some v ∧ v.addr = u.addr) : BanStep c room room' where
  kept := by
    intro a ha
    rw [Room.Bans, hbans]
    exact ha
  added := by
    intro a ha
    rw [Room.Bans, hbans] at ha
    exact Or.inl ha
  barred := fun k u hu _ ↦ husers k u hu

omit [DecidableEq XID] in
theorem Room.bans_banAddr {addr : IP} {a : String} :
    (room.banAddr addr).Bans a ↔ a = addr.toString ∨ room.Bans a := by
  rw [Room.Bans, Room.banAddr, GoMap.lookup_insert]
  by_cases ha : a = addr.toString <;> simp [ha, Room.Bans]

@[simp] theorem RoomOp.update_addr (op : RoomOp XID) (k : XID) (u : User XID) :
    (op.update k u).addr = u.addr := by
  cases op <;> simp only [update] <;> split <;> rfl

theorem Room.LeftBy.addr {c : XID} (h : room.LeftBy c room') {k : XID} {u : User XID}
    (hu : room'.users.lookup k = some u) : ∃ v, room.users.lookup k = some v ∧ v.addr = u.addr := by
  cases h with
  | member _ _ _ _ => exact ⟨u, (Room.remove_lookup.mp hu).2, rfl⟩
  | owner _ _ _ =>
      obtain ⟨v, hv, rfl⟩ := Room.promote_lookup.mp hu
      refine ⟨v, (Room.remove_lookup.mp hv).2, ?_⟩
      split <;> rfl

theorem Room.LeftBy.bannedIPs {c : XID} (h : room.LeftBy c room') :
    room'.bannedIPs = room.bannedIPs := by
  cases h with
  | member _ _ _ _ => rfl
  | owner _ _ _ => rfl

theorem Room.Step.bans (hstep : room.Step env c w e r room') : BanStep c.id room room' := by
  cases hstep with
  | @enter name os _ hban _ _ _ =>
      refine ⟨fun a ha ↦ ha, fun a ha ↦ Or.inl ha, ?_⟩
      intro k u hu hbanned
      rw [Room.openSessions_users] at hu
      rcases Room.enter_lookup.mp hu with ⟨-, rfl⟩ | ⟨-, hu⟩
      · exact absurd hbanned hban
      · exact ⟨u, hu, rfl⟩
  | update _ _ _ =>
      refine .of_eq rfl fun k u hu ↦ ?_
      obtain ⟨v, hv, rfl⟩ := RoomOp.apply_lookup.mp hu
      exact ⟨v, hv, (RoomOp.update_addr _ k v).symm⟩
  | share _ _ _ _ _ _ _ _ =>
      refine .of_eq rfl fun k u hu ↦ ?_
      rw [Room.openSessions_users] at hu
      obtain ⟨v, hv, rfl⟩ := Room.startStream_lookup.mp hu
      refine ⟨v, hv, ?_⟩
      split <;> rfl
  | remove _ howner _ _ hban =>
      rcases hban with rfl | rfl
      · exact .of_eq rfl fun k u hu ↦ ⟨u, (Room.remove_lookup.mp hu).2, rfl⟩
      · refine ⟨fun a ha ↦ Room.bans_banAddr.mpr (Or.inr ha), fun _ _ ↦ Or.inr howner, ?_⟩
        exact fun k u hu _ ↦ ⟨u, (Room.remove_lookup.mp hu).2, rfl⟩
  | left _ hleft => exact .of_eq hleft.bannedIPs fun k u hu ↦ hleft.addr hu

end Room

theorem step_bans {s t : System XID} {a : Action XID} (hwf : s.WF env)
    (h : (machine env server).step s a t) {r : String} {room room' : Room XID}
    (hroom : s.rooms.rooms.lookup r = some room) (hroom' : t.rooms.rooms.lookup r = some room') :
    BanStep (a.info env).id room room' := by
  rcases (step_effect hwf h).room_step hwf.rooms hroom' with hold |
    ⟨_, _, _, -, -, -, hnone, -, -⟩ | ⟨room₀, hroom₀, hstep⟩
  · obtain rfl := Option.some.inj (hroom.symm.trans hold)
    exact .of_eq rfl fun k u hu ↦ ⟨u, hu, rfl⟩
  · rw [hroom] at hnone
    cases hnone
  · obtain rfl := Option.some.inj (hroom.symm.trans hroom₀)
    exact hstep.bans

/-- The room under `r` bans addresses with the text `a`, and no message adds a client with such an
address to its members. -/
structure Barred (env : Env XID) (server : Turn.Server) (u : System XID) (r a : String) :
    Prop where
  listed : ∃ room, u.rooms.rooms.lookup r = some room ∧ room.Bans a
  closed : ∀ act v room room', (machine env server).step u act v →
    u.rooms.rooms.lookup r = some room → v.rooms.rooms.lookup r = some room' →
    ∀ k user, room'.users.lookup k = some user → user.addr.toString = a →
    ∃ user', room.users.lookup k = some user' ∧ user'.addr = user.addr

/-- A room that bans an address does so in every later state, as long as it exists. -/
theorem run_bans {s u : System XID} {l : List (System XID × Action XID)} {r a : String}
    (h : (machine env server).Reachable s)
    (hroom : ∃ room, s.rooms.rooms.lookup r = some room ∧ room.Bans a)
    (hrun : (machine env server).Run s l u)
    (hkept : ∀ p ∈ l, (p.1.rooms.rooms.lookup r).isSome)
    (hlast : (u.rooms.rooms.lookup r).isSome) :
    ∃ room, u.rooms.rooms.lookup r = some room ∧ room.Bans a := by
  induction hrun with
  | nil => exact hroom
  | @snoc l t v b hr hst ih =>
      obtain ⟨room, hroom, hbans⟩ := ih (fun p hp ↦ hkept p (List.mem_append_left _ hp))
        (hkept (t, b) (List.mem_append_right _ List.mem_cons_self))
      obtain ⟨room', hroom'⟩ := Option.isSome_iff_exists.mp hlast
      have hstep := step_bans (reachable_wf (h.run hr)) hst hroom hroom'
      exact ⟨room', hroom', hstep.kept a hbans⟩

/-- The owner bans a member; from then on nobody with that address enters the room.  No ban is ever
lifted, and only owners ban. -/
theorem ban_lasts {s t u : System XID} {info : ClientInfo XID} {act : OwnerAction} {r : String}
    {room : Room XID} {k : XID} {user : User XID} {l : List (System XID × Action XID)}
    (h : (machine env server).Reachable s) (hin : s.rooms.In info.id r room)
    (howner : room.OwnedBy info.id) (hact : act.action = "ban")
    (htarget : act.Targets env info.id k) (huser : room.users.lookup k = some user)
    (hstep : (machine env server).step s (.receive info (.ownerAction act)) t)
    (hrun : (machine env server).Run t l u)
    (hkept : ∀ p ∈ l, (p.1.rooms.rooms.lookup r).isSome)
    (hlast : (u.rooms.rooms.lookup r).isSome) :
    Barred env server u r user.addr.toString ∧
      ∀ v w b, (machine env server).Reachable v → (machine env server).step v b w →
        ∀ r room room', v.rooms.rooms.lookup r = some room →
          w.rooms.rooms.lookup r = some room' → BanStep (b.info env).id room room' := by
  have ht := h.step hstep
  obtain ⟨s', hexecute, hrooms⟩ := OwnerAction.acts_ok (reachable_wf h).rooms hin howner
    (.ban hact htarget huser)
  have hbanned : ∃ room, t.rooms.rooms.lookup r = some room ∧ room.Bans user.addr.toString := by
    rw [step_of_execute hstep (GoMap.mem_keys_of_lookup hin.connected) hexecute, hrooms]
    exact ⟨_, GoMap.lookup_insert_self _ _ _, Room.bans_banAddr.mpr (Or.inl rfl)⟩
  have hlisted := run_bans ht hbanned hrun hkept hlast
  refine ⟨⟨hlisted, ?_⟩, ?_⟩
  · intro b v room₁ room₂ hst hroom₁ hroom₂ k' user' huser' haddr
    obtain ⟨room₀, hroom₀, hbans⟩ := hlisted
    obtain rfl := Option.some.inj (hroom₁.symm.trans hroom₀)
    exact (step_bans (reachable_wf (ht.run hrun)) hst hroom₁ hroom₂).barred k' user' huser'
      (haddr ▸ hbans)
  · intro v w b hv hst r' room₁ room₂ hroom₁ hroom₂
    exact step_bans (reachable_wf hv) hst hroom₁ hroom₂

/-- The owner of a meeting bans the other member. -/
def banishment : OwnerAction := ⟨"ban", "00000000000000000001"⟩

/-- The third client comes from the same address and is turned away. -/
theorem ban_lasts_banishment : ∃ room user, (System.after (Env.sample authModeNone)
      (.internal ⟨∅⟩) (meeting "local")).rooms.rooms.lookup "lobby" = some room ∧
    room.users.lookup 1 = some user ∧
    Barred (Env.sample authModeNone) (.internal ⟨∅⟩) (System.after (Env.sample authModeNone)
      (.internal ⟨∅⟩) (meeting "local" ++ [.receive (guest 0) (.ownerAction banishment)] ++
        [.receive (guest 2) (.join ⟨"lobby", ""⟩)])) "lobby" user.addr.toString := by
  have hsome : ((System.after (Env.sample authModeNone) (.internal ⟨∅⟩)
      (meeting "local")).rooms.rooms.lookup "lobby").any fun room ↦
        ((room.users.lookup 0).any fun u ↦ u.owner) ∧ (room.users.lookup 1).isSome := by
    decide +kernel
  obtain ⟨room, hroom, hboth⟩ := (Option.any_eq_true _ _).mp hsome
  obtain ⟨howned, hother⟩ := of_decide_eq_true hboth
  obtain ⟨owner, hu, ho⟩ := (Option.any_eq_true _ _).mp howned
  obtain ⟨user, huser⟩ := Option.isSome_iff_exists.mp hother
  have hban : (machine (Env.sample authModeNone) (.internal ⟨∅⟩)).step
      (System.after (Env.sample authModeNone) (.internal ⟨∅⟩) (meeting "local"))
      (.receive (guest 0) (.ownerAction banishment))
      (System.after (Env.sample authModeNone) (.internal ⟨∅⟩)
        (meeting "local" ++ [.receive (guest 0) (.ownerAction banishment)])) :=
    System.step_after _ (by decide +kernel) (by decide +kernel)
  have hjoin : (machine (Env.sample authModeNone) (.internal ⟨∅⟩)).step
      (System.after (Env.sample authModeNone) (.internal ⟨∅⟩)
        (meeting "local" ++ [.receive (guest 0) (.ownerAction banishment)]))
      (.receive (guest 2) (.join ⟨"lobby", ""⟩))
      (System.after (Env.sample authModeNone) (.internal ⟨∅⟩) (meeting "local" ++
        [.receive (guest 0) (.ownerAction banishment)] ++
          [.receive (guest 2) (.join ⟨"lobby", ""⟩)])) :=
    System.step_after _ (by decide +kernel) (by decide +kernel)
  refine ⟨room, user, hroom, huser, (ban_lasts (System.reachable_after _ _ _)
    ⟨by decide +kernel, by decide, hroom⟩ ⟨owner, hu, ho⟩ rfl
    ⟨by decide, by decide +kernel, by decide⟩ huser hban (.cons hjoin .nil) ?_ ?_).1⟩
  · intro p hp
    rw [List.mem_singleton.mp hp]
    decide +kernel
  · decide +kernel

end Screego
