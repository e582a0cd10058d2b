import Screego.Spec.Refinement

/-!
# Owners

A room with an id has one owner.  The owner changes only when it leaves, and
then one of those who stay takes over, whichever the iteration picks.
-/

namespace Screego

open Outgoing World Rooms

variable {XID : Type} [DecidableEq XID] {env : Env XID} {server : Turn.Server}

namespace Room

variable {c : ClientInfo XID} {w : World XID} {e : Event XID} {r : String} {room room' : Room XID}

theorem Step.owner (hstep : Step env c w e r room room') (hsound : room.Sound r) (hr : r ≠ "")
    {o : XID} (ho : room.OwnedBy o) :
    room'.OwnedBy o ∨ (c.id = o ∧ o ∉ room'.users.keys ∧
      ∃ o' ∈ room.users.keys, o' ≠ o ∧ room'.OwnedBy o') := by
  obtain ⟨u, hu, howner⟩ := ho
  cases hstep with
  | enter hnamed hban hfresh hos hnew =>
      have hne : o ≠ c.id := fun heq ↦ hfresh hr (heq ▸ GoMap.mem_keys_of_lookup hu)
      refine Or.inl ⟨u, ?_, howner⟩
      rw [openSessions_users]
      exact enter_lookup.mpr (Or.inr ⟨hne, hu⟩)
  | @update op _ _ _ =>
      exact Or.inl (RoomOp.ownedBy_apply ⟨u, hu, howner⟩)
  | share _ _ _ _ _ _ _ _ =>
      unfold OwnedBy
      rw [openSessions_users]
      refine Or.inl ⟨_, startStream_lookup.mpr ⟨u, hu, rfl⟩, ?_⟩
      split <;> exact howner
  | remove _ hacting hne _ hban =>
      -- the owner acts on somebody else
      have hself := hsound.owner_unique o c.id ⟨u, hu, howner⟩ hacting
      have hkept := remove_lookup.mpr ⟨fun heq ↦ hne (heq.symm.trans hself), hu⟩
      rcases hban with rfl | rfl
      · exact Or.inl ⟨u, hkept, howner⟩
      · exact Or.inl ⟨u, hkept, howner⟩
  | left _ hleft =>
      cases hleft with
      | member huser hnot _ _ =>
          refine Or.inl ⟨u, remove_lookup.mpr ⟨?_, hu⟩, howner⟩
          rintro rfl
          rw [hu] at huser
          exact hnot (Option.some.inj huser ▸ howner)
      | owner hacting hnext hne =>
          obtain rfl := hsound.owner_unique o c.id ⟨u, hu, howner⟩ hacting
          refine Or.inr ⟨rfl, ?_, _, hnext, hne, ?_⟩
          · rw [(LeftBy.owner hacting hnext hne).keys]
            simp
          · obtain ⟨v, hv⟩ := GoMap.mem_keys.mp hnext
            exact ⟨_, promote_lookup.mpr ⟨v, remove_lookup.mpr ⟨hne, hv⟩, if_pos rfl⟩, rfl⟩

end Room

/-- What one step of the server does to the ownership of the room under `r`. -/
structure OwnerStep (env : Env XID) (a : Action XID) (t : Rooms XID) (r : String) (room : Room XID)
    (o : XID) : Prop where
  moves : ∀ room', t.rooms.lookup r = some room' → room'.OwnedBy o ∨
    ((a.info env).id = o ∧ o ∉ room'.users.keys ∧
      ∃ o' ∈ room.users.keys, o' ≠ o ∧ room'.OwnedBy o')
  deleted : (∀ k ∈ room.users.keys, ¬ Member t.rooms k r) → t.rooms.lookup r = none

theorem exactly_one_owner {s : System XID} (h : (machine env server).Reachable s) {r : String}
    {room : Room XID} (hr : r ≠ "") (hroom : s.rooms.rooms.lookup r = some room) :
    (∃! o, room.OwnedBy o) ∧ ∀ o, room.OwnedBy o → ∀ a t, (machine env server).step s a t →
      OwnerStep env a t.rooms r room o := by
  have hwf := reachable_wf h
  have hsound := hwf.rooms.sound r room hroom
  refine ⟨?_, ?_⟩
  · obtain ⟨o, ho⟩ := hsound.owned hr
    exact ⟨o, ho, fun o' ho' ↦ hsound.owner_unique o' o ho' ho⟩
  · intro o ho a t hstep
    have hmoves : ∀ room', t.rooms.rooms.lookup r = some room' → room'.OwnedBy o ∨
        ((a.info env).id = o ∧ o ∉ room'.users.keys ∧
          ∃ o' ∈ room.users.keys, o' ≠ o ∧ room'.OwnedBy o') := by
      intro room' hroom'
      rcases (step_effect hwf hstep).room_step hwf.rooms hroom' with hold |
        ⟨ce, name, createdAt, -, -, -, hnone, -, -⟩ | ⟨room₀, hroom₀, hroomStep⟩
      · rw [hroom] at hold
        exact Or.inl (Option.some.inj hold ▸ ho)
      · rw [hroom] at hnone
        cases hnone
      · rw [hroom] at hroom₀
        obtain rfl := Option.some.inj hroom₀
        exact hroomStep.owner hsound hr ho
    refine ⟨hmoves, fun hgone ↦ ?_⟩
    rw [Option.eq_none_iff_forall_ne_some]
    intro room' hroom'
    rcases hmoves room' hroom' with hkept | ⟨-, -, o', ho', -, hnew⟩
    · exact hgone o ho.mem ⟨room', hroom', hkept.mem⟩
    · exact hgone o' ho' ⟨room', hroom', hnew.mem⟩

theorem exactly_one_owner_meeting : ∃ room, (System.after (Env.sample authModeNone)
    (.internal ⟨∅⟩) (meeting "local")).rooms.rooms.lookup "lobby" = some room ∧
    (∃! o, room.OwnedBy o) ∧ OwnerStep (Env.sample authModeNone) (.receive (guest 0) .exit)
      (System.after (Env.sample authModeNone) (.internal ⟨∅⟩)
        (meeting "local" ++ [.receive (guest 0) .exit])).rooms "lobby" room 0 := by
  have hsome : ((System.after (Env.sample authModeNone) (.internal ⟨∅⟩)
      (meeting "local")).rooms.rooms.lookup "lobby").any fun room ↦
        (room.users.lookup 0).any fun u ↦ u.owner := by decide +kernel
  obtain ⟨room, hroom, howned⟩ := (Option.any_eq_true _ _).mp hsome
  obtain ⟨u, hu, ho⟩ := (Option.any_eq_true _ _).mp howned
  obtain ⟨hone, hmoves⟩ :=
    exactly_one_owner (System.reachable_after _ _ _) (by decide) hroom
  exact ⟨room, hroom, hone, hmoves 0 ⟨u, hu, ho⟩ _ _
    (System.step_after _ (by decide +kernel) (by decide +kernel))⟩

end Screego
