import Screego.Spec.Departure

/-!
# Where a room comes from

A room is made by one `create`, and what that message says of its mode and of
the end of the owner holds for as long as the room exists.
-/

namespace Screego

open Outgoing World Rooms

variable {XID : Type} [DecidableEq XID] {env : Env XID} {server : Turn.Server}

/-- What nothing changes while a room exists. -/
structure Room.Origin (room room' : Room XID) : Prop where
  mode : room'.mode = room.mode
  closeOnOwnerLeave : room'.closeOnOwnerLeave = room.closeOnOwnerLeave
  createdAt : room'.createdAt = room.createdAt

/-- The room under `r` was created by the message `e` of `info` in one of the steps, and it has
been there ever since. -/
inductive Founded (env : Env XID) (r : String) (info : ClientInfo XID) (e : Create) :
    List (System XID × Action XID) → Prop
  | create {l : List (System XID × Action XID)} {s : System XID} (hid : e.id = r)
      (hnone : s.rooms.rooms.lookup r = none)
      (hout : s.rooms.connected.lookup info.id = some "") (hauth : e.authError env info = none) :
      Founded env r info e (l ++ [(s, .receive info (.create e))])
  | later {l : List (System XID × Action XID)} {s : System XID} {a : Action XID}
      (h : Founded env r info e l) (hroom : ∃ room, s.rooms.rooms.lookup r = some room) :
      Founded env r info e (l ++ [(s, a)])

section Step

variable {s s' : Rooms XID} {c : ClientInfo XID} {e : Event XID} {r : String}
  {room room' : Room XID} {w : World XID}

theorem Room.Step.origin (h : room.Step env c w e r room') : room.Origin room' := by
  cases h with
  | enter _ _ _ _ _ => exact ⟨rfl, rfl, rfl⟩
  | update _ _ _ => exact ⟨rfl, rfl, rfl⟩
  | share _ _ _ _ _ _ _ _ => exact ⟨rfl, rfl, rfl⟩
  | remove _ _ _ _ hban => rcases hban with rfl | rfl <;> exact ⟨rfl, rfl, rfl⟩
  | left _ hleft => cases hleft <;> exact ⟨rfl, rfl, rfl⟩

/-- A room after a step is the one that was there, or a new one. -/
theorem Effect.origin (h : Effect env c s e s') (hwf : s.WF env)
    (hroom' : s'.rooms.lookup r = some room') :
    (∃ room, s.rooms.lookup r = some room ∧ room.Origin room') ∨
    ∃ (ce : Create) (name : String) (createdAt : ℤ), e = .create ce ∧ ce.id = r ∧
      s.connected.lookup c.id = some "" ∧ s.rooms.lookup r = none ∧ ce.authError env c = none ∧
      room' = ce.room c name createdAt := by
  rcases h.room_step hwf hroom' with hold |
    ⟨ce, name, createdAt, he, hid, hout, hnone, hauth, heq⟩ | ⟨room, hroom, hstep⟩
  · exact Or.inl ⟨room', hold, rfl, rfl, rfl⟩
  · exact Or.inr ⟨ce, name, createdAt, he, hid.symm, hout, hnone, hauth, heq⟩
  · exact Or.inl ⟨room, hroom, hstep.origin⟩

end Step

variable {l : List (System XID × Action XID)} {t : System XID} {r : String} {room : Room XID}

theorem founded_of_lookup (h : (machine env server).Run (machine env server).init l t)
    (hroom : t.rooms.rooms.lookup r = some room) : ∃ info e, Founded env r info e l := by
  induction h generalizing room with
  | nil => cases hroom
  | @snoc l s t a hr hst ih =>
      have hwf := reachable_wf ⟨l, hr⟩
      rcases (step_effect hwf hst).origin hwf.rooms hroom with ⟨room₀, hold, -⟩ |
        ⟨e, name, createdAt, hevent, hid, hout, hnone, hauth, -⟩
      · obtain ⟨info, e, hfounded⟩ := ih hold
        exact ⟨info, e, hfounded.later ⟨room₀, hold⟩⟩
      · obtain ⟨info, rfl⟩ := receive_of_event hevent rfl
        exact ⟨info, e, .create hid hnone hout hauth⟩

theorem Founded.authError {info : ClientInfo XID} {e : Create} (h : Founded env r info e l) :
    e.authError env info = none := by
  induction h with
  | create _ _ _ hauth => exact hauth
  | later _ _ ih => exact ih

/-- A room still is what its `create` asked for. -/
theorem Founded.origin {info : ClientInfo XID} {e : Create} (h : Founded env r info e l)
    (hrun : (machine env server).Run (machine env server).init l t)
    (hroom : t.rooms.rooms.lookup r = some room) :
    room.mode = e.mode ∧ room.closeOnOwnerLeave = e.closeOnOwnerLeave := by
  induction h generalizing t room with
  | @create l s hid hnone _ _ =>
      obtain ⟨hr, hst⟩ := hrun.last
      have hwf := reachable_wf ⟨l, hr⟩
      rcases (step_effect hwf hst).origin hwf.rooms hroom with ⟨room₀, hold, -⟩ |
        ⟨e', name, createdAt, hevent, -, -, -, -, rfl⟩
      · rw [hnone] at hold
        cases hold
      · obtain rfl := Event.create.inj hevent
        exact ⟨rfl, rfl⟩
  | @later l s a h hthere ih =>
      obtain ⟨hr, hst⟩ := hrun.last
      have hwf := reachable_wf ⟨l, hr⟩
      obtain ⟨room₁, hroom₁⟩ := hthere
      rcases (step_effect hwf hst).origin hwf.rooms hroom with ⟨room₀, hold, horigin⟩ |
        ⟨_, _, _, -, -, -, hnone, -, -⟩
      · obtain ⟨hmode, hclose⟩ := ih hr hold
        exact ⟨horigin.mode.trans hmode, horigin.closeOnOwnerLeave.trans hclose⟩
      · rw [hroom₁] at hnone
        cases hnone

end Screego
