import Screego.Spec.Refinement

/-!
# Sharing

At most one member of a room is on the air, with permission, and every session
leads from it to another member.  That each viewer has a session holds as well;
that it has only one fails after a second `share` of the same host, and exactly
then.
-/

namespace Screego

open Outgoing World Rooms

variable {XID : Type} [DecidableEq XID] {env : Env XID} {server : Turn.Server}

/-! ## One permitted host -/

/-- `k` is not on the air in the room. -/
def Room.Off (k : XID) (room : Room XID) : Prop :=
  ∀ u, room.users.lookup k = some u → ¬ u.streaming

structure ExclusiveSharing (room : Room XID) : Prop where
  unique : ∀ k u k' u', room.users.lookup k = some u → room.users.lookup k' = some u' →
    u.streaming → u'.streaming → k = k'
  permitted : ∀ k u, room.users.lookup k = some u → u.streaming → u.canShare
  sessions : ∀ id l, room.sessions.lookup id = some l →
    (∃ u, room.users.lookup l.host = some u ∧ u.streaming) ∧
      l.client ∈ room.users.keys ∧ l.client ≠ l.host
  stopped : ∀ k, room.Off k → ∀ id l, room.sessions.lookup id = some l → l.host ≠ k

theorem Room.Sound.exclusive {r : String} {room : Room XID} (h : room.Sound r) :
    ExclusiveSharing room := by
  refine ⟨h.streamer_unique, h.permitted, ?_, ?_⟩
  · intro id l hl
    exact ⟨h.hosted id l hl, h.viewed id l hl⟩
  · rintro k hoff id l hl rfl
    obtain ⟨u, hu, hstreaming⟩ := h.hosted id l hl
    exact hoff u hu hstreaming

/-- The action of the owner `o` takes `k` off the air or out of the room. -/
def OwnerAction.TakesOff (env : Env XID) (a : OwnerAction) (o k : XID) : Prop :=
  (a.action = "disable_all" ∧ k ≠ o) ∨
  (a.Targets env o k ∧ (a.action = "stop_share" ∨ a.action = "toggle_share_permission" ∨
    a.action = "kick" ∨ a.action = "ban"))

/-- The step ends the share of the member `k` of the room. -/
def TakesOff (env : Env XID) (room : Room XID) (k : XID) : Action XID → Prop
  | .receive info .stopShare => info.id = k
  | .receive info .exit => info.id = k
  | .receive info (.disconnected _) => info.id = k
  | .receive info (.ownerAction a) => room.OwnedBy info.id ∧ a.TakesOff env info.id k
  | _ => False

theorem RoomOp.apply_off {op : RoomOp XID} {k : XID} (hop : ∀ u, ¬ (op.update k u).streaming)
    (room : Room XID) : (op.apply room).Off k := by
  intro u hu
  obtain ⟨v, -, rfl⟩ := RoomOp.apply_lookup.mp hu
  exact hop v

theorem Room.remove_off (k : XID) (room : Room XID) : (room.remove k).Off k :=
  fun _ hu ↦ absurd rfl (remove_lookup.mp hu).1

theorem OwnerAction.TakesOff.acts {a : OwnerAction} {o k : XID} {room : Room XID} {u : User XID}
    (h : a.TakesOff env o k) (hu : room.users.lookup k = some u) (hs : u.streaming) :
    ∃ room', a.Acts env o room room' ∧ room'.Off k := by
  rcases h with ⟨ha, hne⟩ | ⟨ht, ha | ha | ha | ha⟩
  · exact ⟨_, .disableAll ha, RoomOp.apply_off (by simp [RoomOp.update, hne]) room⟩
  · exact ⟨_, .stopShare ha ht hu hs, RoomOp.apply_off (by simp [RoomOp.update]) room⟩
  · exact ⟨_, .toggle ha ht hu, RoomOp.apply_off (by simp [RoomOp.update]) room⟩
  · exact ⟨_, .kick ha ht hu, room.remove_off k⟩
  · exact ⟨_, .ban ha ht hu, Room.remove_off k _⟩

theorem TakesOff.off {s t : System XID} {a : Action XID} {r : String} {room room' : Room XID}
    {k : XID} {u : User XID} (h : TakesOff env room k a) (hwf : s.WF env)
    (hstep : (machine env server).step s a t) (hin : s.rooms.In k r room)
    (hu : room.users.lookup k = some u) (hs : u.streaming)
    (hroom' : t.rooms.rooms.lookup r = some room') : room'.Off k := by
  have hconn := GoMap.mem_keys_of_lookup hin.connected
  have hgone (d : Disconnected) {info : ClientInfo XID} (hk : info.id = k)
      (ht : t.rooms = d.executeNoError env s.rooms info) : room'.Off k := by
    subst hk
    intro u' hu'
    rw [ht] at hroom'
    exact absurd ⟨room', hroom', GoMap.mem_keys_of_lookup hu'⟩
      (executeNoError_left hwf.rooms hin d).not_member
  cases a with
  | dial _ _ _ => exact h.elim
  | connect _ => exact h.elim
  | health => exact h.elim
  | receive info event =>
      cases event with
      | exit =>
          obtain rfl : info.id = k := h
          exact hgone _ rfl (step_of_execute hstep hconn rfl)
      | disconnected d =>
          obtain rfl : info.id = k := h
          exact hgone d rfl (step_of_execute hstep hconn rfl)
      | stopShare =>
          obtain rfl : info.id = k := h
          obtain ⟨ended, w, hrun, -⟩ := stopShare_ok hwf.rooms hin
          rw [step_of_execute hstep hconn hrun, GoMap.lookup_insert_self] at hroom'
          rw [← Option.some.inj hroom']
          exact RoomOp.apply_off (by simp [RoomOp.update]) room
      | ownerAction a =>
          obtain ⟨howned, hoff⟩ := h
          have howner := hwf.rooms.in_of_mem hin.ne_empty hin.lookup howned.mem
          obtain ⟨room₁, hacts, hoff⟩ := hoff.acts hu hs
          obtain ⟨s', hrun, hrooms⟩ := OwnerAction.acts_ok hwf.rooms howner howned hacts
          rw [step_of_execute hstep (GoMap.mem_keys_of_lookup howner.connected) hrun, hrooms,
            GoMap.lookup_insert_self] at hroom'
          exact Option.some.inj hroom' ▸ hoff
      | _ => exact h.elim

theorem exclusiveSharing {s : System XID} (h : (machine env server).Reachable s) {r : String}
    {room : Room XID} (hroom : s.rooms.rooms.lookup r = some room) :
    ExclusiveSharing room ∧ ∀ k u, room.users.lookup k = some u → u.streaming → ∀ a t,
      (machine env server).step s a t → TakesOff env room k a →
      ∀ room', t.rooms.rooms.lookup r = some room' →
        ∀ id l, room'.sessions.lookup id = some l → l.host ≠ k := by
  have hwf := reachable_wf h
  have hsound := hwf.rooms.sound r room hroom
  refine ⟨hsound.exclusive, ?_⟩
  intro k u hu hs a t hstep hoff room' hroom'
  have hr : r ≠ "" := fun hr ↦ hsound.quiet hr k u hu hs
  have hin := hwf.rooms.in_of_mem hr hroom (GoMap.mem_keys_of_lookup hu)
  have hafter := (hwf.step hstep).rooms.sound r room' hroom'
  exact hafter.exclusive.stopped k (hoff.off hwf hstep hin hu hs hroom')

theorem exclusiveSharing_screening : ∃ room, (System.after (Env.sample authModeNone)
    (.internal ⟨∅⟩) (screening "local")).rooms.rooms.lookup "lobby" = some room ∧
    ExclusiveSharing room ∧ ∀ room', (System.after (Env.sample authModeNone) (.internal ⟨∅⟩)
      (screening "local" ++ [.receive (guest 0) .stopShare])).rooms.rooms.lookup "lobby" =
        some room' → ∀ id l, room'.sessions.lookup id = some l → l.host ≠ 0 := by
  have hsome : ((System.after (Env.sample authModeNone) (.internal ⟨∅⟩)
      (screening "local")).rooms.rooms.lookup "lobby").any fun room ↦
        (room.users.lookup 0).any fun u ↦ u.streaming := by decide +kernel
  obtain ⟨room, hroom, hhost⟩ := (Option.any_eq_true _ _).mp hsome
  obtain ⟨u, hu, hs⟩ := (Option.any_eq_true _ _).mp hhost
  obtain ⟨hexclusive, hstop⟩ := exclusiveSharing (System.reachable_after _ _ _) hroom
  exact ⟨room, hroom, hexclusive, hstop 0 u hu hs (.receive (guest 0) .stopShare) _
    (System.step_after _ (by decide +kernel) (by decide +kernel)) rfl⟩

/-! ## One session for each viewer -/

/-- Each member on the air has exactly one session with each other member. -/
def Room.Complete (room : Room XID) : Prop :=
  ∀ h u, room.users.lookup h = some u → u.streaming →
    ∀ c ∈ room.users.keys, c ≠ h → ∃! id, room.sessions.lookup id = some ⟨h, c⟩

def Complete (s : Rooms XID) : Prop := ∀ r room, s.rooms.lookup r = some room → room.Complete

/-- The step is a `share` of a member that is on the air already and has viewers. -/
def SharesAgain (env : Env XID) (s : System XID) : Action XID → Prop
  | .receive info .startShare => ∃ r room u k v4 v6, s.rooms.currentRoom info = .ok (r, room) ∧
      room.users.lookup info.id = some u ∧ u.streaming ∧ k ∈ room.users.keys ∧ k ≠ info.id ∧
      env.turnIPProvider s.rooms.world.tick = .ok (v4, v6)
  | _ => False

namespace Room

variable {c : ClientInfo XID} {w : World XID} {e : Event XID} {r : String} {room room' : Room XID}

theorem Complete.thin (h : room.Complete)
    (hstream : ∀ k u', room'.users.lookup k = some u' → u'.streaming →
      ∃ u, room.users.lookup k = some u ∧ u.streaming)
    (hkeys : ∀ k ∈ room'.users.keys, k ∈ room.users.keys)
    (hsessions : ∀ k u', room'.users.lookup k = some u' → u'.streaming →
      ∀ v ∈ room'.users.keys, ∀ id, room'.sessions.lookup id = some ⟨k, v⟩ ↔
        room.sessions.lookup id = some ⟨k, v⟩) : room'.Complete := by
  intro k u' hu' hs v hv hne
  obtain ⟨u, hu, hstreaming⟩ := hstream k u' hu' hs
  simp only [hsessions k u' hu' hs v hv]
  exact h k u hu hstreaming v (hkeys v hv) hne

theorem Complete.remove (h : room.Complete) (t : XID) : (room.remove t).Complete := by
  refine h.thin ?_ ?_ ?_
  · intro k u hu hs
    exact ⟨u, (remove_lookup.mp hu).2, hs⟩
  · intro k hk
    rw [remove_keys] at hk
    exact Finset.mem_of_mem_erase hk
  · intro k u hu _ v hv id
    rw [remove_keys] at hv
    have huntouched : ¬ Touches t ⟨k, v⟩ := by
      rintro (rfl | rfl)
      · exact (remove_lookup.mp hu).1 rfl
      · exact Finset.ne_of_mem_erase hv rfl
    rw [remove_sessions_lookup]
    exact ⟨fun hl ↦ hl.1, fun hl ↦ ⟨hl, huntouched⟩⟩

theorem Complete.promote (h : room.Complete) (t : XID) : (room.promote t).Complete := by
  refine h.thin ?_ ?_ fun _ _ _ _ _ _ _ ↦ Iff.rfl
  · intro k u hu hs
    obtain ⟨v, hv, rfl⟩ := promote_lookup.mp hu
    refine ⟨v, hv, ?_⟩
    split at hs <;> exact hs
  · intro k hk
    rwa [show (room.promote t).users.keys = room.users.keys from GoMap.keys_mapVals _ _] at hk

/-- Who is on the air after an operation keeps all of its sessions. -/
theorem not_ends_of_streaming {op : RoomOp XID} {l : RoomSession XID} {u : User XID}
    (h : (op.update l.host u).streaming) : ¬ op.Ends l := by
  intro hends
  cases op <;> simp_all [RoomOp.update, RoomOp.Ends]

theorem Complete.update (h : room.Complete) (hsound : room.Sound r) (op : RoomOp XID) :
    (op.apply room).Complete := by
  refine h.thin ?_ ?_ ?_
  · intro k u hu hs
    obtain ⟨v, hv, rfl⟩ := RoomOp.apply_lookup.mp hu
    exact ⟨v, hv, (RoomOp.update_streaming hs (hsound.permitted k v hv)).1⟩
  · intro k hk
    obtain ⟨u, hu⟩ := GoMap.mem_keys.mp hk
    obtain ⟨v, hv, -⟩ := RoomOp.apply_lookup.mp hu
    exact GoMap.mem_keys_of_lookup hv
  · intro k u hu hs v _ id
    obtain ⟨u', hu', rfl⟩ := RoomOp.apply_lookup.mp hu
    have hkept : ¬ op.Ends ⟨k, v⟩ := not_ends_of_streaming hs
    rw [RoomOp.apply_sessions_lookup]
    exact ⟨fun hl ↦ hl.1, fun hl ↦ ⟨hl, hkept⟩⟩

omit [DecidableEq XID] in
theorem Opened.existsUnique {links : RoomSession XID → Prop} {os : List (OpenedSession XID)}
    (h : room.Opened env w links os) {l : RoomSession XID} (hl : links l) :
    ∃! id, ∃ o ∈ os, o.id = id ∧ o.session = l := by
  obtain ⟨o, ho, rfl⟩ := List.mem_map.mp ((h.mem_iff l).mpr hl)
  refine ⟨o.id, ⟨o, ho, rfl, rfl⟩, ?_⟩
  rintro id ⟨o', ho', rfl, hsession⟩
  rw [List.inj_on_of_nodup_map h.nodup ho' ho hsession]

omit [DecidableEq XID] in
theorem Opened.not_mem {links : RoomSession XID → Prop} {os : List (OpenedSession XID)}
    (h : room.Opened env w links os) {l : RoomSession XID} (hl : ¬ links l) (id : XID) :
    ¬ ∃ o ∈ os, o.id = id ∧ o.session = l := by
  rintro ⟨o, ho, -, rfl⟩
  exact hl ((h.mem_iff _).mp (List.mem_map.mpr ⟨o, ho, rfl⟩))

theorem openSessions_lookup_iff (room : Room XID) {os : List (OpenedSession XID)}
    (hids : (os.map OpenedSession.id).Nodup) (hnew : ∀ o ∈ os, o.id ∉ room.sessions.keys)
    {id : XID} {l : RoomSession XID} : (room.openSessions os).sessions.lookup id = some l ↔
      room.sessions.lookup id = some l ∨ ∃ o ∈ os, o.id = id ∧ o.session = l := by
  rw [openSessions_unused hids hnew]
  simp

theorem Step.complete (hstep : Step env c w e r room room') (h : room.Complete)
    (hsound : room.Sound r)
    (hfirst : e = .startShare → (∃ v4 v6, env.turnIPProvider w.tick = .ok (v4, v6)) →
      ∀ u, room.users.lookup c.id = some u → u.streaming → ∀ k ∈ room.users.keys, k = c.id) :
    room'.Complete := by
  cases hstep with
  | @enter name os hnamed hban hfresh hos hnew =>
      intro k u hu hs v hv hne
      rw [openSessions_users] at hu hv
      rcases enter_lookup.mp hu with ⟨-, rfl⟩ | ⟨hkc, hu⟩
      · cases hs
      · have hsessions : (room.enter (c.newUser name false)).sessions = room.sessions := rfl
        simp only [openSessions_lookup_iff (room.enter _) hos.nodup_ids hnew, hsessions]
        rcases (enter_keys room c name v).mp hv with rfl | hv
        · -- the client that enters had no session before
          have hnone : ∀ id, ¬ room.sessions.lookup id = some ⟨k, c.id⟩ :=
            fun id hl ↦ hsound.not_touches hfresh hl (Or.inr rfl)
          have hopened := hos.existsUnique (l := ⟨k, c.id⟩) ⟨rfl, hkc, u, hu, hs⟩
          simpa [hnone] using hopened
        · by_cases hvc : v = c.id
          · subst hvc
            have hr : r = "" := not_not.mp fun hr ↦ hfresh hr hv
            exact absurd hs (hsound.quiet hr k u hu)
          · have hnone := hos.not_mem (l := ⟨k, v⟩) fun hl ↦ hvc hl.1
            simpa [hnone] using h k u hu hs v hv hne
  | @update op _ _ _ => exact h.update hsound op
  | @share u os he _ huser _ hfree hip hos hnew =>
      intro k u' hu' hs v hv hne
      rw [openSessions_users] at hu' hv
      rw [startStream_keys] at hv
      obtain ⟨v', hv', rfl⟩ := startStream_lookup.mp hu'
      obtain rfl : k = c.id := by
        by_contra hkc
        rw [if_neg hkc] at hs
        exact hkc (hfree k v' hv' hs)
      simp only [openSessions_lookup_iff (room.startStream c.id) hos.nodup_ids hnew]
      -- a first share finds no session of the host
      have hoff : ¬ u.streaming := fun hon ↦ hne (hfirst he hip u huser hon v hv)
      have hnone : ∀ id, ¬ room.sessions.lookup id = some ⟨c.id, v⟩ := by
        intro id hl
        obtain ⟨hu, hhost, hon⟩ := hsound.hosted id _ hl
        rw [huser] at hhost
        exact hoff (Option.some.inj hhost ▸ hon)
      have hopened := hos.existsUnique (l := ⟨c.id, v⟩) ⟨rfl, hne, hv⟩
      simpa [startStream, mapUsers, hnone] using hopened
  | @remove _ target _ _ _ _ _ hban =>
      rcases hban with rfl | rfl
      · exact h.remove _
      · have hbanned : (room.banAddr target.addr).Complete := h
        exact hbanned.remove _
  | left _ hleft =>
      cases hleft with
      | member _ _ _ _ => exact h.remove _
      | owner _ _ _ => exact (h.remove _).promote _

/-- A member on the air that shares again gets a second session with each viewer. -/
theorem Complete.not_shareAgain (h : room.Complete) {u : User XID}
    (huser : room.users.lookup c.id = some u) (hs : u.streaming) {k : XID}
    (hk : k ∈ room.users.keys) (hne : k ≠ c.id) {os : List (OpenedSession XID)}
    (hos : room.Opened env w (fun l ↦ l.host = c.id ∧ l.client ≠ c.id ∧
      l.client ∈ room.users.keys) os) (hnew : ∀ o ∈ os, o.id ∉ room.sessions.keys) :
    ¬ ((room.startStream c.id).openSessions os).Complete := by
  intro hafter
  have hlookup : ∀ id, ((room.startStream c.id).openSessions os).sessions.lookup id =
      some ⟨c.id, k⟩ ↔ room.sessions.lookup id = some ⟨c.id, k⟩ ∨
        ∃ o ∈ os, o.id = id ∧ o.session = ⟨c.id, k⟩ :=
    fun _ ↦ openSessions_lookup_iff (room.startStream c.id) hos.nodup_ids hnew
  have huser' : ((room.startStream c.id).openSessions os).users.lookup c.id =
      some { u with streaming := true } := by
    rw [openSessions_users]
    exact startStream_lookup.mpr ⟨u, huser, if_pos rfl⟩
  have hk' : k ∈ ((room.startStream c.id).openSessions os).users.keys := by
    rw [openSessions_users, startStream_keys]
    exact hk
  -- the session from before and the one opened now
  obtain ⟨old, hold, -⟩ := h c.id u huser hs k hk hne
  obtain ⟨new, ⟨o, ho, rfl, hsession⟩, -⟩ := hos.existsUnique (l := ⟨c.id, k⟩) ⟨rfl, hne, hk⟩
  have heq : old = o.id := (hafter c.id _ huser' rfl k hk' hne).unique
    ((hlookup old).mpr (Or.inl hold)) ((hlookup o.id).mpr (Or.inr ⟨o, ho, rfl, hsession⟩))
  exact hnew o ho (heq ▸ GoMap.mem_keys_of_lookup hold)

end Room

theorem SharesAgain.not_complete {s t : System XID} {a : Action XID} (ha : SharesAgain env s a)
    (hwf : s.WF env) (hcomplete : Complete s.rooms) (h : (machine env server).step s a t) :
    ¬ Complete t.rooms := by
  cases a with
  | dial _ _ _ => exact ha.elim
  | connect _ => exact ha.elim
  | health => exact ha.elim
  | receive info event =>
      cases event with
      | startShare =>
          obtain ⟨r, room, u, k, v4, v6, hcurrent, huser, hs, hk, hne, hip⟩ := ha
          have hin := in_of_currentRoom hcurrent
          have hsound := hwf.rooms.sound r room hin.lookup
          obtain ⟨os, told, w, hrun, hos, -, -, hworld⟩ := startShare_ok hwf.rooms hin huser
            (hsound.permitted _ u huser hs)
            (fun k' u' hu' hs' ↦ hsound.streamer_unique k' u' info.id u hu' huser hs' hs) hip
          have hroom : t.rooms.rooms.lookup r =
              some ((room.startStream info.id).openSessions os) := by
            rw [step_of_execute h (GoMap.mem_keys_of_lookup hin.connected) hrun,
              GoMap.lookup_insert_self]
          intro hafter
          exact (hcomplete r room hin.lookup).not_shareAgain huser hs hk hne hos
            (hwf.rooms.unused_of_born hin.lookup hworld) (hafter r _ hroom)
      | _ => exact ha.elim

/-- A step keeps the sessions complete exactly if it is not a repeated `share`. -/
theorem complete_step {s t : System XID} {a : Action XID} (hwf : s.WF env)
    (hcomplete : Complete s.rooms) (h : (machine env server).step s a t) :
    Complete t.rooms ↔ ¬ SharesAgain env s a := by
  refine ⟨fun hafter hagain ↦ hagain.not_complete hwf hcomplete h hafter, ?_⟩
  intro hfirst r room' hroom'
  rcases (step_effect hwf h).room_step hwf.rooms hroom' with hold |
    ⟨ce, name, createdAt, -, -, -, -, -, rfl⟩ | ⟨room, hroom, hstep⟩
  · exact hcomplete r room' hold
  · intro k u hu hs
    rw [(Room.create_lookup hu).2] at hs
    cases hs
  · refine hstep.complete (hcomplete r room hroom) (hwf.rooms.sound r room hroom) ?_
    intro hevent hip u huser hs k hk
    by_contra hne
    have hr : r ≠ "" := fun hr ↦ (hwf.rooms.sound r room hroom).quiet hr _ u huser hs
    refine hfirst ?_
    obtain ⟨info, rfl⟩ := receive_of_event hevent rfl
    have hin := hwf.rooms.in_of_mem hr hroom (GoMap.mem_keys_of_lookup huser)
    obtain ⟨v4, v6, hip⟩ := hip
    exact ⟨r, room, u, k, v4, v6, currentRoom_of_in hin, huser, hs, hk, hne, hip⟩

/-- In a run the sessions are complete throughout exactly when no step is a repeated `share`. -/
theorem run_complete_iff {l : List (System XID × Action XID)} {t : System XID}
    (h : (machine env server).Run (machine env server).init l t) :
    ((∀ p ∈ l, Complete p.1.rooms) ∧ Complete t.rooms) ↔ ∀ p ∈ l, ¬ SharesAgain env p.1 p.2 := by
  refine h.always_iff (P := fun s ↦ Complete s.rooms) (Q := fun s a ↦ ¬ SharesAgain env s a) ?_ ?_
  · intro r room hroom
    cases hroom
  · intro s t a hreach hcomplete hstep
    exact complete_step (reachable_wf hreach) hcomplete hstep

theorem run_complete_screening :
    ((∀ p ∈ (System.history (Env.sample authModeNone) (.internal ⟨∅⟩) (screening "local")).1,
        Complete p.1.rooms) ∧
      Complete (System.history (Env.sample authModeNone) (.internal ⟨∅⟩)
        (screening "local")).2.rooms) ↔
      ∀ p ∈ (System.history (Env.sample authModeNone) (.internal ⟨∅⟩) (screening "local")).1,
        ¬ SharesAgain (Env.sample authModeNone) p.1 p.2 :=
  run_complete_iff (System.run_history _ _ _)

/-- The host of a running share sends `share` again: its viewer has two sessions. -/
theorem complete_fails :
    ¬ ∀ s, (machine (Env.sample authModeNone) (.internal ⟨∅⟩)).Reachable s →
      Complete s.rooms := by
  intro h
  have hcomplete := h _ (System.reachable_after (Env.sample authModeNone) (.internal ⟨∅⟩)
    (screening "local" ++ [.receive (guest 0) .startShare])) "lobby"
  revert hcomplete
  generalize hlookup : (System.after (Env.sample authModeNone) (.internal ⟨∅⟩)
    (screening "local" ++ [.receive (guest 0) .startShare])).rooms.rooms.lookup "lobby" = found
  have hfound : found.any fun room ↦ (room.users.lookup 0).any (fun u ↦ u.streaming) ∧
      1 ∈ room.users.keys ∧ room.sessions.lookup 17 = some ⟨0, 1⟩ ∧
      room.sessions.lookup 23 = some ⟨0, 1⟩ := by
    rw [← hlookup]
    decide +kernel
  intro hcomplete
  obtain ⟨room, rfl, hroom⟩ := (Option.any_eq_true _ _).mp hfound
  obtain ⟨hhost, hviewer, h17, h23⟩ := of_decide_eq_true hroom
  obtain ⟨u, hu, hs⟩ := (Option.any_eq_true _ _).mp hhost
  have hunique := (hcomplete room rfl 0 u hu hs 1 hviewer (by decide)).unique h17 h23
  cases hunique

end Screego
