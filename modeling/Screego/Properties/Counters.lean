import Screego.Lib.Total
import Screego.Properties.Membership

/-!
# Counters

A room, a member and a session are each counted once when they come and once
when they go, whichever of the handlers lets them go.
-/

namespace Screego

open Outgoing World Rooms

variable {XID : Type} [DecidableEq XID] {env : Env XID} {server : Turn.Server}

/-- What was created and not closed is there. -/
structure Balanced (s : Rooms XID) : Prop where
  rooms : s.world.metrics.roomsCreated = s.world.metrics.roomsClosed + s.rooms.keys.card
  users : s.world.metrics.usersJoined =
    s.world.metrics.usersLeft + s.rooms.total fun room ↦ room.users.keys.card
  sessions : s.world.metrics.sessionCreated =
    s.world.metrics.sessionClosed + s.rooms.total fun room ↦ room.sessions.keys.card

/-! ## Sizes of rooms -/

namespace Room

variable {c : XID} {room room' : Room XID}

theorem keys_endSessions (p : RoomSession XID → Prop) [DecidablePred p] (room : Room XID) :
    (room.endSessions p).sessions.keys = room.sessions.keys \ room.sessionsWhere p := by
  ext id
  simp only [GoMap.mem_keys, endSessions_lookup, Finset.mem_sdiff, mem_sessionsWhere]
  constructor
  · rintro ⟨l, hl, hp⟩
    refine ⟨⟨l, hl⟩, ?_⟩
    rintro ⟨l', hl', hp'⟩
    rw [hl] at hl'
    exact hp (Option.some.inj hl' ▸ hp')
  · rintro ⟨⟨l, hl⟩, hnot⟩
    exact ⟨l, hl, fun hp ↦ hnot ⟨l, hl, hp⟩⟩

theorem card_endSessions (p : RoomSession XID → Prop) [DecidablePred p] (room : Room XID) :
    (room.endSessions p).sessions.keys.card + (room.sessionsWhere p).card =
      room.sessions.keys.card := by
  rw [keys_endSessions]
  refine Finset.card_sdiff_add_card_eq_card ?_
  intro id hid
  obtain ⟨l, hl, -⟩ := mem_sessionsWhere.mp hid
  exact GoMap.mem_keys_of_lookup hl

theorem card_openSessions {os : List (OpenedSession XID)}
    (hids : (os.map OpenedSession.id).Nodup) (hnew : ∀ o ∈ os, o.id ∉ room.sessions.keys) :
    (room.openSessions os).sessions.keys.card = room.sessions.keys.card + os.length := by
  have hkeys : (room.openSessions os).sessions.keys =
      room.sessions.keys ∪ (os.map OpenedSession.id).toFinset := by
    ext id
    simp only [GoMap.mem_keys, openSessions_lookup hids, Finset.mem_union, List.mem_toFinset,
      List.mem_map]
    constructor
    · rintro ⟨l, ⟨o, ho, hid, -⟩ | ⟨-, hl⟩⟩
      · exact Or.inr ⟨o, ho, hid⟩
      · exact Or.inl ⟨l, hl⟩
    · rintro (⟨l, hl⟩ | ⟨o, ho, hid⟩)
      · refine ⟨l, Or.inr ⟨?_, hl⟩⟩
        rintro o ho rfl
        exact hnew o ho (GoMap.mem_keys_of_lookup hl)
      · exact ⟨o.session, Or.inl ⟨o, ho, hid, rfl⟩⟩
  have hdisj : Disjoint room.sessions.keys (os.map OpenedSession.id).toFinset := by
    rw [Finset.disjoint_right]
    intro id hid
    obtain ⟨o, ho, rfl⟩ := List.mem_map.mp (List.mem_toFinset.mp hid)
    exact hnew o ho
  rw [hkeys, Finset.card_union_of_disjoint hdisj, List.toFinset_card_of_nodup hids,
    List.length_map]

theorem card_remove (h : c ∈ room.users.keys) :
    (room.remove c).users.keys.card + 1 = room.users.keys.card := by
  rw [remove_keys]
  exact Finset.card_erase_add_one h

theorem card_enter (c : ClientInfo XID) (name : String) (h : c.id ∉ room.users.keys) :
    (room.enter (c.newUser name false)).users.keys.card = room.users.keys.card + 1 := by
  have hkeys : (room.enter (c.newUser name false)).users.keys = insert c.id room.users.keys :=
    GoMap.keys_insert _ _ _
  rw [hkeys, Finset.card_insert_of_notMem h]

end Room

/-! ## One effect -/

section Balance

variable {s : Rooms XID} {w : World XID} {connected : GoMap XID String} {m : Metrics} {r : String}
  {room room' : Room XID}

omit [DecidableEq XID] in
theorem Balanced.same (h : Balanced s) (hm : w.metrics = s.world.metrics + m)
    (hrooms : m.roomsCreated = m.roomsClosed) (husers : m.usersJoined = m.usersLeft)
    (hsessions : m.sessionCreated = m.sessionClosed) : Balanced ⟨s.rooms, connected, w⟩ := by
  obtain ⟨hr, hu, hs⟩ := h
  refine ⟨?_, ?_, ?_⟩ <;> simp only [hm, Metrics.add_def] <;> omega

omit [DecidableEq XID] in
theorem Balanced.insert (h : Balanced s) (hroom : s.rooms.lookup r = some room)
    (hm : w.metrics = s.world.metrics + m) (hrooms : m.roomsCreated = m.roomsClosed)
    (husers : m.usersJoined + room.users.keys.card = m.usersLeft + room'.users.keys.card)
    (hsessions : m.sessionCreated + room.sessions.keys.card =
      m.sessionClosed + room'.sessions.keys.card) :
    Balanced ⟨s.rooms.insert r room', connected, w⟩ := by
  obtain ⟨hr, hu, hs⟩ := h
  have hcard : (s.rooms.insert r room').keys.card = s.rooms.keys.card := by
    rw [GoMap.keys_insert, Finset.insert_eq_self.mpr (GoMap.mem_keys_of_lookup hroom)]
  have htotalUsers := GoMap.total_insert hroom room' fun room ↦ room.users.keys.card
  have htotalSessions := GoMap.total_insert hroom room' fun room ↦ room.sessions.keys.card
  refine ⟨?_, ?_, ?_⟩ <;> simp only [hm, Metrics.add_def] <;> omega

omit [DecidableEq XID] in
theorem Balanced.erase (h : Balanced s) (hroom : s.rooms.lookup r = some room)
    (hm : w.metrics = s.world.metrics + m) (hrooms : m.roomsCreated + 1 = m.roomsClosed)
    (husers : m.usersJoined + room.users.keys.card = m.usersLeft)
    (hsessions : m.sessionCreated + room.sessions.keys.card = m.sessionClosed) :
    Balanced ⟨s.rooms.erase r, connected, w⟩ := by
  obtain ⟨hr, hu, hs⟩ := h
  have hcard : (s.rooms.erase r).keys.card + 1 = s.rooms.keys.card := by
    rw [GoMap.keys_erase]
    exact Finset.card_erase_add_one (GoMap.mem_keys_of_lookup hroom)
  have htotalUsers := GoMap.total_erase hroom fun room ↦ room.users.keys.card
  have htotalSessions := GoMap.total_erase hroom fun room ↦ room.sessions.keys.card
  refine ⟨?_, ?_, ?_⟩ <;> simp only [hm, Metrics.add_def] <;> omega

omit [DecidableEq XID] in
theorem Balanced.create (h : Balanced s) (hnone : s.rooms.lookup r = none)
    (hm : w.metrics = s.world.metrics + m) (hrooms : m.roomsCreated = m.roomsClosed + 1)
    (husers : m.usersJoined = m.usersLeft + room.users.keys.card)
    (hsessions : m.sessionCreated = m.sessionClosed + room.sessions.keys.card) :
    Balanced ⟨s.rooms.insert r room, connected, w⟩ := by
  obtain ⟨hr, hu, hs⟩ := h
  have hcard : (s.rooms.insert r room).keys.card = s.rooms.keys.card + 1 := by
    rw [GoMap.keys_insert, Finset.card_insert_of_notMem (GoMap.lookup_eq_none.mp hnone)]
  have htotalUsers := GoMap.total_insert_of_none hnone room fun room ↦ room.users.keys.card
  have htotalSessions := GoMap.total_insert_of_none hnone room fun room ↦ room.sessions.keys.card
  refine ⟨?_, ?_, ?_⟩ <;> simp only [hm, Metrics.add_def] <;> omega

end Balance

section Step

variable {s s' : Rooms XID} {c : ClientInfo XID} {e : Event XID}

theorem Left.balanced {r : String} {room : Room XID} (h : Left env c.id s r room s')
    (hwf : s.WF env) (hin : s.In c.id r room) (hs : Balanced s) : Balanced s' := by
  have hmem := hin.member hwf
  cases h with
  | @stay room' _ _ _ _ _ hleft _ _ hworld =>
      have husers : room'.users.keys.card + 1 = room.users.keys.card := by
        rw [hleft.keys]
        exact Finset.card_erase_add_one hmem
      have hsessions : room'.sessions.keys.card + (room.sessionsWhere (Touches c.id)).card =
          room.sessions.keys.card := by
        rw [hleft.sessions]
        exact Room.card_endSessions (Touches c.id) room
      refine hs.insert hin.lookup hworld.metrics rfl ?_ ?_ <;> simp only <;> omega
  | last honly hworld =>
      have hnone := (hwf.sound r room hin.lookup).no_sessions honly
      have hempty : room.sessions.keys = ∅ := by
        ext id
        simp [hnone]
      refine hs.erase hin.lookup hworld.metrics rfl ?_ ?_
      · rw [honly]
        rfl
      · rw [hempty]
        rfl

theorem Effect.balanced (h : Effect env c s e s') (hwf : s.WF env)
    (hnone : s.rooms.lookup "" = none) (hs : Balanced s) : Balanced s' := by
  have hnamed {r : String} {room : Room XID} (hroom : s.rooms.lookup r = some room) : r ≠ "" := by
    rintro rfl
    rw [hnone] at hroom
    cases hroom
  cases h with
  | idle hworld => exact hs.same hworld.metrics rfl rfl rfl
  | connect => exact hs.same (add_zero _).symm rfl rfl rfl
  | relay _ _ _ _ hworld => exact hs.same hworld.metrics rfl rfl rfl
  | @create ce name createdAt _ _ _ hnew _ _ hworld =>
      have hkeys : (ce.room c name createdAt).users.keys = {c.id} := by
        rw [Create.room, GoMap.keys_insert]
        rfl
      refine hs.create hnew hworld.metrics rfl ?_ rfl
      rw [hkeys]
      rfl
  | @join _ r name room os _ _ _ hout hroom _ hos _ hworld =>
      have hfresh := hwf.fresh hout hroom (hnamed hroom)
      have hopened := (room.enter (c.newUser name false)).card_openSessions hos.nodup_ids
        (hwf.unused_of_born hroom hworld)
      have hentered := Room.card_enter c name hfresh
      refine hs.insert hroom hworld.metrics rfl ?_ ?_
      · rw [Room.openSessions_users, hentered]
        simp only
        omega
      · rw [hopened]
        simp only [Room.enter]
        omega
  | joinFailed _ _ _ _ _ _ _ hworld => exact hs.same hworld.metrics rfl rfl rfl
  | haunt _ _ hroom _ _ _ => exact absurd rfl (hnamed hroom)
  | @update _ op r room _ _ _ hin _ _ _ hworld =>
      have husers : (op.apply room).users.keys = room.users.keys := GoMap.keys_mapVals _ _
      have hsessions : (op.apply room).sessions.keys.card + (room.sessionsWhere op.Ends).card =
          room.sessions.keys.card := Room.card_endSessions op.Ends (room.mapUsers op.update)
      refine hs.insert hin.lookup hworld.metrics rfl ?_ ?_
      · rw [husers]
      · simp only
        omega
  | @share r room u os _ _ hin _ _ _ _ hos _ hworld =>
      have hopened := (room.startStream c.id).card_openSessions hos.nodup_ids
        (hwf.unused_of_born hin.lookup hworld)
      refine hs.insert hin.lookup hworld.metrics rfl ?_ ?_
      · rw [Room.openSessions_users, Room.startStream_keys]
      · rw [hopened]
        simp only [Room.startStream, Room.mapUsers]
        omega
  | @remove _ t _ _ _ room room' _ _ _ hin _ _ htarget hban _ hworld =>
      have husers : (room'.remove t).users.keys.card + 1 = room.users.keys.card := by
        rcases hban with ⟨-, rfl⟩ | ⟨-, rfl⟩ <;>
          exact Room.card_remove (GoMap.mem_keys_of_lookup htarget)
      have hsessions : (room'.remove t).sessions.keys.card +
          (room.sessionsWhere (Touches t)).card = room.sessions.keys.card := by
        rcases hban with ⟨-, rfl⟩ | ⟨-, rfl⟩ <;>
          exact Room.card_endSessions (Touches t) _
      refine hs.insert hin.lookup hworld.metrics rfl ?_ ?_ <;> simp only <;> omega
  | leave hin hleft => exact hleft.balanced hwf hin hs
  | leaveNowhere _ hworld => exact hs.same hworld.metrics rfl rfl rfl
  | dissolve hin _ _ _ hworld =>
      refine hs.erase hin.lookup hworld.metrics rfl ?_ ?_ <;> simp only <;> omega

end Step

theorem counters_balance {s : System XID} {l : List (System XID × Action XID)}
    (h : (machine env server).Run (machine env server).init l s)
    (hnames : ∀ p ∈ l, p.2.creates ≠ some "") : Balanced s.rooms := by
  induction h with
  | nil => exact ⟨rfl, rfl, rfl⟩
  | @snoc l s t a hr hst ih =>
      have hbefore : ∀ p ∈ l, p.2.creates ≠ some "" :=
        fun p hp ↦ hnames p (List.mem_append_left _ hp)
      have hwf := reachable_wf ⟨l, hr⟩
      exact (step_effect hwf hst).balanced hwf.rooms (run_lookup_empty hr hbefore) (ih hbefore)

/-- A share, a kick, and the owner's own departure. -/
theorem counters_balance_screening : Balanced (System.after (Env.sample authModeNone)
    (.internal ⟨∅⟩) (screening "turn" ++ [expulsion, .receive (guest 0) .exit])).rooms :=
  counters_balance (System.run_history _ _ _) (by decide +kernel)

end Screego
