import Screego.Spec.WellFormed

/-!
# The end of a membership

`Disconnected` is the common end of every way to leave on one's own account and
of every failed message.  In a well-formed state it comes to `Left`, whichever
member the iteration over the room picks as the next owner.
-/

namespace Screego

open Outgoing World Rooms

variable {XID : Type} [DecidableEq XID] {env : Env XID}

/-! ## Closing a room -/

theorem Room.ended_silent (p : RoomSession XID → Prop) [DecidablePred p] (room : Room XID) :
    room.Ended p (fun _ _ ↦ []) [] := by
  refine ⟨room.sessions.keys.toList, Finset.nodup_toList _, fun id ↦ Finset.mem_toList, ?_⟩
  symm
  apply List.flatMap_eq_nil_iff.mpr
  intro id _
  unfold endNotice
  split
  · exact ite_self _
  · rfl

theorem Room.Ended.silent {p : RoomSession XID → Prop} [DecidablePred p] {room : Room XID}
    {msgs : List (XID × Message XID)} (h : room.Ended p (fun _ _ ↦ []) msgs) : msgs = [] := by
  obtain ⟨ids, -, -, rfl⟩ := h
  apply List.flatMap_eq_nil_iff.mpr
  intro id _
  unfold endNotice
  split
  · exact ite_self _
  · rfl

theorem Room.Ended.nothing {p : RoomSession XID → Prop} [DecidablePred p] {notices : Notices XID}
    {room : Room XID} {msgs : List (XID × Message XID)} (h : room.Ended p notices msgs)
    (hnone : ∀ id l, room.sessions.lookup id = some l → ¬ p l) : msgs = [] := by
  obtain ⟨ids, -, -, rfl⟩ := h
  apply List.flatMap_eq_nil_iff.mpr
  intro id _
  unfold endNotice
  split
  · next l hl => exact if_neg (hnone id l hl)
  · rfl

theorem Room.sessionsWhere_of_forall {p : RoomSession XID → Prop} [DecidablePred p]
    {room : Room XID} (h : ∀ id l, room.sessions.lookup id = some l → ¬ p l) :
    room.sessionsWhere p = ∅ := by
  apply Finset.eq_empty_of_forall_notMem
  intro id hid
  obtain ⟨l, hl, hp⟩ := mem_sessionsWhere.mp hid
  exact h id l hl hp

theorem closeRoom_spec (env : Env XID) {s : Rooms XID} {r : String} {room : Room XID}
    (hroom : s.rooms.lookup r = some room) :
    ∃ w, s.closeRoom env r = ⟨s.rooms.erase r, s.connected, w⟩ ∧
      Change env room.mode room.sessions.keys ∅
        { usersLeft := room.users.keys.card, sessionClosed := room.sessions.keys.card,
          roomsClosed := 1 } [] s.world w := by
  obtain ⟨msgs, w, hended, hrange, hchange⟩ := Room.rangeSessions_close env room
    (fun _ ↦ True) (fun _ _ ↦ []) (fun id _ s ↦ Room.closeSession env id s)
    (fun r w id l _ _ _ ↦ by simp [World.send])
    (s.world.count { usersLeft := room.users.keys.card })
  have hall : room.sessionsWhere (fun _ ↦ True) = room.sessions.keys := by
    ext id
    simp
  rw [hended.silent, hall] at hchange
  refine ⟨w.count { roomsClosed := 1 }, ?_, ?_⟩
  · simp only [closeRoom, hroom, hrange]
  · have hchanges := ((change_count env room.mode { usersLeft := room.users.keys.card }
      s.world).before hchange).after (change_count env room.mode { roomsClosed := 1 } w)
    simpa [Metrics.add_def] using hchanges

/-! ## `executeNoError` -/

/-- The loop of `executeNoError` ends the sessions of the client that goes. -/
theorem rangeSessions_leave (env : Env XID) {r : String} {room : Room XID}
    (hsound : room.Sound r) (c : XID) (w : World XID) :
    ∃ (ended : List (XID × Message XID)) (w' : World XID),
      room.Ended (Touches c) (tellPeer c) ended ∧
      Room.rangeSessions env (Disconnected.endSession env c)
        ({ room with users := room.users.erase c }, w) = (room.remove c, w') ∧
      Change env room.mode (room.sessionsWhere (Touches c)) ∅
        { sessionClosed := (room.sessionsWhere (Touches c)).card } ended w w' := by
  refine Room.rangeSessions_close env { room with users := room.users.erase c } (Touches c)
    (tellPeer c) _ ?_ w
  intro r' w id l husers _ hl
  obtain ⟨hu, hhost, -⟩ := hsound.hosted id l hl
  obtain ⟨hmem, hne⟩ := hsound.viewed id l hl
  obtain ⟨cu, hclient⟩ := GoMap.mem_keys.mp hmem
  have hhostWrite := (hsound.keyed _ _ hhost).2
  have hclientWrite := (hsound.keyed _ _ hclient).2
  by_cases hviewer : l.client = c
  · have hnot : l.host ≠ c := fun heq ↦ hne (hviewer.trans heq.symm)
    have hlookup : r'.users.lookup l.host = some hu := by
      rw [husers, GoMap.lookup_erase_of_ne hnot, hhost]
    simp only [Disconnected.endSession, hviewer, hnot, hlookup, Touches, tellPeer, if_true,
      if_false, or_true, User.writeTimeout, hhostWrite]
    rfl
  · by_cases hsharer : l.host = c
    · have hlookup : r'.users.lookup l.client = some cu := by
        rw [husers, GoMap.lookup_erase_of_ne hviewer, hclient]
      simp only [Disconnected.endSession, hviewer, hsharer, hlookup, Touches, tellPeer, if_true,
        if_false, or_false, User.writeTimeout, hclientWrite]
      rfl
    · simp only [Disconnected.endSession, hviewer, hsharer, Touches, if_false, or_self]

theorem not_connectedTo_empty {s : Rooms XID} {k : XID} {r : String} {room : Room XID}
    (hin : s.In k r room) : s.connectedTo k = r := by
  rw [connectedTo, hin.connected, Option.getD_some]

theorem Room.Sound.keyed_remove {r : String} {room : Room XID} (h : room.Sound r) (t : XID) :
    (room.remove t).Keyed :=
  fun k u hu ↦ h.keyed k u (remove_lookup.mp hu).2

theorem Room.Sound.keyed_promote {r : String} {room : Room XID} (h : room.Sound r) (t next : XID) :
    ((room.remove t).promote next).Keyed := by
  intro k u hu
  obtain ⟨v, hv, rfl⟩ := promote_lookup.mp hu
  have hkey := h.keyed_remove t k v hv
  split <;> exact hkey

theorem Room.remove_keys (room : Room XID) (t : XID) :
    (room.remove t).users.keys = room.users.keys.erase t :=
  GoMap.keys_erase room.users t

/-- The last member goes, and the room with it. -/
theorem closeRoom_last {s : Rooms XID} (hwf : s.WF env) {c : XID} {r : String} {room : Room XID}
    (hin : s.In c r room) (hempty : (room.remove c).users.keys = ∅)
    {ended : List (XID × Message XID)} {code : ℤ} {reason : String}
    {w : World XID} (hbye : Change env room.mode (room.sessionsWhere (Touches c)) ∅
      { usersLeft := 1, sessionClosed := (room.sessionsWhere (Touches c)).card }
      ((c, .closeWriter code reason) :: ended) s.world w)
    (hended : room.Ended (Touches c) (tellPeer c) ended) :
    Left env c s r room
      (closeRoom env r ⟨s.rooms.insert r (room.remove c), s.connected.erase c, w⟩) := by
  have honly : room.users.keys = {c} := by
    rw [Room.remove_keys, Finset.erase_eq_empty_iff] at hempty
    rcases hempty with hempty | honly
    · have hmem := hin.member hwf
      rw [hempty] at hmem
      exact absurd hmem (Finset.notMem_empty c)
    · exact honly
  have hnone := (hwf.sound r room hin.lookup).no_sessions honly
  have hsessions : (room.remove c).sessions.keys = ∅ := by
    ext id
    simp [hnone]
  obtain ⟨w', hclose, hchange⟩ := closeRoom_spec env (s := ⟨s.rooms.insert r
    (room.remove c), s.connected.erase c, w⟩) (GoMap.lookup_insert_self s.rooms r (room.remove c))
  rw [hclose, GoMap.erase_insert]
  rw [hsessions, hempty] at hchange
  have huntouched : ∀ id l, room.sessions.lookup id = some l → ¬ Touches c l := by
    intro id l hl
    rw [hnone] at hl
    cases hl
  rw [Room.sessionsWhere_of_forall huntouched, hended.nothing huntouched] at hbye
  have hworld : Change env "" ∅ ∅ { usersLeft := 1, roomsClosed := 1 }
      [(c, .closeWriter code reason)] s.world w' := by
    simpa [Metrics.add_def] using (hbye.before hchange).mode_irrel ""
  exact .last honly hworld

theorem executeNoError_left {s : Rooms XID} (hwf : s.WF env) {c : ClientInfo XID} {r : String}
    {room : Room XID} (hin : s.In c.id r room) (d : Disconnected) :
    Left env c.id s r room (d.executeNoError env s c) := by
  have hsound := hwf.sound r room hin.lookup
  obtain ⟨user, huser⟩ := GoMap.mem_keys.mp (hin.member hwf)
  obtain ⟨ended, w, hended, hrange, hchange⟩ := rangeSessions_leave env hsound c.id
    ((s.world.writeTimeout c.id (.closeWriter d.code d.reason)).count { usersLeft := 1 })
  have hbye := ((change_writeTimeout env room.mode c.id (.closeWriter d.code d.reason)
    s.world).after (change_count env room.mode { usersLeft := 1 } _)).before hchange
  rw [zero_add, List.append_nil] at hbye
  -- the member that is left alone closes the room behind it
  have hlast (hempty : (room.remove c.id).users.keys = ∅) : Left env c.id s r room
      (closeRoom env r ⟨s.rooms.insert r (room.remove c.id), s.connected.erase c.id, w⟩) :=
    closeRoom_last hwf hin hempty (by simpa [Metrics.add_def] using hbye) hended
  -- whoever stays is told what the room looks like now
  have hstay {room' : Room XID} (hleft : room.LeftBy c.id room') (hkeyed : room'.Keyed) (n : ℕ) :
      Left env c.id s r room ⟨s.rooms.insert r room', s.connected.erase c.id,
        room'.notifyInfoChanged env (w.draw n)⟩ := by
    obtain ⟨told, htold, hnotify⟩ :=
      Room.notifyInfoChanged_spec env hkeyed room.mode (w.draw n)
    have hworld := hbye.after ((change_draw env room.mode n w).before hnotify)
    rw [List.append_assoc, List.nil_append, List.singleton_append] at hworld
    exact .stay hleft hended htold (by simpa [Metrics.add_def] using hworld)
  simp only [Disconnected.executeNoError, not_connectedTo_empty hin, if_neg hin.ne_empty,
    hin.lookup, huser, hrange]
  have hmem : ∀ k, k ∈ (room.remove c.id).users.keys → k ∈ room.users.keys ∧ k ≠ c.id := by
    intro k hk
    rw [Room.remove_keys, Finset.mem_erase] at hk
    exact ⟨hk.2, hk.1⟩
  split
  · next howner =>
      split
      · next next hnext =>
          have hvisited := List.mem_of_mem_head? hnext
          obtain ⟨hk, hne⟩ := hmem next ((RangeOrder.mem_visit _).mp hvisited)
          rw [Room.modifyUser_eq]
          exact hstay (.owner ⟨user, huser, howner⟩ hk hne) (hsound.keyed_promote c.id next) 1
      · next hnone =>
          refine hlast ?_
          rw [List.head?_eq_none_iff, ← List.length_eq_zero_iff, RangeOrder.length_visit] at hnone
          exact Finset.card_eq_zero.mp hnone
  · next howner =>
      split
      · next hcard => exact hlast (Finset.card_eq_zero.mp hcard)
      · next hcard =>
          obtain ⟨k, hk⟩ := Finset.card_ne_zero.mp hcard
          exact hstay (.member huser howner (hmem k hk).1 (hmem k hk).2)
            (hsound.keyed_remove c.id) 0

/-! ## Errors -/

theorem Rooms.WF.of_world {s : Rooms XID} (hwf : s.WF env) {w : World XID}
    (htick : s.world.tick ≤ w.tick) : (⟨s.rooms, s.connected, w⟩ : Rooms XID).WF env where
  sound := hwf.sound
  linked := hwf.linked
  minted := fun hopen ↦ by
    obtain ⟨n, hn, hid⟩ := hwf.minted hopen
    exact ⟨n, hn.trans_le htick, hid⟩
  apart := hwf.apart

theorem Left.before {s s' : Rooms XID} {c : XID} {r : String} {room : Room XID} {w : World XID}
    (h : Left env c ⟨s.rooms, s.connected, w⟩ r room s')
    (hw : Change env "" ∅ ∅ 0 [] s.world w) : Left env c s r room s' := by
  cases h with
  | stay hleft hended htold hworld =>
      exact .stay hleft hended htold (by simpa using (hw.mode_irrel room.mode).before hworld)
  | last honly hworld => exact .last honly (by simpa using hw.before hworld)

/-- The loop settles the outcome of a handler in one effect. -/
def Settles (env : Env XID) (c : ClientInfo XID) (s : Rooms XID) (e : Event XID) :
    Outcome XID → Prop
  | .ok s' => Effect env c s e s'
  | .error err s₁ =>
      Effect env c s e (Disconnected.executeNoError env ⟨closeNormalClosure, err⟩ s₁ c)
  | .panicked => False

variable {s : Rooms XID} {c : ClientInfo XID} {e : Event XID}

theorem executeNoError_nowhere (hout : s.connected.lookup c.id = some "") (d : Disconnected) :
    d.executeNoError env s c =
      ⟨s.rooms, s.connected.erase c.id,
        s.world.writeTimeout c.id (.closeWriter d.code d.reason)⟩ := by
  simp only [Disconnected.executeNoError, connectedTo, hout, Option.getD_some, if_true]

/-- What `Disconnected` does to a connected client, wherever it is. -/
theorem executeNoError_effect (hwf : s.WF env) (hc : c.id ∈ s.connected.keys) {w : World XID}
    (hw : Change env "" ∅ ∅ 0 [] s.world w) (d : Disconnected) :
    Effect env c s e (d.executeNoError env ⟨s.rooms, s.connected, w⟩ c) := by
  obtain ⟨r, hr⟩ := GoMap.mem_keys.mp hc
  by_cases hempty : r = ""
  · subst hempty
    rw [executeNoError_nowhere (s := ⟨s.rooms, s.connected, w⟩) hr]
    have hbye := hw.before (change_writeTimeout env "" c.id (.closeWriter d.code d.reason) w)
    exact .leaveNowhere hr (by simpa using hbye)
  · obtain ⟨room, hroom, -⟩ := (hwf.linked c.id r hempty).mp hr
    have hin : s.In c.id r room := ⟨hr, hempty, hroom⟩
    have hin' : (⟨s.rooms, s.connected, w⟩ : Rooms XID).In c.id r room := ⟨hr, hempty, hroom⟩
    exact .leave hin ((executeNoError_left (hwf.of_world hw.tick) hin' d).before hw)

theorem settles_error (hwf : s.WF env) (hc : c.id ∈ s.connected.keys) {w : World XID}
    (hw : Change env "" ∅ ∅ 0 [] s.world w) (err : String) :
    Settles env c s e (.error err ⟨s.rooms, s.connected, w⟩) :=
  executeNoError_effect hwf hc hw ⟨closeNormalClosure, err⟩

theorem settles_error_self (hwf : s.WF env) (hc : c.id ∈ s.connected.keys) (err : String) :
    Settles env c s e (.error err s) :=
  settles_error hwf hc (Change.refl env "" s.world) err

end Screego
