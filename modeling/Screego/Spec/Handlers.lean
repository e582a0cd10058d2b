import Screego.Spec.Leaving

/-!
# The handlers of the clients' events

Each handler, started in a well-formed state for a connected client, is settled
by the loop in one effect.
-/

namespace Screego

open Outgoing World Rooms

variable {XID : Type} [DecidableEq XID] {env : Env XID}

/-! ## Rooms that nothing happens to -/

namespace Room

variable {room : Room XID} {p : RoomSession XID → Prop} [DecidablePred p]

theorem ended_of_forall (notices : Notices XID)
    (h : ∀ id s, room.sessions.lookup id = some s → ¬ p s) : room.Ended p notices [] := by
  refine ⟨room.sessions.keys.toList, Finset.nodup_toList _, fun id ↦ Finset.mem_toList, ?_⟩
  symm
  apply List.flatMap_eq_nil_iff.mpr
  intro id _
  unfold endNotice
  split
  · next s hs => rw [if_neg (h id s hs)]
  · rfl

theorem mapUsers_congr {f g : XID → User XID → User XID}
    (h : ∀ k u, room.users.lookup k = some u → f k u = g k u) :
    room.mapUsers f = room.mapUsers g := by
  have husers : room.users.mapVals f = room.users.mapVals g := by
    apply GoMap.ext
    intro k
    cases hk : room.users.lookup k with
    | none => simp [hk]
    | some u => simp [hk, h k u hk]
  simp only [mapUsers, husers]

end Room

theorem RoomOp.apply_quiet {op : RoomOp XID} {room : Room XID}
    (h : ∀ id l, room.sessions.lookup id = some l → ¬ op.Ends l) :
    op.apply room = room.mapUsers op.update :=
  Room.endSessions_of_forall h

variable {s : Rooms XID} {c : ClientInfo XID}

theorem in_of_currentRoom {r : String} {room : Room XID} (h : s.currentRoom c = .ok (r, room)) :
    s.In c.id r room := by
  unfold currentRoom at h
  split at h
  · cases h
  · next roomID hconn =>
      split at h
      · cases h
      · next hne =>
          split at h
          · cases h
          · next room' hroom =>
              obtain ⟨rfl, rfl⟩ := Prod.mk.inj (Except.ok.inj h)
              exact ⟨hconn, hne, hroom⟩

theorem currentRoom_of_in {r : String} {room : Room XID} (h : s.In c.id r room) :
    s.currentRoom c = .ok (r, room) := by
  simp only [currentRoom, h.connected, if_neg h.ne_empty, h.lookup]

/-- An operation on the room of a client, the loop over the sessions done. -/
theorem effect_update {e : Event XID} {op : RoomOp XID} {r : String} {room : Room XID}
    (hwf : s.WF env) (hin : s.In c.id r room) (hop : op.IssuedBy env c.id room e)
    {ended : List (XID × Message XID)} {w : World XID}
    (hended : room.Ended op.Ends (e.notices c.id) ended)
    (hchange : Change env room.mode (room.sessionsWhere op.Ends) ∅
      { sessionClosed := (room.sessionsWhere op.Ends).card } ended s.world w) :
    Effect env c s e ⟨s.rooms.insert r (op.apply room), s.connected,
      (op.apply room).notifyInfoChanged env w⟩ := by
  have hsound := RoomOp.apply_sound (hwf.sound r room hin.lookup) op
  obtain ⟨told, htold, hnotify⟩ := Room.notifyInfoChanged_spec env hsound.keyed room.mode w
  exact .update hin hop hended htold (by simpa using hchange.after hnotify)

theorem effect_update_quiet {e : Event XID} {op : RoomOp XID} {r : String} {room : Room XID}
    (hwf : s.WF env) (hin : s.In c.id r room) (hop : op.IssuedBy env c.id room e)
    (hquiet : ∀ id l, room.sessions.lookup id = some l → ¬ op.Ends l) {w : World XID}
    (hw : Change env "" ∅ ∅ 0 [] s.world w) :
    Effect env c s e ⟨s.rooms.insert r (op.apply room), s.connected,
      (op.apply room).notifyInfoChanged env w⟩ := by
  refine effect_update hwf hin hop (Room.ended_of_forall _ hquiet) ?_
  rw [Room.sessionsWhere_of_forall hquiet]
  exact hw.mode_irrel room.mode

/-! ## `name` and `stopshare` -/

theorem name_ok (hwf : s.WF env) {r : String} {room : Room XID} (hin : s.In c.id r room)
    (e : Name) : e.execute env s c = .ok
      ⟨s.rooms.insert r ((RoomOp.rename c.id e.userName).apply room), s.connected,
        ((RoomOp.rename c.id e.userName).apply room).notifyInfoChanged env s.world⟩ := by
  obtain ⟨u, hu⟩ := GoMap.mem_keys.mp (hin.member hwf)
  have hquiet : ∀ id l, room.sessions.lookup id = some l →
      ¬ (RoomOp.rename c.id e.userName).Ends l := fun _ _ _ h ↦ h
  have happly : room.modifyUser c.id (fun u ↦ { u with name := e.userName }) =
      (RoomOp.rename c.id e.userName).apply room := by
    rw [RoomOp.apply_quiet hquiet, Room.modifyUser_eq]
    rfl
  simp only [Name.execute, currentRoom_of_in hin, hu, happly]
  rfl

theorem name_settles (hwf : s.WF env) (hc : c.id ∈ s.connected.keys) (e : Name) :
    Settles env c s (.name e) (e.execute env s c) := by
  cases h : s.currentRoom c with
  | error err =>
      simp only [Name.execute, h]
      exact settles_error_self hwf hc err
  | ok p =>
      have hin := in_of_currentRoom h
      rw [name_ok hwf hin e]
      exact effect_update_quiet hwf hin (.name e) (fun _ _ _ h ↦ h) (Change.refl env "" s.world)

theorem stopShare_ok (hwf : s.WF env) {r : String} {room : Room XID} (hin : s.In c.id r room) :
    ∃ (ended : List (XID × Message XID)) (w : World XID), StopShare.execute env s c =
        .ok ⟨s.rooms.insert r ((RoomOp.stopStream c.id).apply room), s.connected,
          ((RoomOp.stopStream c.id).apply room).notifyInfoChanged env w⟩ ∧
      room.Ended (RoomOp.stopStream c.id).Ends (tellPeer c.id) ended ∧
      Change env room.mode (room.sessionsWhere (RoomOp.stopStream c.id).Ends) ∅
        { sessionClosed := (room.sessionsWhere (RoomOp.stopStream c.id).Ends).card } ended
        s.world w := by
  have hsound := hwf.sound r room hin.lookup
  obtain ⟨u, hu⟩ := GoMap.mem_keys.mp (hin.member hwf)
  obtain ⟨ended, w, hended, hrange, hchange⟩ := Room.rangeSessions_close env
    (room.modifyUser c.id fun u ↦ { u with streaming := false }) (RoomOp.stopStream c.id).Ends
    (tellPeer c.id) (StopShare.endSession env c.id) (fun r' w id l husers _ hl ↦ by
      -- the viewer is still listed, with its own channel
      obtain ⟨hmem, hne⟩ := hsound.viewed id l hl
      obtain ⟨cu, hclient⟩ := GoMap.mem_keys.mp hmem
      by_cases hhost : l.host = c.id
      · have hviewer : l.client ≠ c.id := fun heq ↦ hne (heq.trans hhost.symm)
        have hlookup : r'.users.lookup l.client = some cu := by
          rw [husers, Room.modifyUser_eq]
          exact Room.mapUsers_lookup.mpr ⟨cu, hclient, if_neg hviewer⟩
        have hends : (RoomOp.stopStream c.id).Ends l := hhost
        simp only [StopShare.endSession, if_pos hhost, if_pos hends, hlookup,
          User.writeTimeout, (hsound.keyed _ _ hclient).2, tellPeer, if_neg hviewer]
        rfl
      · have hends : ¬ (RoomOp.stopStream c.id).Ends l := hhost
        simp only [StopShare.endSession, if_neg hhost, if_neg hends]) s.world
  have happly : (room.modifyUser c.id fun u ↦ { u with streaming := false }).endSessions
      (RoomOp.stopStream c.id).Ends = (RoomOp.stopStream c.id).apply room := by
    rw [Room.modifyUser_eq]
    rfl
  rw [happly] at hrange
  refine ⟨ended, w, ?_, hended, hchange⟩
  simp only [StopShare.execute, currentRoom_of_in hin, hu, hrange]
  rfl

theorem stopShare_settles (hwf : s.WF env) (hc : c.id ∈ s.connected.keys) :
    Settles env c s .stopShare (StopShare.execute env s c) := by
  cases h : s.currentRoom c with
  | error err =>
      simp only [StopShare.execute, h]
      exact settles_error_self hwf hc err
  | ok p =>
      have hin := in_of_currentRoom h
      obtain ⟨ended, w, hrun, hended, hchange⟩ := stopShare_ok hwf hin
      rw [hrun]
      exact effect_update hwf hin .stopShare hended hchange

/-! ## The relay events -/

theorem relay_settles (hwf : s.WF env) (hc : c.id ∈ s.connected.keys)
    {sender recipient : RoomSession XID → XID} {msg : P2PMessage XID → Message XID}
    {m : P2PMessage XID} {e : Event XID} (he : e.relayed = some ⟨m.sid, sender, recipient, msg m⟩)
    (hends : recipient = RoomSession.host ∨ recipient = RoomSession.client) :
    Settles env c s e (relay env sender recipient msg m s c) := by
  cases h : s.currentRoom c with
  | error err =>
      simp only [relay, h]
      exact settles_error_self hwf hc err
  | ok p =>
      obtain ⟨r, room⟩ := p
      have hin := in_of_currentRoom h
      have hsound := hwf.sound r room hin.lookup
      cases hl : room.sessions.lookup m.sid with
      | none =>
          simp only [relay, h, hl]
          exact .idle (Change.refl env "" s.world)
      | some l =>
          by_cases hsender : sender l = c.id
          · have hmem : recipient l ∈ room.users.keys := by
              rcases hends with rfl | rfl
              · obtain ⟨u, hu, -⟩ := hsound.hosted m.sid l hl
                exact GoMap.mem_keys_of_lookup hu
              · exact (hsound.viewed m.sid l hl).1
            obtain ⟨u, hu⟩ := GoMap.mem_keys.mp hmem
            simp only [relay, h, hl, hu, hsender, ne_eq, not_true_eq_false, if_false]
            refine .relay he hin hl hsender ?_
            rw [User.writeTimeout, (hsound.keyed _ _ hu).2]
            exact change_writeTimeout env "" (recipient l) (msg m) s.world
          · simp only [relay, h, hl, hsender, ne_eq, not_false_eq_true, if_true]
            exact settles_error_self hwf hc _

/-! ## `dissolve` -/

theorem foldl_dissolve {room : Room XID} (hkeyed : room.Keyed) {ks : List XID}
    (hks : ∀ k ∈ ks, k ∈ room.users.keys) (s : Rooms XID) :
    ks.foldl (Dissolve.part room) s =
      ⟨s.rooms, s.connected.filter fun k _ ↦ k ∉ ks,
        s.world.send (ks.map fun k ↦ (k, .closeWriter closeNormalClosure "Room Dissolved"))⟩ := by
  induction ks generalizing s with
  | nil =>
      have hconn : (s.connected.filter fun k _ ↦ k ∉ ([] : List XID)) = s.connected :=
        GoMap.filter_of_forall fun _ _ _ ↦ List.not_mem_nil
      rw [List.foldl_nil, hconn]
      simp [World.send]
  | cons k ks ih =>
      obtain ⟨u, hu⟩ := GoMap.mem_keys.mp (hks k List.mem_cons_self)
      obtain ⟨hid, hwrite⟩ := hkeyed k u hu
      have hconn : ((s.connected.erase k).filter fun k _ ↦ k ∉ ks) =
          s.connected.filter fun k' _ ↦ k' ∉ k :: ks := by
        apply GoMap.ext
        intro k'
        by_cases hk : k' = k
        · subst hk
          cases hk' : s.connected.lookup k' <;> simp [GoMap.lookup_filter, hk']
        · simp [GoMap.lookup_filter, GoMap.lookup_erase_of_ne hk, hk]
      rw [List.foldl_cons, ih fun k' hk' ↦ hks k' (List.mem_cons_of_mem _ hk')]
      simp only [Dissolve.part, hu, hid, User.writeTimeout, hwrite, hconn]
      simp [World.send, World.writeTimeout]

theorem dissolve_ok (hwf : s.WF env) {r : String} {room : Room XID} (hin : s.In c.id r room)
    (howner : room.OwnedBy c.id) :
    ∃ (ks : List XID) (w : World XID), ks.Nodup ∧ (∀ k, k ∈ ks ↔ k ∈ room.users.keys) ∧
      Dissolve.execute env s c =
        .ok ⟨s.rooms.erase r, s.connected.filter fun k _ ↦ k ∉ room.users.keys, w⟩ ∧
      Change env room.mode room.sessions.keys ∅
        { usersLeft := room.users.keys.card, sessionClosed := room.sessions.keys.card,
          roomsClosed := 1 }
        (ks.map fun k ↦ (k, .closeWriter closeNormalClosure "Room Dissolved")) s.world w := by
  obtain ⟨u, hu, ho⟩ := howner
  have hvisit : ∀ k, k ∈ (env.range s.world.tick).visit room.users.keys ↔
      k ∈ room.users.keys := fun k ↦ RangeOrder.mem_visit _
  have hnodup := (env.range s.world.tick).nodup_visit room.users.keys
  simp only [Dissolve.execute, not_connectedTo_empty hin, if_neg hin.ne_empty, hin.lookup, hu, ho,
    not_true_eq_false, if_false]
  revert hvisit hnodup
  generalize (env.range s.world.tick).visit room.users.keys = ks
  intro hvisit hnodup
  rw [foldl_dissolve (hwf.sound r room hin.lookup).keyed fun k hk ↦ (hvisit k).mp hk]
  obtain ⟨w, hclose, hchange⟩ := closeRoom_spec env (s := ⟨s.rooms,
    s.connected.filter fun k _ ↦ k ∉ ks, (s.world.draw 1).send
      (ks.map fun k ↦ (k, .closeWriter closeNormalClosure "Room Dissolved"))⟩) hin.lookup
  have hconn : (s.connected.filter fun k _ ↦ k ∉ ks) =
      s.connected.filter fun k _ ↦ k ∉ room.users.keys := by
    simp only [hvisit]
  have hsent := ((change_draw env room.mode 1 s.world).before (change_send env room.mode
    (ks.map fun k ↦ (k, .closeWriter closeNormalClosure "Room Dissolved")) _)).before hchange
  rw [hclose, hconn]
  exact ⟨ks, w, hnodup, hvisit, rfl, by simpa using hsent⟩

/-- Whoever does not own the room cannot dissolve it. -/
theorem dissolve_refused {r : String} {room : Room XID} (hin : s.In c.id r room)
    (hmem : c.id ∈ room.users.keys) (hnot : ¬ room.OwnedBy c.id) :
    Dissolve.execute env s c = .error "only the room owner can dissolve the room" s := by
  obtain ⟨u, hu⟩ := GoMap.mem_keys.mp hmem
  have howner : ¬ u.owner := fun ho ↦ hnot ⟨u, hu, ho⟩
  simp only [Dissolve.execute, not_connectedTo_empty hin, if_neg hin.ne_empty, hin.lookup, hu,
    if_pos howner]

theorem dissolve_settles (hwf : s.WF env) (hc : c.id ∈ s.connected.keys) :
    Settles env c s .dissolve (Dissolve.execute env s c) := by
  obtain ⟨r, hr⟩ := GoMap.mem_keys.mp hc
  by_cases hempty : r = ""
  · have hconnected : s.connectedTo c.id = "" := by
      rw [connectedTo, hr, Option.getD_some, hempty]
    simp only [Dissolve.execute, if_pos hconnected]
    exact settles_error_self hwf hc _
  · obtain ⟨room, hroom, hmem⟩ := (hwf.linked c.id r hempty).mp hr
    have hin : s.In c.id r room := ⟨hr, hempty, hroom⟩
    by_cases howner : room.OwnedBy c.id
    · obtain ⟨ks, w, hnodup, hks, hrun, hchange⟩ := dissolve_ok hwf hin howner
      rw [hrun]
      exact .dissolve hin howner hnodup hks hchange
    · rw [dissolve_refused hin hmem howner]
      exact settles_error_self hwf hc _

/-! ## `create` -/

theorem userName_change (env : Env XID) (current : ClientInfo XID) (userName : String)
    (w : World XID) : Change env "" ∅ ∅ 0 [] w (current.userName env userName w).2 := by
  simp only [ClientInfo.userName]
  generalize (if current.authenticated then current.authenticatedUser else userName) = name
  split
  · exact change_draw env "" 2 w
  · exact Change.refl env "" w

theorem lookup_of_connectedTo (hc : c.id ∈ s.connected.keys) (h : s.connectedTo c.id = "") :
    s.connected.lookup c.id = some "" := by
  obtain ⟨r, hr⟩ := GoMap.mem_keys.mp hc
  rw [connectedTo, hr, Option.getD_some] at h
  rw [hr, h]

theorem createRoom_settles (hwf : s.WF env) (hc : c.id ∈ s.connected.keys) (e : Create)
    (hout : s.connectedTo c.id = "") (hnone : s.rooms.lookup e.id = none) :
    Settles env c s (.create e) (e.execute env s c) := by
  have hname := userName_change env c e.userName s.world
  have hfirst : ¬ s.connectedTo c.id ≠ "" := fun h ↦ h hout
  cases hauth : e.authError env c with
  | some err =>
      simp only [Create.execute, if_neg hfirst, hnone, hauth]
      exact settles_error hwf hc hname err
  | none =>
      simp only [Create.execute, if_neg hfirst, hnone, hauth]
      set w := (c.userName env e.userName s.world).2
      set name := (c.userName env e.userName s.world).1
      have hsound := Room.sound_create e c name (env.now w.tick)
      obtain ⟨told, htold, hnotify⟩ := Room.notifyInfoChanged_spec env hsound.keyed "" (w.draw 1)
      have hworld := ((hname.before (change_draw env "" 1 w)).before hnotify).after
        (change_count env "" { usersJoined := 1, roomsCreated := 1 } _)
      simp only [zero_add, List.nil_append, List.append_nil] at hworld
      exact .create (lookup_of_connectedTo hc hout) hnone hauth htold hworld

/-! ## `join` -/

/-- A room changes in a way that sessions do not show. -/
theorem Rooms.WF.replace (hwf : s.WF env) {r : String} {room room' : Room XID}
    {connected : GoMap XID String} {w : World XID} (hroom : s.rooms.lookup r = some room)
    (hsound : room'.Sound r) (hmode : room'.mode = room.mode)
    (hsessions : room'.sessions = room.sessions)
    (hlinked : Linked connected (s.rooms.insert r room')) (htick : s.world.tick ≤ w.tick) :
    (⟨s.rooms.insert r room', connected, w⟩ : Rooms XID).WF env := by
  have hopen : ∀ {r' mode id l}, Open (s.rooms.insert r room') r' mode id l →
      Open s.rooms r' mode id l := by
    intro r' mode id l h
    rcases open_insert.mp h with ⟨rfl, hm, hl⟩ | ⟨-, h⟩
    · exact (open_of_lookup hroom).mpr ⟨hmode ▸ hm, hsessions ▸ hl⟩
    · exact h
  refine ⟨?_, hlinked, ?_, fun h h' ↦ hwf.apart (hopen h) (hopen h')⟩
  · intro r' room'' hr
    rcases lookup_insert_cases hr with ⟨rfl, rfl⟩ | hr
    · exact hsound
    · exact hwf.sound r' room'' hr
  · intro r' mode id l h
    obtain ⟨n, hn, hid⟩ := hwf.minted (hopen h)
    exact ⟨n, hn.trans_le htick, hid⟩

theorem Room.enter_remove {r : String} {room : Room XID} (hsound : room.Sound r)
    (c : ClientInfo XID) (name : String) (hfresh : c.id ∉ room.users.keys) :
    (room.enter (c.newUser name false)).remove c.id = room := by
  have husers : (room.users.insert c.id (c.newUser name false)).erase c.id = room.users := by
    rw [GoMap.erase_insert]
    apply GoMap.ext
    intro k
    rw [GoMap.lookup_erase]
    split
    · next hk => rw [hk, GoMap.lookup_eq_none.mpr hfresh]
    · rfl
  have hsessions : room.endSessions (Touches c.id) = room :=
    endSessions_of_forall fun _ _ hl ↦ hsound.not_touches (fun _ ↦ hfresh) hl
  calc (room.enter (c.newUser name false)).remove c.id
      = { room with users := (room.users.insert c.id (c.newUser name false)).erase c.id
                    sessions := (room.endSessions (Touches c.id)).sessions } := rfl
    _ = room := by rw [husers, hsessions]

/-- The address lookup fails after the client was added. -/
theorem joinFailed_effect (hwf : s.WF env) {e : Event XID} {r name : String} {room : Room XID}
    (hnamed : e.named = some r) (hout : s.connected.lookup c.id = some "")
    (hroom : s.rooms.lookup r = some room)
    (hban : room.bannedIPs.lookup c.addr.toString ≠ some true)
    {told : List (XID × Message XID)}
    (htold : (room.enter (c.newUser name false)).Announces told) {w : World XID}
    (hworld : Change env "" ∅ ∅ { usersJoined := 1 } told s.world w) (d : Disconnected) :
    Effect env c s e (d.executeNoError env
      ⟨s.rooms.insert r (room.enter (c.newUser name false)), s.connected.insert c.id r, w⟩ c) := by
  by_cases hr : r = ""
  · subst hr
    rw [executeNoError_nowhere (GoMap.lookup_insert_self _ _ _), GoMap.erase_insert]
    have hbye := hworld.after (change_writeTimeout env "" c.id (.closeWriter d.code d.reason) w)
    exact .haunt hnamed hout hroom hban htold (by simpa using hbye)
  · have hsound := hwf.sound r room hroom
    have hfresh := hwf.fresh hout hroom hr
    have hwf' : (⟨s.rooms.insert r (room.enter (c.newUser name false)),
        s.connected.insert c.id r, w⟩ : Rooms XID).WF env := by
      refine hwf.replace hroom (hsound.enter c name fun _ ↦ hfresh) rfl rfl ?_ hworld.tick
      refine hwf.linked.insert_enter hout (fun k ↦ ?_)
      rw [member_iff hroom]
      exact Room.enter_keys room c name k
    have hin : (⟨s.rooms.insert r (room.enter (c.newUser name false)), s.connected.insert c.id r,
        w⟩ : Rooms XID).In c.id r (room.enter (c.newUser name false)) :=
      ⟨GoMap.lookup_insert_self _ _ _, hr, GoMap.lookup_insert_self _ _ _⟩
    have hself : (room.enter (c.newUser name false)).users.lookup c.id =
        some (c.newUser name false) := GoMap.lookup_insert_self _ _ _
    have hnone : ∀ id l, (room.enter (c.newUser name false)).sessions.lookup id = some l →
        ¬ Touches c.id l := fun _ _ hl ↦ hsound.not_touches (fun _ ↦ hfresh) hl
    have hleft := executeNoError_left hwf' hin d
    generalize d.executeNoError env ⟨s.rooms.insert r (room.enter (c.newUser name false)),
      s.connected.insert c.id r, w⟩ c = s' at hleft
    cases hleft with
    | stay hleft hended htold' hworld' =>
        cases hleft with
        | member _ _ _ _ =>
            have hback := Room.enter_remove hsound c name hfresh
            rw [hback] at htold' ⊢
            rw [GoMap.insert_insert, GoMap.insert_of_lookup hroom, GoMap.erase_insert]
            rw [hended.nothing hnone, Room.sessionsWhere_of_forall hnone] at hworld'
            have hall := hworld.before (hworld'.mode_irrel "")
            exact .joinFailed hnamed hout hroom hr hban htold htold'
              (by simpa [Metrics.add_def] using hall)
        | owner howner _ _ =>
            obtain ⟨u, hu, ho⟩ := howner
            rw [hself] at hu
            obtain rfl := Option.some.inj hu
            cases ho
    | last honly _ =>
        -- somebody was there before
        obtain ⟨k, hk⟩ := hsound.nonempty
        have hmem := (Room.enter_keys room c name k).mpr (Or.inr hk)
        rw [honly, Finset.mem_singleton] at hmem
        exact absurd (hmem ▸ hk) hfresh

omit [DecidableEq XID] in
theorem Room.Opened.congr {room room' : Room XID} {w w' : World XID}
    {links links' : RoomSession XID → Prop} {os : List (OpenedSession XID)}
    (h : room.Opened env w links os) (hmode : room'.mode = room.mode)
    (hinternal : w'.turnServer.IsInternal → w.turnServer.IsInternal)
    (hlinks : ∀ l, links l ↔ links' l) : room'.Opened env w' links' os where
  nodup := h.nodup
  mem_iff := fun l ↦ (h.mem_iff l).trans (hlinks l)
  nodup_ids := h.nodup_ids
  names := fun hint o ho ↦ hmode ▸ h.names (hinternal hint) o ho

/-- A `range` over the members around a body that can panic. -/
theorem Room.rangeUsersM_eq (env : Env XID)
    (body : XID → User XID → Room XID × World XID → Option (Room XID × World XID))
    (room : Room XID) (w : World XID) :
    ∃ visit : Room XID × World XID → XID → Option (Room XID × World XID),
      rangeUsersM env body (room, w) =
        ((env.range w.tick).visit room.users.keys).foldlM visit (room, w.draw 1) ∧
      (∀ r w k, r.users.lookup k = none → visit (r, w) k = some (r, w)) ∧
      ∀ r w k u, r.users.lookup k = some u → visit (r, w) k = body k u (r, w) :=
  ⟨_, rfl, fun r w k h ↦ by simp only [h], fun r w k u h ↦ by simp only [h]⟩

/-- A loop over the members of a room that opens one session for each link. -/
theorem rangeUsersM_newSession (env : Env XID) (room : Room XID) (v4 v6 : IP)
    (link : XID → User XID → Option (RoomSession XID))
    (body : XID → User XID → Room XID × World XID → Option (Room XID × World XID))
    (hbody : ∀ r w k u, r.users = room.users → r.mode = room.mode →
      room.users.lookup k = some u → body k u (r, w) =
        match link k u with
        | none => some (r, w)
        | some l => r.newSession env l.host l.client v4 v6 w)
    (hlink : ∀ k u l, room.users.lookup k = some u → link k u = some l →
      (∃ u, room.users.lookup l.host = some u ∧ u.write = l.host) ∧
      ∃ u, room.users.lookup l.client = some u ∧ u.write = l.client)
    (hinj : ∀ k k' u u' l, room.users.lookup k = some u → room.users.lookup k' = some u' →
      link k u = some l → link k' u' = some l → k = k') (w : World XID) :
    ∃ (os : List (OpenedSession XID)) (w' : World XID),
      Room.rangeUsersM env body (room, w) = some (room.openSessions os, w') ∧
      room.Opened env w (fun l ↦ ∃ k u, room.users.lookup k = some u ∧ link k u = some l) os ∧
      (∀ o ∈ os, o.Made env room.mode v4 v6) ∧
      Change env room.mode ∅ (os.map OpenedSession.id).toFinset { sessionCreated := os.length }
        (os.flatMap OpenedSession.messages) w w' := by
  set ks := (env.range w.tick).visit room.users.keys with hks
  have hbind : ∀ k l, ((room.users.lookup k).bind (link k)) = some l ↔
      ∃ u, room.users.lookup k = some u ∧ link k u = some l := fun k l ↦ Option.bind_eq_some_iff
  obtain ⟨visit, hrange, hnone, hsome⟩ := Room.rangeUsersM_eq env body room w
  obtain ⟨os, w', hfold, hsessions, hids, hnames, hmade, hchange⟩ := foldlM_newSession env room
    v4 v6 (fun k ↦ (room.users.lookup k).bind (link k))
    visit
    (fun r w k husers hmode ↦ by
      cases hu : room.users.lookup k with
      | none =>
          simp only [Option.bind_none]
          exact hnone r w k (husers ▸ hu)
      | some u =>
          simp only [Option.bind_some]
          exact (hsome r w k u (husers ▸ hu)).trans (hbody r w k u husers hmode hu))
    (fun k l hl ↦ by
      obtain ⟨u, hu, hl⟩ := (hbind k l).mp hl
      exact hlink k u l hu hl) ks room rfl rfl (w.draw 1)
  refine ⟨os, w', hrange.trans hfold, ⟨?_, ?_, hids, hnames⟩, hmade, ?_⟩
  · rw [hsessions]
    refine ((env.range w.tick).nodup_visit _).filterMap ?_
    intro k k' l hl hl'
    obtain ⟨u, hu, hl⟩ := (hbind k l).mp hl
    obtain ⟨u', hu', hl'⟩ := (hbind k' l).mp hl'
    exact hinj k k' u u' l hu hu' hl hl'
  · intro l
    rw [hsessions, List.mem_filterMap]
    constructor
    · rintro ⟨k, -, hl⟩
      exact ⟨k, (hbind k l).mp hl⟩
    · rintro ⟨k, u, hu, hl⟩
      refine ⟨k, ?_, (hbind k l).mpr ⟨u, hu, hl⟩⟩
      rw [hks, RangeOrder.mem_visit]
      exact GoMap.mem_keys_of_lookup hu
  · simpa using (change_draw env room.mode 1 w).before hchange

/-- The sessions that `join` opens. -/
def joinLink (c : XID) (u : User XID) : Option (RoomSession XID) :=
  if c = u.id ∨ ¬ u.streaming then none else some ⟨u.id, c⟩

theorem joinLink_eq_some {c : XID} {u : User XID} {l : RoomSession XID} :
    joinLink c u = some l ↔ c ≠ u.id ∧ u.streaming ∧ l = ⟨u.id, c⟩ := by
  unfold joinLink
  split
  · next h =>
      rcases h with rfl | h <;> simp_all
  · next h =>
      rw [not_or, not_not] at h
      simp [h.1, h.2, eq_comm]

theorem joinLink_iff {r name : String} {room : Room XID} (hsound : room.Sound r)
    (hkeyed : (room.enter (c.newUser name false)).Keyed) (l : RoomSession XID) :
    (∃ k u, (room.enter (c.newUser name false)).users.lookup k = some u ∧
      joinLink c.id u = some l) ↔
    l.client = c.id ∧ l.host ≠ c.id ∧ ∃ u, room.users.lookup l.host = some u ∧ u.streaming := by
  constructor
  · rintro ⟨k, u, hu, hl⟩
    obtain ⟨hne, hstreaming, rfl⟩ := joinLink_eq_some.mp hl
    have hid := (hkeyed k u hu).1
    rcases Room.enter_lookup.mp hu with ⟨-, rfl⟩ | ⟨-, hu⟩
    · exact absurd rfl hne
    · exact ⟨rfl, hne.symm, u, hid ▸ hu, hstreaming⟩
  · rintro ⟨hclient, hne, u, hu, hstreaming⟩
    have hid := (hsound.keyed _ u hu).1
    refine ⟨l.host, u, Room.enter_lookup.mpr (Or.inr ⟨hne, hu⟩), joinLink_eq_some.mpr ?_⟩
    refine ⟨fun heq ↦ hne (hid.symm.trans heq.symm), hstreaming, ?_⟩
    rw [hid, ← hclient]

/-- The checks of `join` pass. -/
structure Join.Welcome (j : Join) (s : Rooms XID) (c : ClientInfo XID) (room : Room XID) :
    Prop where
  out : s.connected.lookup c.id = some ""
  lookup : s.rooms.lookup j.id = some room
  unbanned : room.bannedIPs.lookup c.addr.toString ≠ some true

/-- The room with the client added. -/
def Join.entered (env : Env XID) (j : Join) (c : ClientInfo XID) (room : Room XID)
    (w : World XID) : Room XID :=
  room.enter (c.newUser (c.userName env j.userName w).1 false)

/-- The world in which `join` asks for the addresses. -/
def Join.announced (env : Env XID) (j : Join) (c : ClientInfo XID) (room : Room XID)
    (w : World XID) : World XID :=
  ((j.entered env c room w).notifyInfoChanged env (c.userName env j.userName w).2).count
    { usersJoined := 1 }

theorem Join.execute_refused (hc : c.id ∈ s.connected.keys) {j : Join}
    (h : ∀ room, ¬ j.Welcome s c room) : ∃ err, j.execute env s c = .error err s := by
  by_cases hout : s.connectedTo c.id = ""
  swap
  · simp only [Join.execute, hout, ne_eq, not_false_eq_true, if_true]
    exact ⟨_, rfl⟩
  have hfirst : ¬ s.connectedTo c.id ≠ "" := fun h ↦ h hout
  cases hroom : s.rooms.lookup j.id with
  | none =>
      simp only [Join.execute, if_neg hfirst, hroom]
      exact ⟨_, rfl⟩
  | some room =>
      have hban : (room.bannedIPs.lookup c.addr.toString).getD false := by
        by_contra hban
        refine h room ⟨lookup_of_connectedTo hc hout, hroom, fun hbanned ↦ hban ?_⟩
        rw [hbanned]
        rfl
      simp only [Join.execute, if_neg hfirst, hroom, if_pos hban]
      exact ⟨_, rfl⟩

section Welcome

variable {j : Join} {room : Room XID}

theorem Join.Welcome.checks (h : j.Welcome s c room) : ¬ s.connectedTo c.id ≠ "" ∧
    ¬ (room.bannedIPs.lookup c.addr.toString).getD false := by
  refine ⟨?_, fun hban ↦ h.unbanned ?_⟩
  · rw [connectedTo, h.out]
    simp
  · cases hlookup : room.bannedIPs.lookup c.addr.toString with
    | none =>
        rw [hlookup] at hban
        cases hban
    | some banned =>
        rw [hlookup] at hban
        exact congrArg some hban

theorem Join.Welcome.execute_failed (h : j.Welcome s c room) (hwf : s.WF env) {err : String}
    (hip : env.turnIPProvider (j.announced env c room s.world).tick = .error err) :
    j.execute env s c = .error err ⟨s.rooms.insert j.id (j.entered env c room s.world),
      s.connected.insert c.id j.id, (j.announced env c room s.world).draw 1⟩ := by
  obtain ⟨hfirst, hban⟩ := h.checks
  have hlookup := h.lookup
  obtain ⟨rid, userName⟩ := j
  obtain rfl : room.id = rid := (hwf.sound rid room hlookup).id_eq
  simp only [announced, entered, Room.enter, ClientInfo.newUser] at hip ⊢
  simp only [Join.execute, ClientInfo.newUser, if_neg hfirst, hlookup, if_neg hban, hip]
  rfl

/-- What a `join` that passes the checks has told everybody. -/
theorem Join.Welcome.announced_change (h : j.Welcome s c room) (hwf : s.WF env) :
    ∃ told, (j.entered env c room s.world).Announces told ∧
      Change env room.mode ∅ ∅ { usersJoined := 1 } told s.world
        (j.announced env c room s.world) := by
  have hsound := hwf.sound j.id room h.lookup
  have hname := userName_change env c j.userName s.world
  obtain ⟨told, htold, hnotify⟩ := Room.notifyInfoChanged_spec env
    (hsound.enter c (c.userName env j.userName s.world).1 (hwf.fresh h.out h.lookup)).keyed
    room.mode (c.userName env j.userName s.world).2
  have hworld := ((hname.mode_irrel room.mode).before hnotify).after
    (change_count env room.mode { usersJoined := 1 } _)
  rw [List.append_nil, List.nil_append, zero_add, zero_add] at hworld
  exact ⟨told, htold, hworld⟩

theorem Join.Welcome.execute_ok (h : j.Welcome s c room) (hwf : s.WF env) {v4 v6 : IP}
    (hip : env.turnIPProvider (j.announced env c room s.world).tick = .ok (v4, v6)) :
    ∃ (os : List (OpenedSession XID)) (w : World XID),
      j.execute env s c = .ok ⟨s.rooms.insert j.id
        ((j.entered env c room s.world).openSessions os), s.connected.insert c.id j.id, w⟩ ∧
      room.Opened env s.world (fun l ↦ l.client = c.id ∧ l.host ≠ c.id ∧
        ∃ u, room.users.lookup l.host = some u ∧ u.streaming) os ∧
      (∀ o ∈ os, o.Made env room.mode v4 v6) ∧
      Change env room.mode ∅ (os.map OpenedSession.id).toFinset
        { sessionCreated := os.length } (os.flatMap OpenedSession.messages)
        (j.announced env c room s.world) w := by
  obtain ⟨hfirst, hban⟩ := h.checks
  obtain ⟨_, -, hannounced⟩ := h.announced_change hwf
  have hsound := hwf.sound j.id room h.lookup
  have hentered := hsound.enter c (c.userName env j.userName s.world).1
    (hwf.fresh h.out h.lookup)
  have hdraw := change_draw env room.mode 1 (j.announced env c room s.world)
  obtain ⟨os, w, hrange, hos, hmade, hchange⟩ := rangeUsersM_newSession env
    (j.entered env c room s.world) v4 v6 (fun _ u ↦ joinLink c.id u)
    (fun _ user s ↦ if c.id = user.id ∨ ¬ user.streaming then some s
      else s.1.newSession env user.id c.id v4 v6 s.2)
    (fun r w k u _ _ _ ↦ by
      unfold joinLink
      split <;> rfl)
    (fun k u l hu hl ↦ by
      obtain ⟨-, -, rfl⟩ := joinLink_eq_some.mp hl
      obtain ⟨rfl, hwrite⟩ := hentered.keyed k u hu
      exact ⟨⟨u, hu, hwrite⟩, _, GoMap.lookup_insert_self _ _ _, rfl⟩)
    (fun k k' u u' l hu hu' hl hl' ↦ by
      obtain ⟨-, -, rfl⟩ := joinLink_eq_some.mp hl
      obtain ⟨-, -, heq⟩ := joinLink_eq_some.mp hl'
      rw [← (hentered.keyed k u hu).1, ← (hentered.keyed k' u' hu').1]
      exact congrArg RoomSession.host heq)
    ((j.announced env c room s.world).draw 1)
  have hall := hdraw.before hchange
  rw [zero_add, List.nil_append] at hall
  refine ⟨os, w, ?_, hos.congr rfl (hannounced.internal.mpr ·)
    (joinLink_iff hsound hentered.keyed), hmade, hall⟩
  have hlookup := h.lookup
  obtain ⟨rid, userName⟩ := j
  obtain rfl : room.id = rid := hsound.id_eq
  simp only [announced, entered, Room.enter, ClientInfo.newUser] at hip hrange ⊢
  simp only [Join.execute, ClientInfo.newUser, if_neg hfirst, hlookup, if_neg hban, hip, hrange]
  rfl

end Welcome

theorem join_settles (hwf : s.WF env) (hc : c.id ∈ s.connected.keys) {e : Event XID} (j : Join)
    (hnamed : e.named = some j.id) : Settles env c s e (j.execute env s c) := by
  by_cases hwelcome : ∃ room, j.Welcome s c room
  swap
  · obtain ⟨err, hrun⟩ := Join.execute_refused hc (not_exists.mp hwelcome)
    rw [hrun]
    exact settles_error_self hwf hc err
  obtain ⟨room, hwelcome⟩ := hwelcome
  obtain ⟨told, htold, hworld⟩ := hwelcome.announced_change hwf
  cases hip : env.turnIPProvider (j.announced env c room s.world).tick with
  | error err =>
      rw [hwelcome.execute_failed hwf hip]
      have hdrawn := hworld.after (change_draw env room.mode 1 _)
      rw [List.append_nil, add_zero] at hdrawn
      exact joinFailed_effect hwf hnamed hwelcome.out hwelcome.lookup hwelcome.unbanned htold
        (hdrawn.mode_irrel "") _
  | ok p =>
      obtain ⟨v4, v6⟩ := p
      obtain ⟨os, w, hrun, hos, -, hchange⟩ := hwelcome.execute_ok hwf hip
      rw [hrun]
      have hall := hworld.before hchange
      have hcount : ({ usersJoined := 1 } : Metrics) + { sessionCreated := os.length } =
          { usersJoined := 1, sessionCreated := os.length } := by
        simp [Metrics.add_def]
      rw [hcount] at hall
      exact .join hnamed hwelcome.out hwelcome.lookup hwelcome.unbanned hos htold hall

theorem create_settles (hwf : s.WF env) (hc : c.id ∈ s.connected.keys) (e : Create) :
    Settles env c s (.create e) (e.execute env s c) := by
  by_cases hout : s.connectedTo c.id = ""
  · cases hroom : s.rooms.lookup e.id with
    | none => exact createRoom_settles hwf hc e hout hroom
    | some room =>
        have hfirst : ¬ s.connectedTo c.id ≠ "" := fun h ↦ h hout
        by_cases hjoin : e.joinIfExist
        · simp only [Create.execute, if_neg hfirst, hroom, if_pos hjoin]
          exact join_settles hwf hc ⟨e.id, e.userName⟩ rfl
        · simp only [Create.execute, if_neg hfirst, hroom, if_neg hjoin]
          exact settles_error_self hwf hc _
  · simp only [Create.execute, hout, ne_eq, not_false_eq_true, if_true]
    exact settles_error_self hwf hc _

/-! ## `share` -/

/-- The sessions that `share` opens. -/
def shareLink (c : XID) (u : User XID) : Option (RoomSession XID) :=
  if c = u.id then none else some ⟨c, u.id⟩

theorem shareLink_eq_some {c : XID} {u : User XID} {l : RoomSession XID} :
    shareLink c u = some l ↔ c ≠ u.id ∧ l = ⟨c, u.id⟩ := by
  unfold shareLink
  split
  · next h => simp [h]
  · next h => simp [h, eq_comm]

theorem shareLink_iff {t : XID} {room : Room XID} (hkeyed : (room.startStream t).Keyed)
    (l : RoomSession XID) :
    (∃ k u, (room.startStream t).users.lookup k = some u ∧ shareLink t u = some l) ↔
    l.host = t ∧ l.client ≠ t ∧ l.client ∈ room.users.keys := by
  constructor
  · rintro ⟨k, u, hu, hl⟩
    obtain ⟨hne, rfl⟩ := shareLink_eq_some.mp hl
    obtain ⟨v, hv, -⟩ := Room.startStream_lookup.mp hu
    refine ⟨rfl, hne.symm, ?_⟩
    rw [(hkeyed k u hu).1]
    exact GoMap.mem_keys_of_lookup hv
  · rintro ⟨hhost, hne, hmem⟩
    obtain ⟨v, hv⟩ := GoMap.mem_keys.mp hmem
    have hu : (room.startStream t).users.lookup l.client = some v :=
      Room.startStream_lookup.mpr ⟨v, hv, if_neg hne⟩
    have hid := (hkeyed _ _ hu).1
    refine ⟨l.client, v, hu, shareLink_eq_some.mpr ⟨?_, ?_⟩⟩
    · rw [hid]
      exact hne.symm
    · rw [hid, ← hhost]

theorem Room.startStream_remove (room : Room XID) (t : XID) :
    (room.startStream t).remove t = room.remove t := by
  have husers : (room.startStream t).users.erase t = room.users.erase t := by
    apply GoMap.ext
    intro k
    rw [GoMap.lookup_erase, GoMap.lookup_erase]
    split
    · rfl
    · next hk =>
        rw [startStream, mapUsers, GoMap.lookup_mapVals]
        simp [hk]
  calc (room.startStream t).remove t
      = { room with users := (room.startStream t).users.erase t
                    sessions := (room.endSessions (Touches t)).sessions } := rfl
    _ = room.remove t := by
        rw [husers]
        rfl

theorem Room.startStream_keys (room : Room XID) (t : XID) :
    (room.startStream t).users.keys = room.users.keys :=
  GoMap.keys_mapVals _ _

theorem Room.LeftBy.of_startStream {t : XID} {room room' : Room XID}
    (h : (room.startStream t).LeftBy t room') : room.LeftBy t room' := by
  cases h with
  | member huser howner hother hne =>
      obtain ⟨v, hv, rfl⟩ := startStream_lookup.mp huser
      rw [if_pos rfl] at howner
      rw [startStream_keys] at hother
      rw [startStream_remove]
      exact .member hv howner hother hne
  | owner howner hnext hne =>
      obtain ⟨u, hu, ho⟩ := howner
      obtain ⟨v, hv, rfl⟩ := startStream_lookup.mp hu
      rw [if_pos rfl] at ho
      rw [startStream_keys] at hnext
      rw [startStream_remove]
      exact .owner ⟨v, hv, ho⟩ hnext hne

theorem shareStarted_wf (hwf : s.WF env) {r : String} {room : Room XID} {u : User XID}
    (hin : s.In c.id r room) (huser : room.users.lookup c.id = some u) (hcan : u.canShare)
    (hfree : ∀ k u, room.users.lookup k = some u → u.streaming → k = c.id) {w : World XID}
    (htick : s.world.tick ≤ w.tick) :
    (⟨s.rooms.insert r (room.startStream c.id), s.connected, w⟩ : Rooms XID).WF env :=
  hwf.replace hin.lookup
    ((hwf.sound r room hin.lookup).startStream hin.ne_empty huser hcan hfree) rfl rfl
    (hwf.linked.insert_same hin.lookup (room.startStream_keys c.id)) htick

/-- The address lookup fails after the member was put on the air. -/
theorem shareFailed_left (hwf : s.WF env) {r : String} {room : Room XID} {u : User XID}
    (hin : s.In c.id r room) (huser : room.users.lookup c.id = some u) (hcan : u.canShare)
    (hfree : ∀ k u, room.users.lookup k = some u → u.streaming → k = c.id) {w : World XID}
    (hworld : Change env "" ∅ ∅ 0 [] s.world w) (d : Disconnected) :
    Left env c.id s r room (d.executeNoError env
      ⟨s.rooms.insert r (room.startStream c.id), s.connected, w⟩ c) := by
  have hwf' := shareStarted_wf hwf hin huser hcan hfree hworld.tick
  have hin' : (⟨s.rooms.insert r (room.startStream c.id), s.connected, w⟩ : Rooms XID).In c.id r
      (room.startStream c.id) := ⟨hin.connected, hin.ne_empty, GoMap.lookup_insert_self _ _ _⟩
  have hleft := executeNoError_left hwf' hin' d
  generalize d.executeNoError env
    ⟨s.rooms.insert r (room.startStream c.id), s.connected, w⟩ c = s' at hleft
  cases hleft with
  | stay hleft hended htold hworld' =>
      rw [GoMap.insert_insert]
      have hall := (hworld.mode_irrel room.mode).before hworld'
      rw [zero_add, List.nil_append] at hall
      exact .stay hleft.of_startStream hended htold hall
  | last honly hworld' =>
      rw [Room.startStream_keys] at honly
      rw [GoMap.erase_insert]
      have hall := hworld.before hworld'
      rw [zero_add, List.nil_append] at hall
      exact .last honly hall

theorem not_busy {room : Room XID} (hkeyed : room.Keyed) {t : XID}
    (hfree : ∀ k u, room.users.lookup k = some u → u.streaming → k = t) :
    ¬ ∃ k ∈ room.users.keys, (room.users.lookup k).any fun user ↦
      user.streaming ∧ user.id ≠ t := by
  rintro ⟨k, hk, hother⟩
  obtain ⟨v, hv⟩ := GoMap.mem_keys.mp hk
  simp only [hv, Option.any_some, decide_eq_true_eq, (hkeyed k v hv).1] at hother
  exact hother.2 (hfree k v hv hother.1)

theorem startShare_ok (hwf : s.WF env) {r : String} {room : Room XID} {u : User XID}
    (hin : s.In c.id r room) (huser : room.users.lookup c.id = some u) (hcan : u.canShare)
    (hfree : ∀ k u, room.users.lookup k = some u → u.streaming → k = c.id) {v4 v6 : IP}
    (hip : env.turnIPProvider s.world.tick = .ok (v4, v6)) :
    ∃ (os : List (OpenedSession XID)) (told : List (XID × Message XID)) (w : World XID),
      StartShare.execute env s c =
        .ok ⟨s.rooms.insert r ((room.startStream c.id).openSessions os), s.connected, w⟩ ∧
      room.Opened env s.world (fun l ↦ l.host = c.id ∧ l.client ≠ c.id ∧
        l.client ∈ room.users.keys) os ∧
      (∀ o ∈ os, o.Made env room.mode v4 v6) ∧ (room.startStream c.id).Announces told ∧
      Change env room.mode ∅ (os.map OpenedSession.id).toFinset
        { sessionCreated := os.length } (os.flatMap OpenedSession.messages ++ told) s.world w := by
  have hkeyed := (hwf.sound r room hin.lookup).keyed
  have hallowed : ¬ (room.users.lookup c.id).any fun u ↦ ¬ u.canShare := by
    simp [huser, hcan]
  have halone := not_busy hkeyed hfree
  have hsound := (hwf.sound r room hin.lookup).startStream hin.ne_empty huser hcan hfree
  have hstart : room.modifyUser c.id (fun u ↦ { u with streaming := true }) =
      room.startStream c.id := Room.modifyUser_eq _ _ _
  have hdraw := change_draw env room.mode 1 s.world
  obtain ⟨os, w, hrange, hos, hmade, hchange⟩ := rangeUsersM_newSession env
    (room.startStream c.id) v4 v6 (fun _ u ↦ shareLink c.id u)
    (fun _ user s ↦ if c.id = user.id then some s
      else s.1.newSession env c.id user.id v4 v6 s.2)
    (fun r w k u _ _ _ ↦ by
      unfold shareLink
      split <;> rfl)
    (fun k u' l hu' hl ↦ by
      obtain ⟨-, rfl⟩ := shareLink_eq_some.mp hl
      obtain ⟨rfl, hwrite⟩ := hsound.keyed k u' hu'
      have hself := Room.startStream_lookup.mpr ⟨u, huser, if_pos rfl⟩
      exact ⟨⟨_, hself, (hsound.keyed _ _ hself).2⟩, u', hu', hwrite⟩)
    (fun k k' u u' l hu hu' hl hl' ↦ by
      obtain ⟨-, rfl⟩ := shareLink_eq_some.mp hl
      obtain ⟨-, heq⟩ := shareLink_eq_some.mp hl'
      rw [← (hsound.keyed k u hu).1, ← (hsound.keyed k' u' hu').1]
      exact congrArg RoomSession.client heq)
    (s.world.draw 1)
  have hkeyed' : ((room.startStream c.id).openSessions os).Keyed := hsound.keyed
  obtain ⟨told, htold, hnotify⟩ := Room.notifyInfoChanged_spec env hkeyed' room.mode w
  have hall := (hdraw.before hchange).after hnotify
  rw [zero_add, add_zero, List.nil_append] at hall
  refine ⟨os, told, _, ?_, hos.congr rfl hdraw.internal.mpr (shareLink_iff hsound.keyed),
    hmade, htold.congr rfl rfl, hall⟩
  simp only [StartShare.execute, currentRoom_of_in hin, if_neg hallowed, if_neg halone]
  simp only [huser, hstart, hip]
  split
  · next heq => exact absurd (hrange.symm.trans heq) (by simp)
  · next room' w' heq =>
      obtain ⟨rfl, rfl⟩ := Prod.mk.inj (Option.some.inj (hrange.symm.trans heq))
      rfl

theorem startShare_refused (hwf : s.WF env) {r : String} {room : Room XID} (hin : s.In c.id r room)
    (h : ¬ ((∃ u, room.users.lookup c.id = some u ∧ u.canShare) ∧
      ∀ k u, room.users.lookup k = some u → u.streaming → k = c.id)) :
    ∃ err, StartShare.execute env s c = .error err s := by
  obtain ⟨u, hu⟩ := GoMap.mem_keys.mp (hin.member hwf)
  by_cases hcan : u.canShare
  · have hother : ∃ k ∈ room.users.keys, (room.users.lookup k).any fun user ↦
        user.streaming ∧ user.id ≠ c.id := by
      have hbusy : ¬ ∀ k u, room.users.lookup k = some u → u.streaming → k = c.id :=
        fun hfree ↦ h ⟨⟨u, hu, hcan⟩, hfree⟩
      push Not at hbusy
      obtain ⟨k, v, hv, hstreaming, hne⟩ := hbusy
      refine ⟨k, GoMap.mem_keys_of_lookup hv, ?_⟩
      simp [hv, hstreaming, ((hwf.sound r room hin.lookup).keyed k v hv).1, hne]
    have hallowed : ¬ (room.users.lookup c.id).any fun u ↦ ¬ u.canShare := by
      simp [hu, hcan]
    simp only [StartShare.execute, currentRoom_of_in hin, if_neg hallowed, if_pos hother]
    exact ⟨_, rfl⟩
  · have hforbidden : (room.users.lookup c.id).any fun u ↦ ¬ u.canShare := by
      simp [hu, hcan]
    simp only [StartShare.execute, currentRoom_of_in hin, if_pos hforbidden]
    exact ⟨_, rfl⟩

theorem startShare_failed (hwf : s.WF env) {r : String} {room : Room XID} {u : User XID}
    (hin : s.In c.id r room) (huser : room.users.lookup c.id = some u) (hcan : u.canShare)
    (hfree : ∀ k u, room.users.lookup k = some u → u.streaming → k = c.id) {err : String}
    (hip : env.turnIPProvider s.world.tick = .error err) :
    StartShare.execute env s c = .error err
      ⟨s.rooms.insert r (room.startStream c.id), s.connected, s.world.draw 1⟩ := by
  have hallowed : ¬ (room.users.lookup c.id).any fun u ↦ ¬ u.canShare := by
    simp [huser, hcan]
  have halone := not_busy (hwf.sound r room hin.lookup).keyed hfree
  have hstart : room.modifyUser c.id (fun u ↦ { u with streaming := true }) =
      room.startStream c.id := Room.modifyUser_eq _ _ _
  simp only [StartShare.execute, currentRoom_of_in hin, if_neg hallowed, if_neg halone]
  simp only [huser, hstart, hip]
  rfl

theorem startShare_settles (hwf : s.WF env) (hc : c.id ∈ s.connected.keys) :
    Settles env c s .startShare (StartShare.execute env s c) := by
  cases h : s.currentRoom c with
  | error err =>
      simp only [StartShare.execute, h]
      exact settles_error_self hwf hc err
  | ok p =>
      obtain ⟨r, room⟩ := p
      have hin := in_of_currentRoom h
      by_cases hfit : (∃ u, room.users.lookup c.id = some u ∧ u.canShare) ∧
          ∀ k u, room.users.lookup k = some u → u.streaming → k = c.id
      swap
      · obtain ⟨err, hrun⟩ := startShare_refused hwf hin hfit
        rw [hrun]
        exact settles_error_self hwf hc err
      obtain ⟨⟨u, hu, hcan⟩, hfree⟩ := hfit
      cases hip : env.turnIPProvider s.world.tick with
      | error err =>
          rw [startShare_failed hwf hin hu hcan hfree hip]
          exact .leave hin
            (shareFailed_left hwf hin hu hcan hfree (change_draw env "" 1 s.world) _)
      | ok p =>
          obtain ⟨v4, v6⟩ := p
          obtain ⟨os, told, w, hrun, hos, -, htold, hworld⟩ :=
            startShare_ok hwf hin hu hcan hfree hip
          rw [hrun]
          exact .share hin hu hcan hfree ⟨v4, v6, hip⟩ hos htold hworld

end Screego
