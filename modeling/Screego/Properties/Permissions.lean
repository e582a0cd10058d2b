import Screego.Properties.Removal

/-!
# Permissions one by one and all at once

`disable_all` and `enable_all` write to every member but the owner.  Toggling
exactly those whose flag differs comes to the same in any order, for a member
without the permission is not on the air and hosts no session.
-/

namespace Screego

open Outgoing World Rooms

variable {XID : Type} [DecidableEq XID] {env : Env XID} {server : Turn.Server}

/-- The action on everybody that changes those whose flag is `b`. -/
def batchName : Bool → String
  | true => "disable_all"
  | false => "enable_all"

def batchOp (o : XID) : Bool → RoomOp XID
  | true => .forbidAll o
  | false => .permitAll o

/-- The room after `ks` were toggled. -/
def toggleSome (ks : List XID) (room : Room XID) : Room XID :=
  (room.mapUsers fun k u ↦ if k ∈ ks then { u with canShare := !u.canShare, streaming := false }
    else u).endSessions fun l ↦ l.host ∈ ks

/-- The rooms, with their members and sessions, and the accepted usernames are the same. -/
structure SameRooms (s s' : Rooms XID) : Prop where
  rooms : s.rooms = s'.rooms
  lookup : ∀ name, s.world.turnServer.entry name = s'.world.turnServer.entry name

/-- The actions toggle the members `ts`, one after the other. -/
def Toggles (env : Env XID) (c : XID) (acts : List OwnerAction) (ts : List XID) : Prop :=
  List.Forall₂ (fun a t ↦ a.action = "toggle_share_permission" ∧ a.Targets env c t) acts ts

/-- For the owner `c` of the room under `r`, the action on everybody comes to toggling those whose
flag is `b`, does nothing the second time, and leaves alone what is its own. -/
structure BatchAgrees (env : Env XID) (server : Turn.Server) (s : System XID) (c : ClientInfo XID)
    (r : String) (room : Room XID) (b : Bool) : Prop where
  toggles : ∀ (batch : OwnerAction) ts acts, batch.action = batchName b → ts.Nodup →
    (∀ k, k ∈ ts ↔ k ≠ c.id ∧ ∃ u, room.users.lookup k = some u ∧ u.canShare = b) →
    Toggles env c.id acts ts →
    ∃ t l u, (machine env server).step s (.receive c (.ownerAction batch)) t ∧
      (machine env server).Run s l u ∧
      l.map Prod.snd = acts.map (fun a ↦ .receive c (.ownerAction a)) ∧ SameRooms t.rooms u.rooms
  idempotent : ∀ batch batch' : OwnerAction, batch.action = batchName b →
    batch'.action = batchName b →
    ∃ t u, (machine env server).step s (.receive c (.ownerAction batch)) t ∧
      (machine env server).step t (.receive c (.ownerAction batch')) u ∧ SameRooms u.rooms t.rooms
  owner : ∀ (batch : OwnerAction) t, batch.action = batchName b →
    (machine env server).step s (.receive c (.ownerAction batch)) t →
    ∃ room', t.rooms.rooms.lookup r = some room' ∧
      room'.users.lookup c.id = room.users.lookup c.id ∧
      ∀ id l, l.host = c.id →
        (room'.sessions.lookup id = some l ↔ room.sessions.lookup id = some l)

/-! ## Rooms -/

namespace Room

variable {room : Room XID}

theorem rewrite_congr {f g : XID → User XID → User XID} {p q : RoomSession XID → Prop}
    [DecidablePred p] [DecidablePred q] (hf : ∀ k u, room.users.lookup k = some u → f k u = g k u)
    (hp : ∀ id l, room.sessions.lookup id = some l → (p l ↔ q l)) :
    (room.mapUsers f).endSessions p = (room.mapUsers g).endSessions q := by
  rw [mapUsers_congr hf]
  exact endSessions_congr hp

theorem rewrite_rewrite (f g : XID → User XID → User XID) (p q : RoomSession XID → Prop)
    [DecidablePred p] [DecidablePred q] :
    (((room.mapUsers f).endSessions p).mapUsers g).endSessions q =
      (room.mapUsers fun k u ↦ g k (f k u)).endSessions fun l ↦ p l ∨ q l := by
  have hcomm : ((room.mapUsers f).endSessions p).mapUsers g =
      ((room.mapUsers f).mapUsers g).endSessions p := rfl
  rw [hcomm, endSessions_endSessions, mapUsers_mapUsers]

end Room

section Room

variable {room : Room XID} {r : String} {o : XID}

theorem toggleSome_cons {k : XID} {ks : List XID} (hk : k ∉ ks) (room : Room XID) :
    toggleSome ks ((RoomOp.toggle k).apply room) = toggleSome (k :: ks) room := by
  refine (Room.rewrite_rewrite _ _ _ _).trans (Room.rewrite_congr ?_ ?_)
  · intro k' u _
    by_cases hk' : k' = k
    · subst hk'
      simp [RoomOp.update, hk]
    · simp [RoomOp.update, hk']
  · intro id l _
    simp only [RoomOp.Ends, List.mem_cons]

theorem toggleSome_nil (room : Room XID) : toggleSome [] room = room := by
  have husers : room.mapUsers (fun k u ↦ if k ∈ ([] : List XID) then
      { u with canShare := !u.canShare, streaming := false } else u) = room :=
    Room.mapUsers_self fun k u _ ↦ if_neg List.not_mem_nil
  rw [toggleSome, husers]
  exact Room.endSessions_of_forall fun id l _ ↦ List.not_mem_nil

/-- Whoever hosts a session may share. -/
theorem Room.Sound.host_canShare (h : room.Sound r) {id : XID} {l : RoomSession XID}
    (hl : room.sessions.lookup id = some l) :
    ∃ u, room.users.lookup l.host = some u ∧ u.canShare := by
  obtain ⟨u, hu, hs⟩ := h.hosted id l hl
  exact ⟨u, hu, h.permitted l.host u hu hs⟩

/-- The members whose flag is `b` are exactly those that the action on everybody changes. -/
theorem toggleSome_eq_batch (h : room.Sound r) (b : Bool) {ks : List XID}
    (hks : ∀ k, k ∈ ks ↔ k ≠ o ∧ ∃ u, room.users.lookup k = some u ∧ u.canShare = b) :
    toggleSome ks room = (batchOp o b).apply room ∧
      room.sessionsWhere (fun l ↦ l.host ∈ ks) = room.sessionsWhere (batchOp o b).Ends := by
  have hends : ∀ id l, room.sessions.lookup id = some l →
      (l.host ∈ ks ↔ (batchOp o b).Ends l) := by
    intro id l hl
    obtain ⟨u, hu, hcan⟩ := h.host_canShare hl
    rw [hks]
    cases b with
    | true => exact ⟨fun hmem ↦ hmem.1, fun hne ↦ ⟨hne, u, hu, hcan⟩⟩
    | false =>
        refine ⟨?_, fun hno ↦ hno.elim⟩
        rintro ⟨-, v, hv, hnot⟩
        obtain rfl := Option.some.inj (hu.symm.trans hv)
        rw [hcan] at hnot
        cases hnot
  refine ⟨Room.rewrite_congr ?_ hends, Room.sessionsWhere_congr hends⟩
  intro k u hu
  have hmem : k ∈ ks ↔ k ≠ o ∧ u.canShare = b := by
    rw [hks, hu]
    simp
  have hquiet : u.canShare = false → u.streaming = false := by
    intro hcan
    by_contra hs
    have := h.permitted k u hu (by simpa using hs)
    rw [hcan] at this
    cases this
  obtain ⟨id, addr, name, streaming, owner, canShare, write⟩ := u
  cases b <;> cases canShare <;> by_cases ho : k = o <;>
    simp_all [batchOp, RoomOp.update]

/-- Done twice, the action on everybody does nothing more. -/
theorem batch_batch (room : Room XID) (b : Bool) :
    (batchOp o b).apply ((batchOp o b).apply room) = (batchOp o b).apply room ∧
      ((batchOp o b).apply room).sessionsWhere (batchOp o b).Ends = ∅ := by
  constructor
  · refine (Room.rewrite_rewrite _ _ _ _).trans (Room.rewrite_congr ?_ fun id l _ ↦ or_self_iff)
    intro k u _
    cases b <;> by_cases ho : k = o <;> simp [batchOp, RoomOp.update, ho]
  · refine Room.sessionsWhere_of_forall fun id l hl ↦ ?_
    exact (RoomOp.apply_sessions_lookup.mp hl).2

theorem batch_owner (room : Room XID) (b : Bool) :
    ((batchOp o b).apply room).users.lookup o = room.users.lookup o ∧
      ∀ id l, l.host = o → (((batchOp o b).apply room).sessions.lookup id = some l ↔
        room.sessions.lookup id = some l) := by
  constructor
  · refine apply_record fun u ↦ ?_
    cases b <;> exact if_neg (not_not.mpr rfl)
  · intro id l hhost
    rw [RoomOp.apply_sessions_lookup]
    refine and_iff_left ?_
    cases b with
    | true => exact not_not.mpr hhost
    | false => exact not_false

end Room

/-! ## Steps -/

section Step

variable {s : System XID} {c : ClientInfo XID} {r : String} {room : Room XID}

/-- The step replaces the room under `r` and ends the sessions `dead` of it. -/
def Replaces (env : Env XID) (server : Turn.Server) (s : System XID) (c : ClientInfo XID)
    (a : OwnerAction) (r : String) (room room' : Room XID) (dead : Finset XID) (t : System XID) :
    Prop :=
  (machine env server).step s (.receive c (.ownerAction a)) t ∧
    ∃ d msgs w, t.rooms = ⟨s.rooms.rooms.insert r room', s.rooms.connected, w⟩ ∧
      Change env room.mode dead ∅ d msgs s.rooms.world w

theorem replaces_of_execute (server : Turn.Server) (op : RoomOp XID) (hwf : s.WF env)
    (hc : c ∈ s.clients) (hin : s.rooms.In c.id r room) {a : OwnerAction} {w : World XID}
    {dead : Finset XID} {d : Metrics}
    (hrun : a.execute env s.rooms c = .ok (s.rooms.store r
      (op.apply room, (op.apply room).notifyInfoChanged env w)))
    (hchange : Change env room.mode dead ∅ d [] s.rooms.world w) :
    ∃ t, Replaces env server s c a r room (op.apply room) dead t := by
  have hsound := RoomOp.apply_sound (hwf.rooms.sound r room hin.lookup) op
  obtain ⟨told, -, hnotify⟩ := Room.notifyInfoChanged_spec env hsound.keyed room.mode w
  obtain ⟨t, hstep⟩ := step_of_enabled server hwf
    (show s.Enabled (.receive c (.ownerAction a)) from ⟨hc, rfl⟩)
  refine ⟨t, hstep, _, _, _, ?_, hchange.after hnotify⟩
  rw [step_of_execute hstep (GoMap.mem_keys_of_lookup hin.connected) hrun]
  rfl

theorem step_batch (server : Turn.Server) (hwf : s.WF env) (hc : c ∈ s.clients)
    (hin : s.rooms.In c.id r room)
    (howner : room.OwnedBy c.id) {batch : OwnerAction} {b : Bool}
    (ha : batch.action = batchName b) :
    ∃ t, Replaces env server s c batch r room ((batchOp c.id b).apply room)
      (room.sessionsWhere (batchOp c.id b).Ends) t := by
  have hsound := hwf.rooms.sound r room hin.lookup
  have howned := Room.ownedBy_iff_any.mp howner
  have hnot := not_not.mpr howned
  cases b with
  | true =>
      obtain ⟨w, hrun, hchange⟩ := OwnerAction.disableAll_spec env (o := c.id) hsound s.rooms.world
      have hfirst : ¬ batch.action = "enable_all" := by
        rw [ha]
        decide
      have hsecond : batch.action = "disable_all" := ha
      refine replaces_of_execute server (.forbidAll c.id) hwf hc hin ?_ hchange
      simp only [OwnerAction.execute, currentRoom_of_in hin, if_neg hnot, if_neg hfirst,
        if_pos hsecond, hrun]
  | false =>
      have hfirst : batch.action = "enable_all" := ha
      have hnone : room.sessionsWhere (batchOp c.id false).Ends = ∅ :=
        Room.sessionsWhere_of_forall fun _ _ _ h ↦ h
      rw [hnone]
      refine replaces_of_execute server (.permitAll c.id) hwf hc hin ?_
        (change_draw env room.mode 1 s.rooms.world)
      simp only [OwnerAction.execute, currentRoom_of_in hin, if_neg hnot, if_pos hfirst,
        OwnerAction.enableAll_eq hsound.keyed]

theorem step_toggle (server : Turn.Server) (hwf : s.WF env) (hc : c ∈ s.clients)
    (hin : s.rooms.In c.id r room)
    (howner : room.OwnedBy c.id) {a : OwnerAction} (ha : a.action = "toggle_share_permission")
    {k : XID} (ht : a.Targets env c.id k) (hk : k ∈ room.users.keys) :
    ∃ t, Replaces env server s c a r room ((RoomOp.toggle k).apply room)
      (room.sessionsWhere (RoomOp.toggle k).Ends) t := by
  have hsound := hwf.rooms.sound r room hin.lookup
  have howned := Room.ownedBy_iff_any.mp howner
  obtain ⟨target, htarget⟩ := GoMap.mem_keys.mp hk
  obtain ⟨w, hrun, hchange⟩ := OwnerAction.toggle_spec env hsound htarget s.rooms.world
  have hstop : ¬ a.action = "stop_share" := by
    rw [ha]
    decide
  refine replaces_of_execute server (.toggle k) hwf hc hin ?_ hchange
  rw [OwnerAction.execute_on (currentRoom_of_in hin) howned (by rw [ha]; decide)
    (by rw [ha]; decide) ht htarget]
  simp only [OwnerAction.onTarget, if_neg hstop, if_pos ha, hrun]

/-- Toggling members one after the other. -/
theorem run_toggles (server : Turn.Server) {ts : List XID} {acts : List OwnerAction}
    (hacts : Toggles env c.id acts ts)
    (hts : ts.Nodup) (hwf : s.WF env) (hc : c ∈ s.clients) (hin : s.rooms.In c.id r room)
    (howner : room.OwnedBy c.id) (hmem : ∀ k ∈ ts, k ∈ room.users.keys) :
    ∃ l u d msgs w, (machine env server).Run s l u ∧
      l.map Prod.snd = acts.map (fun a ↦ .receive c (.ownerAction a)) ∧
      u.rooms = ⟨s.rooms.rooms.insert r (toggleSome ts room), s.rooms.connected, w⟩ ∧
      Change env room.mode (room.sessionsWhere fun l ↦ l.host ∈ ts) ∅ d msgs s.rooms.world w := by
  induction hacts generalizing s room with
  | nil =>
      have hnone : room.sessionsWhere (fun l ↦ l.host ∈ ([] : List XID)) = ∅ :=
        Room.sessionsWhere_of_forall fun _ _ _ ↦ List.not_mem_nil
      refine ⟨[], s, 0, [], s.rooms.world, .nil, rfl, ?_, ?_⟩
      · rw [toggleSome_nil, GoMap.insert_of_lookup hin.lookup]
      · rw [hnone]
        exact Change.refl env room.mode s.rooms.world
  | @cons a k acts ts ha _ ih =>
      rw [List.nodup_cons] at hts
      obtain ⟨t, hstep, d, msgs, w, hrooms, hchange⟩ := step_toggle server hwf hc hin
        howner ha.1 ha.2 (hmem k List.mem_cons_self)
      have hin' : t.rooms.In c.id r ((RoomOp.toggle k).apply room) := by
        rw [hrooms]
        exact ⟨hin.connected, hin.ne_empty, GoMap.lookup_insert_self _ _ _⟩
      have howner' : ((RoomOp.toggle k).apply room).OwnedBy c.id := RoomOp.ownedBy_apply howner
      have hmem' : ∀ k' ∈ ts, k' ∈ ((RoomOp.toggle k).apply room).users.keys :=
        fun k' hk' ↦ RoomOp.mem_keys_apply (hmem k' (List.mem_cons_of_mem _ hk'))
      obtain ⟨l, u, d', msgs', w', hrun, hl, hu, hchange'⟩ :=
        ih hts.2 (hwf.step hstep) (step_clients hstep hc) hin' howner' hmem'
      rw [hrooms] at hu hchange'
      refine ⟨_, u, d + d', msgs ++ msgs', w', .cons hstep hrun, ?_, ?_, ?_⟩
      · rw [List.map_cons, hl, List.map_cons]
      · rw [hu, GoMap.insert_insert, toggleSome_cons hts.1]
      · have hall := hchange.trans hchange' (Finset.disjoint_empty_left _)
        have hdead : room.sessionsWhere (RoomOp.toggle k).Ends ∪
            ((RoomOp.toggle k).apply room).sessionsWhere (fun l ↦ l.host ∈ ts) =
            room.sessionsWhere fun l ↦ l.host ∈ k :: ts := by
          refine (Room.sessionsWhere_endSessions _ _).trans (Room.sessionsWhere_congr ?_)
          intro id l _
          simp only [RoomOp.Ends, List.mem_cons]
        rwa [hdead, Finset.union_empty] at hall

/-- An owner that no longer finds its room is turned away, and nothing happens to any room. -/
theorem step_astray (server : Turn.Server) (hwf : s.WF env) (hc : c ∈ s.clients)
    (hout : s.rooms.connected.lookup c.id = some "" ∨ c.id ∉ s.rooms.connected.keys)
    (a : OwnerAction) :
    ∃ t, (machine env server).step s (.receive c (.ownerAction a)) t ∧
      SameRooms t.rooms s.rooms ∧ c.id ∉ t.rooms.connected.keys := by
  obtain ⟨t, hstep⟩ := step_of_enabled server hwf
    (show s.Enabled (.receive c (.ownerAction a)) from ⟨hc, rfl⟩)
  refine ⟨t, hstep, ?_⟩
  by_cases hconn : c.id ∈ s.rooms.connected.keys
  · have hout := hout.resolve_right (not_not.mpr hconn)
    have hrun : (Event.ownerAction a).execute env s.rooms c = .error "not in a room" s.rooms := by
      simp only [Event.execute, OwnerAction.execute, currentRoom, hout, if_true]
    rw [step_of_error hstep hconn hrun, executeNoError_nowhere hout]
    refine ⟨⟨rfl, fun _ ↦ rfl⟩, ?_⟩
    rw [GoMap.keys_erase]
    exact Finset.notMem_erase _ _
  · rw [step_of_start hstep (start_ignores hconn _)]
    exact ⟨⟨rfl, fun _ ↦ rfl⟩, hconn⟩

theorem run_astray (server : Turn.Server) (acts : List OwnerAction) (hwf : s.WF env)
    (hc : c ∈ s.clients)
    (hout : s.rooms.connected.lookup c.id = some "" ∨ c.id ∉ s.rooms.connected.keys) :
    ∃ l u, (machine env server).Run s l u ∧
      l.map Prod.snd = acts.map (fun a ↦ .receive c (.ownerAction a)) ∧
      SameRooms u.rooms s.rooms := by
  induction acts generalizing s with
  | nil => exact ⟨[], s, .nil, rfl, rfl, fun _ ↦ rfl⟩
  | cons a acts ih =>
      obtain ⟨t, hstep, hsame, hgone⟩ := step_astray server hwf hc hout a
      obtain ⟨l, u, hrun, hl, hsame'⟩ :=
        ih (hwf.step hstep) (step_clients hstep hc) (Or.inr hgone)
      refine ⟨_, u, .cons hstep hrun, ?_, hsame'.rooms.trans hsame.rooms,
        fun name ↦ (hsame'.lookup name).trans (hsame.lookup name)⟩
      rw [List.map_cons, hl, List.map_cons]

end Step

/-! ## Both ways -/

section Agreement

variable {s : System XID} {c : ClientInfo XID} {r : String} {room : Room XID}

theorem batch_agrees_in (hwf : s.WF env) (hc : c ∈ s.clients) (hin : s.rooms.In c.id r room)
    (howner : room.OwnedBy c.id) (b : Bool) : BatchAgrees env server s c r room b := by
  have hsound := hwf.rooms.sound r room hin.lookup
  refine ⟨?_, ?_, ?_⟩
  · intro batch ts acts ha hnodup hts hacts
    obtain ⟨t, hstep, d, msgs, w, hrooms, hchange⟩ :=
      step_batch server hwf hc hin howner ha
    have hmem : ∀ k ∈ ts, k ∈ room.users.keys := by
      intro k hk
      obtain ⟨-, u, hu, -⟩ := (hts k).mp hk
      exact GoMap.mem_keys_of_lookup hu
    obtain ⟨l, u, d', msgs', w', hrun, hl, hu, hchange'⟩ :=
      run_toggles server hacts hnodup hwf hc hin howner hmem
    obtain ⟨hroom, hdead⟩ := toggleSome_eq_batch hsound b hts
    rw [hroom] at hu
    rw [hdead] at hchange'
    refine ⟨t, l, u, hstep, hrun, hl, ?_⟩
    rw [hrooms, hu]
    exact ⟨rfl, hchange.entry_unique hchange'⟩
  · intro batch batch' ha ha'
    obtain ⟨t, hstep, d, msgs, w, hrooms, hchange⟩ :=
      step_batch server hwf hc hin howner ha
    have hin' : t.rooms.In c.id r ((batchOp c.id b).apply room) := by
      rw [hrooms]
      exact ⟨hin.connected, hin.ne_empty, GoMap.lookup_insert_self _ _ _⟩
    have howner' : ((batchOp c.id b).apply room).OwnedBy c.id := RoomOp.ownedBy_apply howner
    obtain ⟨u, hstep', d', msgs', w', hrooms', hchange'⟩ := step_batch server
      (hwf.step hstep) (step_clients hstep hc) hin' howner' ha'
    obtain ⟨hroom, hdead⟩ := batch_batch (o := c.id) room b
    rw [hdead] at hchange'
    refine ⟨t, u, hstep, hstep', ?_⟩
    rw [hrooms', hroom]
    refine ⟨?_, fun name ↦ hchange'.kept name (by simp)⟩
    rw [hrooms, GoMap.insert_insert]
  · intro batch t ha hstep
    obtain ⟨t', hstep', d, msgs, w, hrooms, -⟩ :=
      step_batch server hwf hc hin howner ha
    obtain rfl := machine_deterministic hstep hstep'
    obtain ⟨hrecord, hhosted⟩ := batch_owner (o := c.id) room b
    refine ⟨_, ?_, hrecord, hhosted⟩
    rw [hrooms, GoMap.lookup_insert_self]

theorem batch_agrees (h : (machine env server).Reachable s) (hc : c ∈ s.clients)
    (hconn : s.rooms.connected.lookup c.id = some r) (hroom : s.rooms.rooms.lookup r = some room)
    (howner : room.OwnedBy c.id) (b : Bool) : BatchAgrees env server s c r room b := by
  have hwf := reachable_wf h
  by_cases hr : r = ""
  · -- the owner cannot find its room
    have hout := Or.inl (b := c.id ∉ s.rooms.connected.keys) (hr ▸ hconn)
    refine ⟨?_, ?_, ?_⟩
    · intro batch ts acts _ _ _ _
      obtain ⟨t, hstep, hsame, -⟩ := step_astray server hwf hc hout batch
      obtain ⟨l, u, hrun, hl, hsame'⟩ := run_astray server acts hwf hc hout
      exact ⟨t, l, u, hstep, hrun, hl, hsame.rooms.trans hsame'.rooms.symm,
        fun name ↦ (hsame.lookup name).trans (hsame'.lookup name).symm⟩
    · intro batch batch' _ _
      obtain ⟨t, hstep, -, hgone⟩ := step_astray server hwf hc hout batch
      obtain ⟨u, hstep', hsame, -⟩ := step_astray server (hwf.step hstep)
        (step_clients hstep hc) (Or.inr hgone) batch'
      exact ⟨t, u, hstep, hstep', hsame⟩
    · intro batch t _ hstep
      obtain ⟨t', hstep', hsame, -⟩ := step_astray server hwf hc hout batch
      obtain rfl := machine_deterministic hstep hstep'
      exact ⟨room, hsame.rooms ▸ hroom, rfl, fun _ _ _ ↦ Iff.rfl⟩
  · exact batch_agrees_in hwf hc ⟨hconn, hr, hroom⟩ howner b

end Agreement

/-- The first client may toggle the second, which watches its screen. -/
theorem batch_agrees_screening : ∃ room, (System.after (Env.sample authModeNone)
    (.internal ⟨∅⟩) (screening "turn")).rooms.rooms.lookup "lobby" = some room ∧
    BatchAgrees (Env.sample authModeNone) (.internal ⟨∅⟩) (System.after (Env.sample authModeNone)
      (.internal ⟨∅⟩) (screening "turn")) (guest 0) "lobby" room true := by
  have hlobby : ((System.after (Env.sample authModeNone) (.internal ⟨∅⟩)
      (screening "turn")).rooms.rooms.lookup "lobby").any fun room ↦
      (room.users.lookup 0).any fun u ↦ u.owner := by
    decide +kernel
  obtain ⟨room, hroom, howner⟩ := (Option.any_eq_true _ _).mp hlobby
  exact ⟨room, hroom, batch_agrees (System.reachable_after _ _ _) (by decide +kernel)
    (by decide +kernel) hroom (Room.ownedBy_iff_any.mpr howner) true⟩

end Screego
