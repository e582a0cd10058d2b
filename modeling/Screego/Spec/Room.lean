import Screego.Spec.Session

/-!
# Rooms as values

What the methods of a room come to, with the loops read as operations on the
whole user and session maps, and what a member is told about the room.
-/

namespace Screego

open Outgoing World

variable {XID : Type} [DecidableEq XID] {env : Env XID}

/-- `c` is one of the ends of the session. -/
def Touches (c : XID) (s : RoomSession XID) : Prop := s.host = c ∨ s.client = c

instance (c : XID) : DecidablePred (Touches c) := fun s ↦ by
  unfold Touches
  infer_instance

namespace Room

/-! ## Operations -/

/-- The sessions for which `p` holds. -/
def sessionsWhere (p : RoomSession XID → Prop) [DecidablePred p] (room : Room XID) : Finset XID :=
  (room.sessions.filter fun _ s ↦ p s).keys

/-- End the sessions for which `p` holds. -/
def endSessions (p : RoomSession XID → Prop) [DecidablePred p] (room : Room XID) : Room XID :=
  { room with sessions := room.sessions.filter fun _ s ↦ ¬ p s }

def mapUsers (f : XID → User XID → User XID) (room : Room XID) : Room XID :=
  { room with users := room.users.mapVals f }

/-- Take a member out together with its sessions. -/
def remove (t : XID) (room : Room XID) : Room XID :=
  { room with users := room.users.erase t }.endSessions (Touches t)

/-- Make a member the owner. -/
def promote (t : XID) (room : Room XID) : Room XID :=
  room.mapUsers fun k u ↦ if k = t then { u with owner := true } else u

/-- Put a member on the air. -/
def startStream (t : XID) (room : Room XID) : Room XID :=
  room.mapUsers fun k u ↦ if k = t then { u with streaming := true } else u

def enter (user : User XID) (room : Room XID) : Room XID :=
  { room with users := room.users.insert user.id user }

def openSessions (os : List (OpenedSession XID)) (room : Room XID) : Room XID :=
  { room with sessions := room.sessions.insertAll (os.map OpenedSession.entry) }

/-- Put an address on the ban list. -/
def banAddr (addr : IP) (room : Room XID) : Room XID :=
  { room with bannedIPs := room.bannedIPs.insert addr.toString true }

@[simp] theorem mem_sessionsWhere {p : RoomSession XID → Prop} [DecidablePred p] {room : Room XID}
    {id : XID} : id ∈ room.sessionsWhere p ↔ ∃ s, room.sessions.lookup id = some s ∧ p s := by
  simp [sessionsWhere]

@[simp] theorem endSessions_lookup {p : RoomSession XID → Prop} [DecidablePred p]
    {room : Room XID} {id : XID} {s : RoomSession XID} :
    (room.endSessions p).sessions.lookup id = some s ↔
      room.sessions.lookup id = some s ∧ ¬ p s := by
  simp [endSessions]

@[simp] theorem endSessions_users {p : RoomSession XID → Prop} [DecidablePred p]
    {room : Room XID} : (room.endSessions p).users = room.users := by
  simp only [endSessions]

theorem endSessions_of_forall {p : RoomSession XID → Prop} [DecidablePred p] {room : Room XID}
    (h : ∀ id s, room.sessions.lookup id = some s → ¬ p s) : room.endSessions p = room := by
  have hsessions : room.sessions.filter (fun _ s ↦ ¬ p s) = room.sessions :=
    GoMap.filter_of_forall h
  simp only [endSessions, hsessions]

@[simp] theorem mapUsers_lookup {f : XID → User XID → User XID} {room : Room XID} {k : XID}
    {u : User XID} : (room.mapUsers f).users.lookup k = some u ↔
      ∃ v, room.users.lookup k = some v ∧ f k v = u := by
  simp [mapUsers]

@[simp] theorem remove_lookup {t k : XID} {room : Room XID} {u : User XID} :
    (room.remove t).users.lookup k = some u ↔ k ≠ t ∧ room.users.lookup k = some u := by
  simp [remove, endSessions, GoMap.lookup_erase]

@[simp] theorem remove_sessions_lookup {t id : XID} {room : Room XID} {s : RoomSession XID} :
    (room.remove t).sessions.lookup id = some s ↔
      room.sessions.lookup id = some s ∧ ¬ Touches t s := by
  simp [remove]

theorem enter_lookup {user : User XID} {room : Room XID} {k : XID} {u : User XID} :
    (room.enter user).users.lookup k = some u ↔
      (k = user.id ∧ u = user) ∨ (k ≠ user.id ∧ room.users.lookup k = some u) := by
  rw [enter, GoMap.lookup_insert]
  by_cases h : k = user.id <;> simp [h, eq_comm]

@[simp] theorem openSessions_users {os : List (OpenedSession XID)} {room : Room XID} :
    (room.openSessions os).users = room.users := by
  simp only [openSessions]

theorem openSessions_lookup {os : List (OpenedSession XID)} {room : Room XID} {id : XID}
    {s : RoomSession XID} (hos : (os.map OpenedSession.id).Nodup) :
    (room.openSessions os).sessions.lookup id = some s ↔
      (∃ o ∈ os, o.id = id ∧ o.session = s) ∨
        ((∀ o ∈ os, o.id ≠ id) ∧ room.sessions.lookup id = some s) := by
  have hfst : (os.map OpenedSession.entry).map Prod.fst = os.map OpenedSession.id := by
    rw [List.map_map]
    rfl
  rw [openSessions, GoMap.lookup_insertAll_eq_some (hfst ▸ hos), hfst]
  simp [OpenedSession.entry]

theorem modifyUser_eq (room : Room XID) (k : XID) (f : User XID → User XID) :
    room.modifyUser k f = room.mapUsers fun k' u ↦ if k' = k then f u else u := by
  rw [modifyUser, mapUsers, GoMap.modify_eq_mapVals]

theorem mapUsers_mapUsers (f g : XID → User XID → User XID) (room : Room XID) :
    (room.mapUsers f).mapUsers g = room.mapUsers fun k u ↦ g k (f k u) := by
  have husers : (room.users.mapVals f).mapVals g = room.users.mapVals fun k u ↦ g k (f k u) := by
    apply GoMap.ext
    intro k
    cases h : room.users.lookup k <;> simp [h]
  simp only [mapUsers, husers]

theorem mapUsers_self {f : XID → User XID → User XID} {room : Room XID}
    (h : ∀ k u, room.users.lookup k = some u → f k u = u) : room.mapUsers f = room := by
  have husers : room.users.mapVals f = room.users := by
    apply GoMap.ext
    intro k
    cases hk : room.users.lookup k with
    | none => simp [hk]
    | some u => simp [hk, h k u hk]
  simp only [mapUsers, husers]

/-! ## The member list -/

/-- Users are stored under their own id and written to on their own channel. -/
def Keyed (room : Room XID) : Prop :=
  ∀ k u, room.users.lookup k = some u → u.id = k ∧ u.write = k

/-- The line about the member `k` in the list for the member `current`. -/
def line (current k : XID) (u : User XID) : Outgoing.User XID :=
  { id := u.id, name := u.name, streaming := u.streaming, you := current = k, owner := u.owner,
    canShare := u.canShare }

/-- The list shown to `current` has exactly one line for each member, and no line stands before
one that the order puts first. -/
structure Shows (room : Room XID) (current : XID) (users : List (Outgoing.User XID)) : Prop where
  nodup : (users.map Outgoing.User.id).Nodup
  mem_iff : ∀ v, v ∈ users ↔ ∃ k u, room.users.lookup k = some u ∧ v = line current k u
  sorted : users.Pairwise fun a b ↦ ¬ b.less a

/-- The messages tell every member once what the room looks like, and nobody else anything. -/
def Announces (room : Room XID) (msgs : List (XID × Message XID)) : Prop :=
  ∃ (ks : List XID) (view : XID → List (Outgoing.User XID)), ks.Nodup ∧
    (∀ k, k ∈ ks ↔ k ∈ room.users.keys) ∧ (∀ k ∈ ks, room.Shows k (view k)) ∧
    msgs = ks.map fun k ↦ (k, .room room.id "" (view k))

theorem Announces.congr {room room' : Room XID} {msgs : List (XID × Message XID)}
    (h : room.Announces msgs) (hid : room'.id = room.id) (husers : room'.users = room.users) :
    room'.Announces msgs := by
  obtain ⟨ks, view, hnodup, hks, hview, rfl⟩ := h
  refine ⟨ks, view, hnodup, ?_, ?_, ?_⟩
  · intro k
    rw [husers, hks]
  · intro k hk
    obtain ⟨hids, hmem, hsorted⟩ := hview k hk
    refine ⟨hids, ?_, hsorted⟩
    rw [husers]
    exact hmem
  · rw [hid]

/-- A room is only announced to its members, by a list of them. -/
theorem Announces.eq_room {room : Room XID} {msgs : List (XID × Message XID)}
    (h : room.Announces msgs) {k : XID} {m : Message XID} (hm : (k, m) ∈ msgs) :
    k ∈ room.users.keys ∧ ∃ view, m = .room room.id "" view ∧ room.Shows k view := by
  obtain ⟨ks, view, -, hks, hview, rfl⟩ := h
  obtain ⟨k', hk', heq⟩ := List.mem_map.mp hm
  obtain ⟨rfl, rfl⟩ := Prod.mk.inj heq
  exact ⟨(hks k').mp hk', view k', rfl, hview k' hk'⟩

theorem Announces.ofKind {room : Room XID} {msgs : List (XID × Message XID)}
    (h : room.Announces msgs) : OfKind .view msgs := by
  intro k m hm
  obtain ⟨-, view, rfl, -⟩ := h.eq_room hm
  rfl

omit [DecidableEq XID] in
theorem less_iff {a b : Outgoing.User XID} : a.less b ↔
    (a.owner ∧ ¬ b.owner) ∨ (a.owner = b.owner ∧
      ((a.streaming ∧ ¬ b.streaming) ∨ (a.streaming = b.streaming ∧ a.name < b.name))) := by
  unfold Outgoing.User.less
  cases a.owner <;> cases b.owner <;> cases a.streaming <;> cases b.streaming <;>
    simp [-String.lt_iff_ltb]

omit [DecidableEq XID] in
theorem not_less_total (a b : Outgoing.User XID) : ¬ b.less a ∨ ¬ a.less b := by
  rw [less_iff, less_iff]
  have hname := le_total a.name b.name
  revert hname
  cases a.owner <;> cases b.owner <;> cases a.streaming <;> cases b.streaming <;>
    simp [-String.lt_iff_ltb]

omit [DecidableEq XID] in
theorem not_less_trans {a b c : Outgoing.User XID} (hba : ¬ b.less a) (hcb : ¬ c.less b) :
    ¬ c.less a := by
  rw [less_iff] at hba hcb ⊢
  have hname : a.name ≤ b.name → b.name ≤ c.name → a.name ≤ c.name := le_trans
  revert hba hcb hname
  cases a.owner <;> cases b.owner <;> cases c.owner <;> cases a.streaming <;>
    cases b.streaming <;> cases c.streaming <;> simp [-String.lt_iff_ltb] <;> tauto

theorem shows_userList {room : Room XID} (hkeyed : room.Keyed) (o : RangeOrder XID)
    (current : XID) : room.Shows current (userList o room current) := by
  have hperm : (userList o room current).Perm
      ((o.visit room.users.keys).filterMap fun k ↦ (room.users.lookup k).map (line current k)) :=
    List.perm_insertionSort _ _
  have : Std.Total fun a b : Outgoing.User XID ↦ ¬ b.less a := ⟨not_less_total⟩
  have : IsTrans (Outgoing.User XID) fun a b ↦ ¬ b.less a := ⟨fun _ _ _ ↦ not_less_trans⟩
  refine ⟨?_, ?_, List.pairwise_insertionSort _ _⟩
  · rw [(hperm.map Outgoing.User.id).nodup_iff, List.map_filterMap]
    refine List.Nodup.filterMap ?_ (o.nodup_visit _)
    intro k k' v hv hv'
    simp only [Option.map_map, Option.mem_def, Option.map_eq_some_iff,
      Function.comp_apply] at hv hv'
    obtain ⟨u, hu, rfl⟩ := hv
    obtain ⟨u', hu', hid⟩ := hv'
    rw [← (hkeyed k u hu).1, ← (hkeyed k' u' hu').1]
    exact hid.symm
  · intro v
    rw [hperm.mem_iff, List.mem_filterMap]
    constructor
    · rintro ⟨k, -, hv⟩
      obtain ⟨u, hu, rfl⟩ := Option.map_eq_some_iff.mp hv
      exact ⟨k, u, hu, rfl⟩
    · rintro ⟨k, u, hu, rfl⟩
      exact ⟨k, by simp [hu], by simp [hu]⟩

/-- The loop of `notifyInfoChanged` over any list of members shows the room to each of them. -/
theorem foldl_notify (env : Env XID) {room : Room XID} (hkeyed : room.Keyed) (mode : ConnectionMode)
    {ks : List XID} (hks : ks.Nodup) (hmem : ∀ k ∈ ks, k ∈ room.users.keys) (w : World XID) :
    ∃ view : XID → List (Outgoing.User XID), (∀ k ∈ ks, room.Shows k (view k)) ∧
      Change env mode ∅ ∅ 0 (ks.map fun k ↦ (k, .room room.id "" (view k))) w
        (ks.foldl (fun w k ↦ match room.users.lookup k with
          | none => w
          | some current => current.writeTimeout
              (.room room.id "" (room.userList (env.range w.tick) k)) (w.draw 1)) w) := by
  induction ks generalizing w with
  | nil => exact ⟨fun _ ↦ [], by simp, Change.refl env mode w⟩
  | cons k ks ih =>
      rw [List.nodup_cons] at hks
      obtain ⟨u, hu⟩ := GoMap.mem_keys.mp (hmem k List.mem_cons_self)
      have hwrite := (hkeyed k u hu).2
      set users := room.userList (env.range w.tick) k with husers
      have hfirst : Change env mode ∅ ∅ 0 [(k, .room room.id "" users)] w
          (u.writeTimeout (.room room.id "" users) (w.draw 1)) := by
        rw [User.writeTimeout, hwrite]
        simpa using (change_draw env mode 1 w).before
          (change_writeTimeout env mode k (.room room.id "" users) (w.draw 1))
      obtain ⟨view, hview, hchange⟩ := ih hks.2 (fun k' hk' ↦ hmem k' (List.mem_cons_of_mem _ hk'))
        (u.writeTimeout (.room room.id "" users) (w.draw 1))
      refine ⟨Function.update view k users, ?_, ?_⟩
      · intro k' hk'
        by_cases heq : k' = k
        · rw [heq, Function.update_self]
          exact shows_userList hkeyed _ k
        · rw [Function.update_of_ne heq]
          exact hview k' ((List.mem_cons.mp hk').resolve_left heq)
      · have htail : (ks.map fun k' ↦ ((k', .room room.id ""
            (Function.update view k users k')) : XID × Message XID)) =
            ks.map fun k' ↦ (k', .room room.id "" (view k')) := by
          apply List.map_congr_left
          intro k' hk'
          have hne : k' ≠ k := fun heq ↦ hks.1 (heq ▸ hk')
          rw [Function.update_of_ne hne]
        rw [List.foldl_cons, List.map_cons, htail, Function.update_self]
        simp only [hu]
        simpa using hfirst.before hchange

theorem notifyInfoChanged_spec (env : Env XID) {room : Room XID} (hkeyed : room.Keyed)
    (mode : ConnectionMode) (w : World XID) : ∃ msgs, room.Announces msgs ∧
      Change env mode ∅ ∅ 0 msgs w (room.notifyInfoChanged env w) := by
  have hnodup := (env.range w.tick).nodup_visit room.users.keys
  obtain ⟨view, hview, hchange⟩ := foldl_notify env hkeyed mode hnodup
    (fun k hk ↦ (RangeOrder.mem_visit _).mp hk) (w.draw 1)
  refine ⟨_, ⟨_, view, hnodup, fun k ↦ RangeOrder.mem_visit _, ?_, rfl⟩, ?_⟩
  · exact hview
  · have hall := (change_draw env mode 1 w).before hchange
    rw [add_zero, List.nil_append] at hall
    exact hall

/-! ## Loops over the room -/

/-- The messages say `notices` of each session for which `p` holds, in some order. -/
def Ended (p : RoomSession XID → Prop) [DecidablePred p] (notices : Notices XID) (room : Room XID)
    (msgs : List (XID × Message XID)) : Prop :=
  ∃ ids : List XID, ids.Nodup ∧ (∀ id, id ∈ ids ↔ id ∈ room.sessions.keys) ∧
    msgs = ids.flatMap (endNotice p notices room.sessions)

theorem Ended.mem {p : RoomSession XID → Prop} [DecidablePred p] {notices : Notices XID}
    {room : Room XID} {msgs : List (XID × Message XID)} (h : room.Ended p notices msgs)
    {k : XID} {m : Message XID} (hm : (k, m) ∈ msgs) :
    ∃ id s, room.sessions.lookup id = some s ∧ p s ∧ (k, m) ∈ notices id s := by
  obtain ⟨ids, -, -, rfl⟩ := h
  obtain ⟨id, -, hm⟩ := List.mem_flatMap.mp hm
  unfold endNotice at hm
  split at hm
  · next s hs =>
      split at hm
      · next hp => exact ⟨id, s, hs, hp, hm⟩
      · cases hm
  · cases hm

/-- A `range` over the sessions visits each key once and skips what is not there any more. -/
theorem rangeSessions_eq (env : Env XID)
    (body : XID → RoomSession XID → Room XID × World XID → Room XID × World XID) (room : Room XID)
    (w : World XID) :
    ∃ visit : Room XID × World XID → XID → Room XID × World XID,
      rangeSessions env body (room, w) =
        ((env.range w.tick).visit room.sessions.keys).foldl visit (room, w.draw 1) ∧
      (∀ r w id, r.sessions.lookup id = none → visit (r, w) id = (r, w)) ∧
      ∀ r w id s, r.sessions.lookup id = some s → visit (r, w) id = body id s (r, w) :=
  ⟨_, rfl, fun r w id h ↦ by simp only [h], fun r w id s h ↦ by simp only [h]⟩

/-- A `range` over the sessions that closes those meeting `p`, telling `notices` of each. -/
theorem rangeSessions_close (env : Env XID) (room : Room XID) (p : RoomSession XID → Prop)
    [DecidablePred p] (notices : Notices XID)
    (body : XID → RoomSession XID → Room XID × World XID → Room XID × World XID)
    (hbody : ∀ r w id s, r.users = room.users → r.mode = room.mode →
      room.sessions.lookup id = some s → body id s (r, w) =
        if p s then Room.closeSession env id (r, w.send (notices id s)) else (r, w))
    (w : World XID) :
    ∃ (msgs : List (XID × Message XID)) (w' : World XID), room.Ended p notices msgs ∧
      rangeSessions env body (room, w) = (room.endSessions p, w') ∧
      Change env room.mode (room.sessionsWhere p) ∅
        { sessionClosed := (room.sessionsWhere p).card } msgs w w' := by
  set ids := (env.range w.tick).visit room.sessions.keys with hids
  have hmem : ∀ id, id ∈ ids ↔ id ∈ room.sessions.keys := fun id ↦ RangeOrder.mem_visit _
  obtain ⟨visit, hrange, hnone, hsome⟩ := rangeSessions_eq env body room w
  obtain ⟨w', hfold, hchange⟩ := foldl_closeSession env notices
    visit hnone
    (fun r w id s hu hm h hroom ↦ (hsome r w id s h).trans (hbody r w id s hu hm hroom))
    ids ((env.range w.tick).nodup_visit _) room rfl rfl (fun _ _ h ↦ h) (w.draw 1)
  -- every session is visited
  have hending : ending p room.sessions ids = room.sessionsWhere p := by
    ext id
    rw [mem_ending, mem_sessionsWhere]
    constructor
    · rintro ⟨s, hs, -, hp⟩
      exact ⟨s, hs, hp⟩
    · rintro ⟨s, hs, hp⟩
      exact ⟨s, hs, (hmem id).mpr (GoMap.mem_keys_of_lookup hs), hp⟩
  have hremaining : remaining p room.sessions ids = room.sessions.filter fun _ s ↦ ¬ p s := by
    apply GoMap.ext
    intro id
    cases hs : room.sessions.lookup id with
    | none => simp [remaining, GoMap.lookup_filter, hs]
    | some s =>
        have hid := (hmem id).mpr (GoMap.mem_keys_of_lookup hs)
        simp [remaining, GoMap.lookup_filter, hs, hid]
  rw [hending] at hchange
  rw [hremaining] at hfold
  refine ⟨_, w', ⟨ids, (env.range w.tick).nodup_visit _, hmem, rfl⟩, hrange.trans hfold, ?_⟩
  simpa using (change_draw env room.mode 1 w).before hchange

end Room

end Screego
