import Screego.Properties.Sharing
import Screego.Spec.Meeting
import Screego.Spec.Serving

/-!
# The server keeps meetings

A room realizes a meeting: the same members, owner and permissions, the one on
the air as the one who shares, and a session for everyone who watches it.  The
main loop does one deed at a time, on behalf of the client that it serves, and
the deed is what the message of the client asks for.
-/

namespace Screego

open Outgoing World Rooms

variable {XID : Type} [DecidableEq XID] {env : Env XID} {server : Turn.Server}

structure Room.Realizes (room : Room XID) (m : Meeting XID) : Prop where
  members : room.users.keys = m.members
  owner : room.OwnedBy m.owner
  forbidden : ∀ k, k ∈ m.forbidden ↔ ∃ u, room.users.lookup k = some u ∧ ¬ u.canShare
  sharer : ∀ k, m.sharer = some k ↔ ∃ u, room.users.lookup k = some u ∧ u.streaming
  streams : ∀ host client, m.Streams host client ↔
    ∃ id, room.sessions.lookup id = some ⟨host, client⟩

namespace Room

variable {room room' : Room XID} {m : Meeting XID} {r : String} {c : ClientInfo XID}
  {w : World XID}

theorem Realizes.owner_eq (h : room.Realizes m) (hsound : room.Sound r) {k : XID}
    (hk : room.OwnedBy k) : k = m.owner :=
  hsound.owner_unique k m.owner hk h.owner

theorem realizes_create (e : Create) (c : ClientInfo XID) (name : String) (createdAt : ℤ) :
    (e.room c name createdAt).Realizes (.found c.id) where
  members := GoMap.keys_insert ∅ c.id (c.newUser name true)
  owner := ⟨c.newUser name true, GoMap.lookup_insert_self ∅ c.id _, rfl⟩
  forbidden k := by
    refine iff_of_false (Finset.notMem_empty k) ?_
    rintro ⟨u, hu, hcan⟩
    obtain ⟨-, rfl⟩ := create_lookup hu
    exact hcan rfl
  sharer k := by
    refine iff_of_false nofun ?_
    rintro ⟨u, hu, hs⟩
    obtain ⟨-, rfl⟩ := create_lookup hu
    cases hs
  streams host client := by
    refine iff_of_false (fun h ↦ nomatch h.1) ?_
    rintro ⟨id, hid⟩
    rw [Create.room, GoMap.lookup_empty] at hid
    cases hid

omit [DecidableEq XID] in
theorem Opened.exists_iff {links : RoomSession XID → Prop} {os : List (OpenedSession XID)}
    (h : room.Opened env w links os) (l : RoomSession XID) :
    (∃ id, ∃ o ∈ os, o.id = id ∧ o.session = l) ↔ links l := by
  rw [← h.mem_iff, List.mem_map]
  constructor
  · rintro ⟨_, o, ho, -, hsession⟩
    exact ⟨o, ho, hsession⟩
  · rintro ⟨o, ho, hsession⟩
    exact ⟨o.id, o, ho, rfl, hsession⟩

theorem Realizes.enter (h : room.Realizes m) (hfresh : c.id ∉ room.users.keys) {name : String}
    {os : List (OpenedSession XID)}
    (hos : room.Opened env w (fun l ↦ l.client = c.id ∧ l.host ≠ c.id ∧
      ∃ u, room.users.lookup l.host = some u ∧ u.streaming) os)
    (hnew : ∀ o ∈ os, o.id ∉ room.sessions.keys) :
    ((room.enter (c.newUser name false)).openSessions os).Realizes (m.enter c.id) := by
  have hlookup : ∀ k u, (room.enter (c.newUser name false)).users.lookup k = some u ↔
      (k = c.id ∧ u = c.newUser name false) ∨ room.users.lookup k = some u := by
    intro k u
    rw [enter_lookup]
    refine or_congr Iff.rfl (and_iff_right_of_imp ?_)
    rintro hu rfl
    exact hfresh (GoMap.mem_keys_of_lookup hu)
  have hsharer : ∀ k, m.sharer = some k ↔ ∃ u,
      (room.enter (c.newUser name false)).users.lookup k = some u ∧ u.streaming := by
    intro k
    rw [h.sharer]
    refine exists_congr fun u ↦ and_congr_left fun hs ↦ ?_
    rw [hlookup]
    refine (or_iff_right ?_).symm
    rintro ⟨-, rfl⟩
    cases hs
  refine ⟨?_, ?_, ?_, hsharer, ?_⟩
  · ext k
    rw [openSessions_users, enter_keys, h.members, Meeting.enter, Finset.mem_insert]
  · obtain ⟨u, hu, howner⟩ := h.owner
    exact ⟨u, (hlookup _ u).mpr (Or.inr hu), howner⟩
  · intro k
    rw [openSessions_users]
    refine (h.forbidden k).trans (exists_congr fun u ↦ and_congr_left fun hcan ↦ ?_)
    rw [hlookup]
    refine (or_iff_right ?_).symm
    rintro ⟨-, rfl⟩
    exact hcan rfl
  · intro host client
    simp only [openSessions_lookup_iff (room.enter _) hos.nodup_ids hnew]
    have hold : (∃ id, (room.enter (c.newUser name false)).sessions.lookup id =
        some ⟨host, client⟩) ↔ m.Streams host client := (h.streams host client).symm
    rw [exists_or, hold, hos.exists_iff, ← h.sharer]
    constructor
    · rintro ⟨hs, hmem, hne⟩
      rcases Finset.mem_insert.mp hmem with rfl | hmem
      · exact Or.inr ⟨rfl, hne.symm, hs⟩
      · exact Or.inl ⟨hs, hmem, hne⟩
    · rintro (⟨hs, hmem, hne⟩ | ⟨rfl, hne, hs⟩)
      · exact ⟨hs, Finset.mem_insert_of_mem hmem, hne⟩
      · exact ⟨hs, Finset.mem_insert_self _ _, hne.symm⟩

theorem Realizes.forbidden_iff (h : room.Realizes m) {k : XID} {u : User XID}
    (hu : room.users.lookup k = some u) : k ∈ m.forbidden ↔ ¬ u.canShare := by
  rw [h.forbidden, hu]
  simp

theorem Realizes.sharer_iff (h : room.Realizes m) {k : XID} {u : User XID}
    (hu : room.users.lookup k = some u) : m.sharer = some k ↔ u.streaming := by
  rw [h.sharer, hu]
  simp

theorem Realizes.share (h : room.Realizes m) {k : XID} {u : User XID}
    (huser : room.users.lookup k = some u)
    (hfree : ∀ j v, room.users.lookup j = some v → v.streaming → j = k)
    {os : List (OpenedSession XID)}
    (hos : room.Opened env w (fun l ↦ l.host = k ∧ l.client ≠ k ∧
      l.client ∈ room.users.keys) os)
    (hnew : ∀ o ∈ os, o.id ∉ room.sessions.keys) (hmem : k ∈ m.members)
    (hallowed : k ∉ m.forbidden) :
    ((room.startStream k).openSessions os).Realizes (m.share k hmem hallowed) := by
  have hbusy : ∀ j, m.sharer = some j → j = k := by
    intro j hj
    obtain ⟨v, hv, hs⟩ := (h.sharer j).mp hj
    exact hfree j v hv hs
  refine ⟨?_, ?_, ?_, ?_, ?_⟩
  · rw [openSessions_users, startStream_keys, h.members]
    rfl
  · obtain ⟨v, hv, howner⟩ := h.owner
    unfold OwnedBy
    rw [openSessions_users]
    refine ⟨_, startStream_lookup.mpr ⟨v, hv, rfl⟩, ?_⟩
    split <;> exact howner
  · intro j
    rw [openSessions_users]
    refine (h.forbidden j).trans ⟨?_, ?_⟩
    · rintro ⟨v, hv, hnot⟩
      refine ⟨_, startStream_lookup.mpr ⟨v, hv, rfl⟩, ?_⟩
      split <;> exact hnot
    · rintro ⟨v', hv', hnot⟩
      obtain ⟨v, hv, rfl⟩ := startStream_lookup.mp hv'
      refine ⟨v, hv, ?_⟩
      split at hnot <;> exact hnot
  · intro j
    rw [openSessions_users]
    constructor
    · intro hj
      obtain rfl := Option.some.inj hj
      exact ⟨{ u with streaming := true }, startStream_lookup.mpr ⟨u, huser, if_pos rfl⟩, rfl⟩
    · rintro ⟨v', hv', hs⟩
      obtain ⟨v, hv, rfl⟩ := startStream_lookup.mp hv'
      split at hs
      · next hjk => exact congrArg some hjk.symm
      · exact congrArg some (hfree j v hv hs).symm
  · intro host client
    simp only [openSessions_lookup_iff (room.startStream k) hos.nodup_ids hnew]
    have hold : (∃ id, (room.startStream k).sessions.lookup id = some ⟨host, client⟩) ↔
        m.Streams host client := (h.streams host client).symm
    rw [exists_or, hold, hos.exists_iff, h.members]
    constructor
    · rintro ⟨hs, hclient, hne⟩
      obtain rfl := Option.some.inj hs
      exact Or.inr ⟨rfl, hne, hclient⟩
    · rintro (⟨hs, hclient, hne⟩ | ⟨rfl, hne, hclient⟩)
      · obtain rfl := hbusy host hs
        exact ⟨rfl, hclient, hne⟩
      · exact ⟨rfl, hclient, hne⟩

/-- An operation that changes who may share and who does. -/
theorem Realizes.update (h : room.Realizes m) (hsound : room.Sound r) (op : RoomOp XID)
    {m' : Meeting XID} (hmembers : m'.members = m.members) (howner : m'.owner = m.owner)
    (hforbidden : ∀ k u, room.users.lookup k = some u →
      (k ∈ m'.forbidden ↔ ¬ (op.update k u).canShare))
    (hsharer : ∀ k u, room.users.lookup k = some u →
      (m'.sharer = some k ↔ (op.update k u).streaming)) :
    (op.apply room).Realizes m' := by
  have hkeys : (op.apply room).users.keys = m'.members :=
    (GoMap.keys_mapVals _ _).trans (h.members.trans hmembers.symm)
  have hmem : ∀ k ∈ m'.members, ∃ u, room.users.lookup k = some u := by
    intro k hk
    rw [hmembers, ← h.members] at hk
    exact GoMap.mem_keys.mp hk
  refine ⟨hkeys, howner ▸ RoomOp.ownedBy_apply h.owner, ?_, ?_, ?_⟩
  · intro k
    constructor
    · intro hk
      obtain ⟨u, hu⟩ := hmem k (m'.forbidden_subset hk)
      exact ⟨_, RoomOp.apply_lookup.mpr ⟨u, hu, rfl⟩, (hforbidden k u hu).mp hk⟩
    · rintro ⟨u', hu', hnot⟩
      obtain ⟨u, hu, rfl⟩ := RoomOp.apply_lookup.mp hu'
      exact (hforbidden k u hu).mpr hnot
  · intro k
    constructor
    · intro hk
      obtain ⟨u, hu⟩ := hmem k (m'.sharer_mem k hk).1
      exact ⟨_, RoomOp.apply_lookup.mpr ⟨u, hu, rfl⟩, (hsharer k u hu).mp hk⟩
    · rintro ⟨u', hu', hs⟩
      obtain ⟨u, hu, rfl⟩ := RoomOp.apply_lookup.mp hu'
      exact (hsharer k u hu).mpr hs
  · intro host client
    simp only [RoomOp.apply_sessions_lookup, exists_and_right]
    rw [← h.streams]
    constructor
    · rintro ⟨hs, hclient, hne⟩
      obtain ⟨u, hu⟩ := hmem host (m'.sharer_mem host hs).1
      have hon := (hsharer host u hu).mp hs
      have hbefore := (RoomOp.update_streaming hon (hsound.permitted host u hu)).1
      refine ⟨⟨(h.sharer_iff hu).mpr hbefore, hmembers ▸ hclient, hne⟩, ?_⟩
      exact not_ends_of_streaming (l := ⟨host, client⟩) hon
    · rintro ⟨⟨hs, hclient, hne⟩, hends⟩
      obtain ⟨u, hu, hon⟩ := (h.sharer host).mp hs
      refine ⟨(hsharer host u hu).mpr ?_, hmembers ▸ hclient, hne⟩
      exact RoomOp.update_streaming_of_not_ends (s := ⟨host, client⟩) hends hon

theorem Realizes.rename (h : room.Realizes m) (hsound : room.Sound r) (t : XID) (name : String) :
    ((RoomOp.rename t name).apply room).Realizes m := by
  refine h.update hsound _ rfl rfl (fun k u hu ↦ ?_) fun k u hu ↦ ?_
  · rw [h.forbidden_iff hu, RoomOp.update]
    split <;> rfl
  · rw [h.sharer_iff hu, RoomOp.update]
    split <;> rfl

theorem Realizes.rest (h : room.Realizes m) (hsound : room.Sound r) (t : XID) :
    ((RoomOp.stopStream t).apply room).Realizes (m.rest t) := by
  refine h.update hsound _ rfl rfl (fun k u hu ↦ ?_) fun k u hu ↦ ?_
  · rw [Meeting.rest, h.forbidden_iff hu, RoomOp.update]
    split <;> rfl
  · rw [Meeting.rest, Option.filter_eq_some_iff, h.sharer_iff hu, RoomOp.update]
    split
    · next hkt => simp [hkt]
    · next hkt => simp [hkt]

/-- An operation of an owner that sets permissions and takes those without one off the air. -/
theorem Realizes.restrict (h : room.Realizes m) (hsound : room.Sound r) (op : RoomOp XID)
    {ks : Finset XID} (hks : ks ⊆ m.members)
    (hcan : ∀ k u, room.users.lookup k = some u → (k ∈ ks ↔ ¬ (op.update k u).canShare))
    (hstreaming : ∀ k u, room.users.lookup k = some u → (u.streaming → u.canShare) →
      ((op.update k u).streaming ↔ u.streaming ∧ (op.update k u).canShare)) :
    (op.apply room).Realizes (m.restrict ks hks) := by
  refine h.update hsound op rfl rfl hcan fun k u hu ↦ ?_
  rw [Meeting.restrict, Option.filter_eq_some_iff, h.sharer_iff hu,
    hstreaming k u hu (hsound.permitted k u hu), decide_eq_true_iff, hcan k u hu, not_not]

theorem Realizes.permitAll (h : room.Realizes m) (hsound : room.Sound r) (k : XID) :
    ((RoomOp.permitAll k).apply room).Realizes (m.permitAll k) := by
  refine h.restrict hsound _ _ (fun j u hu ↦ ?_) fun j u _ hpermitted ↦ ?_
  · rw [Finset.mem_inter, Finset.mem_singleton, h.forbidden_iff hu, RoomOp.update]
    split
    · next hne => simp [hne]
    · next heq => simp [not_not.mp heq]
  · rw [RoomOp.update]
    split
    · simp
    · exact (and_iff_left_of_imp hpermitted).symm

theorem Realizes.forbidAll (h : room.Realizes m) (hsound : room.Sound r) (k : XID) :
    ((RoomOp.forbidAll k).apply room).Realizes (m.forbidAll k) := by
  refine h.restrict hsound _ _ (fun j u hu ↦ ?_) fun j u _ hpermitted ↦ ?_
  · have hmem : j ∈ m.members := h.members ▸ GoMap.mem_keys_of_lookup hu
    rw [Finset.mem_union, Finset.mem_erase, h.forbidden_iff hu, RoomOp.update]
    split
    · next hne => simp [hne, hmem]
    · next heq => simp [not_not.mp heq]
  · rw [RoomOp.update]
    split
    · simp
    · exact (and_iff_left_of_imp hpermitted).symm

theorem Realizes.toggle (h : room.Realizes m) (hsound : room.Sound r) {t : XID}
    (ht : t ∈ m.members) : ((RoomOp.toggle t).apply room).Realizes (m.toggle t ht) := by
  refine h.restrict hsound _ _ (fun j u hu ↦ ?_) fun j u _ hpermitted ↦ ?_
  · rw [Finset.mem_symmDiff, Finset.mem_singleton, h.forbidden_iff hu, RoomOp.update]
    split
    · next heq => simp [heq]
    · next hne => simp [hne]
  · rw [RoomOp.update]
    split
    · simpa using hpermitted
    · exact (and_iff_left_of_imp hpermitted).symm

/-- Nothing comes of an operation on somebody who is not there. -/
theorem Realizes.absent (h : room.Realizes m) (hsound : room.Sound r) {t : XID}
    (ht : t ∉ m.members) {op : RoomOp XID} (hop : ∀ k u, k ≠ t → op.update k u = u) :
    (op.apply room).Realizes m := by
  have hkept : ∀ k u, room.users.lookup k = some u → op.update k u = u := by
    intro k u hu
    refine hop k u ?_
    rintro rfl
    exact ht (h.members ▸ GoMap.mem_keys_of_lookup hu)
  refine h.update hsound op rfl rfl (fun k u hu ↦ ?_) fun k u hu ↦ ?_
  · rw [hkept k u hu, h.forbidden_iff hu]
  · rw [hkept k u hu, h.sharer_iff hu]

/-- Somebody goes together with the own sessions, and `next` owns what is left. -/
theorem Realizes.leave (h : room.Realizes m) {k next : XID} (hnext : next ∈ m.members.erase k)
    (hkeys : room'.users.keys = room.users.keys.erase k)
    (hkept : ∀ j u, j ≠ k → room.users.lookup j = some u → ∃ u', room'.users.lookup j = some u' ∧
      u'.canShare = u.canShare ∧ u'.streaming = u.streaming)
    (howner : room'.OwnedBy next) (hsessions : room'.sessions = (room.remove k).sessions) :
    room'.Realizes (m.leave k next hnext) := by
  have hback : ∀ j u', room'.users.lookup j = some u' → j ≠ k ∧ ∃ u,
      room.users.lookup j = some u ∧ u'.canShare = u.canShare ∧ u'.streaming = u.streaming := by
    intro j u' hu'
    have hj := GoMap.mem_keys_of_lookup hu'
    rw [hkeys, Finset.mem_erase] at hj
    obtain ⟨u, hu⟩ := GoMap.mem_keys.mp hj.2
    obtain ⟨u'', hu'', hflags⟩ := hkept j u hj.1 hu
    obtain rfl := Option.some.inj (hu''.symm.trans hu')
    exact ⟨hj.1, u, hu, hflags⟩
  refine ⟨?_, howner, ?_, ?_, ?_⟩
  · rw [hkeys, h.members]
    rfl
  · intro j
    rw [Meeting.leave, Finset.mem_erase, h.forbidden]
    constructor
    · rintro ⟨hne, u, hu, hnot⟩
      obtain ⟨u', hu', hcan, -⟩ := hkept j u hne hu
      exact ⟨u', hu', hcan ▸ hnot⟩
    · rintro ⟨u', hu', hnot⟩
      obtain ⟨hne, u, hu, hcan, -⟩ := hback j u' hu'
      exact ⟨hne, u, hu, hcan ▸ hnot⟩
  · intro j
    rw [Meeting.leave, Option.filter_eq_some_iff, h.sharer, decide_eq_true_iff]
    constructor
    · rintro ⟨⟨u, hu, hs⟩, hne⟩
      obtain ⟨u', hu', -, hon⟩ := hkept j u hne hu
      exact ⟨u', hu', hon ▸ hs⟩
    · rintro ⟨u', hu', hs⟩
      obtain ⟨hne, u, hu, -, hon⟩ := hback j u' hu'
      exact ⟨⟨u, hu, hon ▸ hs⟩, hne⟩
  · intro host client
    rw [hsessions]
    simp only [remove_sessions_lookup, exists_and_right]
    rw [← h.streams]
    constructor
    · rintro ⟨hs, hclient, hne⟩
      obtain ⟨hs, hhost⟩ := Option.filter_eq_some_iff.mp hs
      obtain ⟨hck, hclient⟩ := Finset.mem_erase.mp hclient
      exact ⟨⟨hs, hclient, hne⟩, not_or.mpr ⟨of_decide_eq_true hhost, hck⟩⟩
    · rintro ⟨⟨hs, hclient, hne⟩, htouch⟩
      obtain ⟨hhost, hck⟩ := not_or.mp htouch
      refine ⟨Option.filter_eq_some_iff.mpr ⟨hs, decide_eq_true hhost⟩, ?_, hne⟩
      exact Finset.mem_erase.mpr ⟨hck, hclient⟩

theorem Realizes.remove (h : room.Realizes m) {t : XID} (hstays : m.owner ∈ m.members.erase t) :
    (room.remove t).Realizes (m.leave t m.owner hstays) := by
  refine h.leave hstays (room.remove_keys t) (fun j u hne hu ↦ ?_) ?_ rfl
  · exact ⟨u, remove_lookup.mpr ⟨hne, hu⟩, rfl, rfl⟩
  · obtain ⟨u, hu, howner⟩ := h.owner
    exact ⟨u, remove_lookup.mpr ⟨(Finset.mem_erase.mp hstays).1, hu⟩, howner⟩

theorem Realizes.leftBy (h : room.Realizes m) (hsound : room.Sound r) {k : XID}
    (hleft : room.LeftBy k room') : ∃ next, ∃ hnext : next ∈ m.members.erase k,
      (k ≠ m.owner → next = m.owner) ∧ room'.Realizes (m.leave k next hnext) := by
  cases hleft with
  | @member u j huser hnot _ _ =>
      have hne : m.owner ≠ k := by
        rintro rfl
        obtain ⟨v, hv, howner⟩ := h.owner
        rw [huser] at hv
        exact hnot (Option.some.inj hv ▸ howner)
      have hstays := Finset.mem_erase.mpr ⟨hne, m.owner_mem⟩
      exact ⟨m.owner, hstays, fun _ ↦ rfl, h.remove hstays⟩
  | @owner next howner hnext hne =>
      have hstays : next ∈ m.members.erase k :=
        Finset.mem_erase.mpr ⟨hne, h.members ▸ hnext⟩
      refine ⟨next, hstays, fun hk ↦ absurd (h.owner_eq hsound howner) hk, ?_⟩
      refine h.leave hstays ?_ (fun j u hj hu ↦ ?_) ?_ rfl
      · exact (GoMap.keys_mapVals _ _).trans (room.remove_keys k)
      · refine ⟨_, promote_lookup.mpr ⟨u, remove_lookup.mpr ⟨hj, hu⟩, rfl⟩, ?_, ?_⟩
        · split <;> rfl
        · split <;> rfl
      · obtain ⟨v, hv⟩ := GoMap.mem_keys.mp hnext
        exact ⟨{ v with owner := true }, promote_lookup.mpr ⟨v, remove_lookup.mpr ⟨hne, hv⟩,
          if_pos rfl⟩, rfl⟩

end Room

/-! ## The main loop -/

/-- The rooms that have an id realize the meetings. -/
structure Keeps (rooms : GoMap String (Room XID)) (p : Meetings XID String) : Prop where
  empty : p "" = none
  rooms : ∀ r, r ≠ "" → Option.Rel Room.Realizes (rooms.lookup r) (p r)

/-- What a message asks for. -/
inductive Event.Wants (env : Env XID) : Event XID → Deed XID String → Prop
  | found (e : Create) (k : XID) : Wants env (.create e) (.found k e.id)
  | enter {e : Event XID} {r : String} (he : e.AsksFor r) (k : XID) : Wants env e (.enter k r)
  | disconnected (d : Disconnected) (k : XID) (r : String) :
      Wants env (.disconnected d) (.leave k r)
  | exit (k : XID) (r : String) : Wants env .exit (.leave k r)
  | share (k : XID) (r : String) : Wants env .startShare (.share k r)
  | rest (k : XID) (r : String) : Wants env .stopShare (.rest k r k)
  | stopShare {a : OwnerAction} {k t : XID} (ha : a.action = "stop_share")
      (ht : a.Targets env k t) (r : String) : Wants env (.ownerAction a) (.rest k r t)
  | enableAll {a : OwnerAction} (ha : a.action = "enable_all") (k : XID) (r : String) :
      Wants env (.ownerAction a) (.permitAll k r)
  | disableAll {a : OwnerAction} (ha : a.action = "disable_all") (k : XID) (r : String) :
      Wants env (.ownerAction a) (.forbidAll k r)
  | toggle {a : OwnerAction} {k t : XID} (ha : a.action = "toggle_share_permission")
      (ht : a.Targets env k t) (r : String) : Wants env (.ownerAction a) (.toggle k r t)
  | kick {a : OwnerAction} {k t : XID} (ha : a.action = "kick") (ht : a.Targets env k t)
      (r : String) : Wants env (.ownerAction a) (.expel k r t)
  | ban {a : OwnerAction} {k t : XID} (ha : a.action = "ban") (ht : a.Targets env k t)
      (r : String) : Wants env (.ownerAction a) (.expel k r t)
  | dissolve (k : XID) (r : String) : Wants env .dissolve (.dissolve k r)

/-- The deed answers the message: it is what the message asks for, or the message fails and its
sender leaves. -/
def Event.Means (env : Env XID) (s : Rooms XID) (c : ClientInfo XID) (e : Event XID)
    (deed : Deed XID String) : Prop :=
  e.Wants env deed ∨
    (∃ r, deed = .leave c.id r) ∧ ∃ err s₁, e.execute env s c = .error err s₁

section Effects

variable {rooms : GoMap String (Room XID)} {p : Meetings XID String} {room : Room XID}
  {m : Meeting XID} {r : String} {s s' : Rooms XID} {c : ClientInfo XID} {e : Event XID}

theorem Keeps.lookup (h : Keeps rooms p) (hr : r ≠ "") (hroom : rooms.lookup r = some room) :
    ∃ m, p r = some m ∧ room.Realizes m := by
  have hrel := h.rooms r hr
  rw [hroom] at hrel
  cases hp : p r with
  | none =>
      rw [hp] at hrel
      cases hrel
  | some m =>
      rw [hp] at hrel
      cases hrel with
      | some hm => exact ⟨m, rfl, hm⟩

theorem Keeps.none (h : Keeps rooms p) (hr : r ≠ "") (hroom : rooms.lookup r = none) :
    p r = none := by
  have hrel := h.rooms r hr
  rw [hroom] at hrel
  cases hp : p r with
  | none => rfl
  | some m =>
      rw [hp] at hrel
      cases hrel

theorem Keeps.insert (h : Keeps rooms p) (hr : r ≠ "") (hroom : room.Realizes m) :
    Keeps (rooms.insert r room) (Function.update p r (some m)) where
  empty := by rw [Function.update_of_ne hr.symm, h.empty]
  rooms r' hr' := by
    by_cases heq : r' = r
    · subst heq
      rw [GoMap.lookup_insert_self, Function.update_self]
      exact .some hroom
    · rw [GoMap.lookup_insert_of_ne heq, Function.update_of_ne heq]
      exact h.rooms r' hr'

theorem Keeps.erase (h : Keeps rooms p) (hr : r ≠ "") :
    Keeps (rooms.erase r) (Function.update p r .none) where
  empty := by rw [Function.update_of_ne hr.symm, h.empty]
  rooms r' hr' := by
    by_cases heq : r' = r
    · subst heq
      rw [GoMap.lookup_erase_self, Function.update_self]
      exact .none
    · rw [GoMap.lookup_erase_of_ne heq, Function.update_of_ne heq]
      exact h.rooms r' hr'

/-- The room with the empty id does not count. -/
theorem Keeps.insert_empty (h : Keeps rooms p) (room : Room XID) :
    Keeps (rooms.insert "" room) p where
  empty := h.empty
  rooms r hr := by
    rw [GoMap.lookup_insert_of_ne hr]
    exact h.rooms r hr

theorem Keeps.free (h : Keeps s.rooms p) (hwf : s.WF env) {k : XID}
    (hout : s.connected.lookup k = some "") : p.Free k := by
  intro r m hm hk
  have hr : r ≠ "" := by
    rintro rfl
    rw [h.empty] at hm
    cases hm
  cases hroom : s.rooms.lookup r with
  | none =>
      rw [h.none hr hroom] at hm
      cases hm
  | some room =>
      obtain ⟨m', hm', hrealizes⟩ := h.lookup hr hroom
      obtain rfl := Option.some.inj (hm.symm.trans hm')
      exact hwf.fresh hout hroom hr (hrealizes.members ▸ hk)

/-- One answer of the main loop is a deed, or nothing happens in the meetings. -/
def Moves (env : Env XID) (s : Rooms XID) (c : ClientInfo XID) (e : Event XID)
    (p : Meetings XID String) (rooms : GoMap String (Room XID)) : Prop :=
  Keeps rooms p ∨
    ∃ deed q, p.Step deed q ∧ deed.actor = c.id ∧ e.Means env s c deed ∧ Keeps rooms q

theorem moves_update (hwf : s.WF env) (hkeeps : Keeps s.rooms p) (hin : s.In c.id r room)
    {op : RoomOp XID} (hop : op.IssuedBy env c.id room e) :
    Moves env s c e p (s.rooms.insert r (op.apply room)) := by
  obtain ⟨m, hm, hroom⟩ := hkeeps.lookup hin.ne_empty hin.lookup
  have hsound := hwf.sound r room hin.lookup
  have hmem : c.id ∈ m.members := hroom.members ▸ hin.member hwf
  have hsame {room' : Room XID} (hroom' : room'.Realizes m) : Keeps (s.rooms.insert r room') p := by
    have hkept := hkeeps.insert hin.ne_empty hroom'
    rwa [← hm, Function.update_eq_self] at hkept
  cases hop with
  | name e => exact Or.inl (hsame (hroom.rename hsound c.id e.userName))
  | stopShare =>
      exact Or.inr ⟨_, _, .rest hm hmem (Or.inl rfl) hmem, rfl, Or.inl (.rest c.id r),
        hkeeps.insert hin.ne_empty (hroom.rest hsound c.id)⟩
  | @ownerStop a t ha howner ht =>
      have hk := hroom.owner_eq hsound howner
      by_cases htarget : t ∈ m.members
      · exact Or.inr ⟨_, _, .rest hm hmem (Or.inr hk) htarget, rfl, Or.inl (.stopShare ha ht r),
          hkeeps.insert hin.ne_empty (hroom.rest hsound t)⟩
      · exact Or.inl (hsame (hroom.absent hsound htarget fun _ _ hne ↦ if_neg hne))
  | @ownerEnable a ha howner =>
      have hk := hroom.owner_eq hsound howner
      exact Or.inr ⟨_, _, .permitAll hm hk, rfl, Or.inl (.enableAll ha c.id r),
        hkeeps.insert hin.ne_empty (hroom.permitAll hsound c.id)⟩
  | @ownerDisable a ha howner =>
      have hk := hroom.owner_eq hsound howner
      exact Or.inr ⟨_, _, .forbidAll hm hk, rfl, Or.inl (.disableAll ha c.id r),
        hkeeps.insert hin.ne_empty (hroom.forbidAll hsound c.id)⟩
  | @ownerToggle a t ha howner ht =>
      have hk := hroom.owner_eq hsound howner
      by_cases htarget : t ∈ m.members
      · exact Or.inr ⟨_, _, .toggle hm hk ht.2.2 htarget, rfl, Or.inl (.toggle ha ht r),
          hkeeps.insert hin.ne_empty (hroom.toggle hsound htarget)⟩
      · exact Or.inl (hsame (hroom.absent hsound htarget fun _ _ hne ↦ if_neg hne))

theorem Left.moves (h : Left env c.id s r room s') (hwf : s.WF env) (hkeeps : Keeps s.rooms p)
    (hin : s.In c.id r room) (hmeans : e.Means env s c (.leave c.id r)) :
    Moves env s c e p s'.rooms := by
  obtain ⟨m, hm, hroom⟩ := hkeeps.lookup hin.ne_empty hin.lookup
  have hmem : c.id ∈ m.members := hroom.members ▸ hin.member hwf
  cases h with
  | stay hleft _ _ _ =>
      obtain ⟨next, hnext, howner, hroom'⟩ :=
        hroom.leftBy (hwf.sound r room hin.lookup) hleft
      exact Or.inr ⟨_, _, .leave hm hmem hnext howner, rfl, hmeans,
        hkeeps.insert hin.ne_empty hroom'⟩
  | last honly _ =>
      exact Or.inr ⟨_, _, .last hm (hroom.members ▸ honly), rfl, hmeans,
        hkeeps.erase hin.ne_empty⟩

theorem Event.Departs.means (h : e.Departs env s c) (r : String) :
    e.Means env s c (.leave c.id r) := by
  rcases h with ⟨d, rfl⟩ | rfl | hfails
  · exact Or.inl (.disconnected d c.id r)
  · exact Or.inl (.exit c.id r)
  · exact Or.inr ⟨⟨r, rfl⟩, hfails⟩

theorem moves_dissolve (hwf : s.WF env) (hkeeps : Keeps s.rooms p) (hin : s.In c.id r room)
    (howner : room.OwnedBy c.id) : Moves env s c .dissolve p (s.rooms.erase r) := by
  obtain ⟨m, hm, hroom⟩ := hkeeps.lookup hin.ne_empty hin.lookup
  have hk := hroom.owner_eq (hwf.sound r room hin.lookup) howner
  exact Or.inr ⟨_, _, .dissolve hm hk, rfl, Or.inl (.dissolve c.id r),
    hkeeps.erase hin.ne_empty⟩

/-- The two hypotheses say how a client goes: when its message fails, and only by a departure or
with its room. -/
theorem Effect.moves (h : Effect env c s e s') (hwf : s.WF env) (hkeeps : Keeps s.rooms p)
    (hfails : c.id ∈ s.connected.keys → ∀ err s₁, e.execute env s c = .error err s₁ →
      c.id ∉ s'.connected.keys)
    (hgone : ∀ r room, s.In c.id r room → c.id ∉ s'.connected.keys → e.Departs env s c ∨
      (e = .dissolve ∧ room.OwnedBy c.id ∧ s'.rooms = s.rooms.erase r)) :
    Moves env s c e p s'.rooms := by
  cases h with
  | idle _ => exact Or.inl hkeeps
  | connect => exact Or.inl hkeeps
  | relay _ _ _ _ _ => exact Or.inl hkeeps
  | joinFailed _ _ _ _ _ _ _ _ => exact Or.inl hkeeps
  | leaveNowhere _ _ => exact Or.inl hkeeps
  | haunt _ _ _ _ _ _ => exact Or.inl (hkeeps.insert_empty _)
  | @create e name createdAt told w hout hnew _ _ _ =>
      by_cases hr : e.id = ""
      · rw [hr]
        exact Or.inl (hkeeps.insert_empty _)
      · exact Or.inr ⟨_, _, .found (hkeeps.none hr hnew) (hkeeps.free hwf hout), rfl,
          Or.inl (.found e c.id),
          hkeeps.insert hr (Room.realizes_create e c name createdAt)⟩
  | @join e r name room os told w hnamed hout hlookup _ hos _ hworld =>
      by_cases hr : r = ""
      · subst hr
        exact Or.inl (hkeeps.insert_empty _)
      · have hok : ¬ ∃ err, e.execute env s c = .error err s := by
          rintro ⟨err, hfail⟩
          refine hfails (GoMap.mem_keys_of_lookup hout) err s hfail ?_
          exact GoMap.mem_keys_of_lookup (GoMap.lookup_insert_self _ _ _)
        have hasks := (execute_named hnamed hout hlookup).resolve_right hok
        obtain ⟨m, hm, hroom⟩ := hkeeps.lookup hr hlookup
        exact Or.inr ⟨_, _, .enter hm (hkeeps.free hwf hout), rfl, Or.inl (.enter hasks c.id),
          hkeeps.insert hr (hroom.enter (hwf.fresh hout hlookup hr) hos
            (hwf.unused_of_born hlookup hworld))⟩
  | update hin hop _ _ _ => exact moves_update hwf hkeeps hin hop
  | @share r room u os told w hin huser hcan hfree _ hos _ hworld =>
      obtain ⟨m, hm, hroom⟩ := hkeeps.lookup hin.ne_empty hin.lookup
      have hmem : c.id ∈ m.members := hroom.members ▸ hin.member hwf
      have hallowed : c.id ∉ m.forbidden := (hroom.forbidden_iff huser).not.mpr (not_not.mpr hcan)
      have hbusy : ∀ j, m.sharer = some j → j = c.id := by
        intro j hj
        obtain ⟨v, hv, hs⟩ := (hroom.sharer j).mp hj
        exact hfree j v hv hs
      exact Or.inr ⟨_, _, .share hm hmem hallowed hbusy, rfl, Or.inl (.share c.id r),
        hkeeps.insert hin.ne_empty (hroom.share huser hfree hos
          (hwf.unused_of_born hin.lookup hworld) hmem hallowed)⟩
  | @remove a t r reason code room room' target told w hin howner ht htarget hban _ _ =>
      obtain ⟨m, hm, hroom⟩ := hkeeps.lookup hin.ne_empty hin.lookup
      have hk := hroom.owner_eq (hwf.sound r room hin.lookup) howner
      have hstays : m.owner ∈ m.members.erase t :=
        Finset.mem_erase.mpr ⟨hk ▸ ht.2.2.symm, m.owner_mem⟩
      have hmem : t ∈ m.members := hroom.members ▸ GoMap.mem_keys_of_lookup htarget
      have hstep : p.Step (.expel c.id r t)
          (Function.update p r (some (m.leave t m.owner hstays))) := by
        simpa only [hk] using Meetings.Step.expel hm rfl hmem hstays
      rcases hban with ⟨ha, rfl⟩ | ⟨ha, rfl⟩
      · exact Or.inr ⟨_, _, hstep, rfl, Or.inl (.kick ha ht r),
          hkeeps.insert hin.ne_empty (hroom.remove hstays)⟩
      · have hroom' : (room.banAddr target.addr).Realizes m :=
          ⟨hroom.members, hroom.owner, hroom.forbidden, hroom.sharer, hroom.streams⟩
        exact Or.inr ⟨_, _, hstep, rfl, Or.inl (.ban ha ht r),
          hkeeps.insert hin.ne_empty (hroom'.remove hstays)⟩
  | leave hin hleft =>
      have hout : c.id ∉ s'.connected.keys := by
        rw [hleft.connected, GoMap.keys_erase]
        exact Finset.notMem_erase _ _
      rcases hgone _ _ hin hout with hdeparts | ⟨rfl, howner, hrooms⟩
      · exact hleft.moves hwf hkeeps hin (hdeparts.means _)
      · rw [hrooms]
        exact moves_dissolve hwf hkeeps hin howner
  | dissolve hin howner _ _ _ => exact moves_dissolve hwf hkeeps hin howner

end Effects

theorem step_moves {s t : System XID} {a : Action XID} {p : Meetings XID String}
    (hwf : s.WF env) (h : (machine env server).step s a t) (hkeeps : Keeps s.rooms.rooms p) :
    Moves env s.rooms (a.info env) a.event p t.rooms.rooms := by
  by_cases ha : ∃ info e, a = .receive info e
  · obtain ⟨info, e, rfl⟩ := ha
    refine (step_effect hwf h).moves hwf.rooms hkeeps (fun hconn err s₁ hfail ↦ ?_)
      fun r room hin hgone ↦ departs_of_gone hwf h hin hgone
    rw [step_of_error h hconn hfail, executeNoError_connected, GoMap.keys_erase]
    exact Finset.notMem_erase _ _
  · rw [step_rooms h ha]
    exact Or.inl hkeeps

/-! ## Whole runs -/

/-- A step of the server comes to a deed in the meetings that its rooms realize: its client does
it, and for its message. -/
structure IsDeedOf (env : Env XID) (step : System XID × Action XID)
    (deed : Meetings XID String × Deed XID String) : Prop where
  keeps : Keeps step.1.rooms.rooms deed.1
  actor : deed.2.actor = (step.2.info env).id
  means : step.2.event.Means env step.1.rooms (step.2.info env) deed.2

/-- What a run of the server does is done in the meetings, in the same order and by the same
clients. -/
structure RunOfMeetings (env : Env XID) (l : List (System XID × Action XID)) (t : System XID)
    (deeds : List (Meetings XID String × Deed XID String)) (p : Meetings XID String) : Prop where
  run : (Meetings.machine XID String).Run (Meetings.machine XID String).init deeds p
  keeps : Keeps t.rooms.rooms p
  deeds : ∃ steps, steps.Sublist l ∧ List.Forall₂ (IsDeedOf env) steps deeds

theorem keeps_meetings {l : List (System XID × Action XID)} {t : System XID}
    (h : (machine env server).Run (machine env server).init l t) :
    ∃ deeds p, RunOfMeetings env l t deeds p := by
  induction h with
  | nil =>
      refine ⟨[], _, .nil, ⟨rfl, fun r _ ↦ ?_⟩, [], List.Sublist.refl [], .nil⟩
      rw [machine, newRooms, GoMap.lookup_empty]
      exact .none
  | @snoc l s t a hrun hstep ih =>
      obtain ⟨deeds, p, hdeeds, hkeeps, steps, hsub, hall⟩ := ih
      rcases step_moves (reachable_wf ⟨l, hrun⟩) hstep hkeeps with hsame |
        ⟨deed, q, hdeed, hactor, hmeans, hkeeps'⟩
      · exact ⟨deeds, p, hdeeds, hsame, steps, hsub.trans (List.sublist_append_left _ _), hall⟩
      · refine ⟨_, q, hdeeds.snoc hdeed, hkeeps', steps ++ [(s, a)],
          hsub.append (List.Sublist.refl _), ?_⟩
        exact List.rel_append hall (.cons ⟨hkeeps, hactor, hmeans⟩ .nil)

theorem keeps_meetings_screening : ∃ deeds p,
    RunOfMeetings (Env.sample authModeNone)
      (System.history (Env.sample authModeNone) (.internal ⟨∅⟩) (screening "local")).1
      (System.after (Env.sample authModeNone) (.internal ⟨∅⟩) (screening "local")) deeds p :=
  keeps_meetings (System.run_history _ _ _)

end Screego
