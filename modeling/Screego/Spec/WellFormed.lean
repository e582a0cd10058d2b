import Screego.Spec.Sound

/-!
# Well-formed states

The two maps of the main loop agree on who is in which room, every room is
sound, and session ids were made by earlier draws, each for one room only.
Every effect leads from a well-formed state to a well-formed state.
-/

namespace Screego

open Outgoing World

variable {XID : Type} [DecidableEq XID] {env : Env XID}

/-- `k` is listed in the room under `r`. -/
def Member (rooms : GoMap String (Room XID)) (k : XID) (r : String) : Prop :=
  ∃ room, rooms.lookup r = some room ∧ k ∈ room.users.keys

instance (rooms : GoMap String (Room XID)) (k : XID) (r : String) : Decidable (Member rooms k r) :=
  decidable_of_iff ((rooms.lookup r).any fun room ↦ k ∈ room.users.keys) (by
    rw [Option.any_eq_true]
    simp only [decide_eq_true_eq, Member])

omit [DecidableEq XID] in
theorem member_insert {rooms : GoMap String (Room XID)} {r r' : String} {room : Room XID}
    {k : XID} : Member (rooms.insert r room) k r' ↔
      (r' = r ∧ k ∈ room.users.keys) ∨ (r' ≠ r ∧ Member rooms k r') := by
  by_cases h : r' = r
  · subst h
    simp only [Member, GoMap.lookup_insert_self, Option.some.injEq, exists_eq_left', true_and,
      ne_eq, not_true_eq_false, false_and, or_false]
  · simp only [Member, GoMap.lookup_insert_of_ne h, h, ne_eq, not_false_eq_true, true_and,
      false_and, false_or]

theorem member_erase {rooms : GoMap String (Room XID)} {r r' : String} {k : XID} :
    Member (rooms.erase r) k r' ↔ r' ≠ r ∧ Member rooms k r' := by
  by_cases h : r' = r
  · subst h
    simp [Member]
  · simp only [Member, GoMap.lookup_erase_of_ne h, h, ne_eq, not_false_eq_true, true_and]

/-- The two maps agree on who is in which room. -/
def Linked (connected : GoMap XID String) (rooms : GoMap String (Room XID)) : Prop :=
  ∀ k r, r ≠ "" → (connected.lookup k = some r ↔ Member rooms k r)

/-- The room under `r` has the mode `mode` and a session `id`. -/
def Open (rooms : GoMap String (Room XID)) (r : String) (mode : ConnectionMode) (id : XID)
    (l : RoomSession XID) : Prop :=
  ∃ room, rooms.lookup r = some room ∧ room.mode = mode ∧ room.sessions.lookup id = some l

theorem open_of_lookup {rooms : GoMap String (Room XID)} {r : String} {room : Room XID}
    {mode : ConnectionMode} {id : XID} {l : RoomSession XID} (h : rooms.lookup r = some room) :
    Open rooms r mode id l ↔ room.mode = mode ∧ room.sessions.lookup id = some l := by
  simp [Open, h]

theorem open_insert {rooms : GoMap String (Room XID)} {r r' : String} {room : Room XID}
    {mode : ConnectionMode} {id : XID} {l : RoomSession XID} :
    Open (rooms.insert r room) r' mode id l ↔
      (r' = r ∧ room.mode = mode ∧ room.sessions.lookup id = some l) ∨
        (r' ≠ r ∧ Open rooms r' mode id l) := by
  by_cases h : r' = r
  · subst h
    simp [open_of_lookup (GoMap.lookup_insert_self rooms r' room)]
  · simp [Open, GoMap.lookup_insert_of_ne h, h]

theorem open_erase {rooms : GoMap String (Room XID)} {r r' : String} {mode : ConnectionMode}
    {id : XID} {l : RoomSession XID} :
    Open (rooms.erase r) r' mode id l ↔ r' ≠ r ∧ Open rooms r' mode id l := by
  by_cases h : r' = r
  · subst h
    simp [Open]
  · simp [Open, GoMap.lookup_erase_of_ne h, h]

namespace Rooms

structure WF (env : Env XID) (s : Rooms XID) : Prop where
  sound : ∀ r room, s.rooms.lookup r = some room → room.Sound r
  linked : Linked s.connected s.rooms
  minted : ∀ {r mode id l}, Open s.rooms r mode id l → ∃ n < s.world.tick, id = env.xid.new n
  apart : ∀ {r r' mode mode' id l l'}, Open s.rooms r mode id l → Open s.rooms r' mode' id l' →
    r = r'

theorem wf_newRooms (server : Turn.Server) : (newRooms server : Rooms XID).WF env where
  sound := by simp [newRooms]
  linked := by simp [newRooms, Linked, Member]
  minted := by simp [newRooms, Open]
  apart := by simp [newRooms, Open]

variable {s s' : Rooms XID} {c : ClientInfo XID} {e : Event XID}

theorem In.member {k : XID} {r : String} {room : Room XID} (h : s.In k r room) (hwf : s.WF env) :
    k ∈ room.users.keys := by
  obtain ⟨room', hroom', hk⟩ := (hwf.linked k r h.ne_empty).mp h.connected
  rw [h.lookup] at hroom'
  exact Option.some.inj hroom' ▸ hk

theorem WF.in_of_mem (hwf : s.WF env) {k : XID} {r : String} {room : Room XID} (hr : r ≠ "")
    (hroom : s.rooms.lookup r = some room) (hk : k ∈ room.users.keys) : s.In k r room :=
  ⟨(hwf.linked k r hr).mpr ⟨room, hroom, hk⟩, hr, hroom⟩

/-- A client outside of all rooms is listed in no room that has an id. -/
theorem WF.fresh (hwf : s.WF env) {k : XID} (hout : s.connected.lookup k = some "") {r : String}
    {room : Room XID} (hroom : s.rooms.lookup r = some room) : r ≠ "" → k ∉ room.users.keys := by
  intro hr hk
  have hconn := (hwf.in_of_mem hr hroom hk).connected
  rw [hout] at hconn
  exact hr (Option.some.inj hconn).symm

/-- Ids made from now on are not in use. -/
theorem WF.unused (hwf : s.WF env) {r : String} {room : Room XID}
    (hroom : s.rooms.lookup r = some room) {id : XID}
    (hid : ∃ n, s.world.tick ≤ n ∧ id = env.xid.new n) : id ∉ room.sessions.keys := by
  intro hmem
  obtain ⟨n, hn, rfl⟩ := hid
  obtain ⟨l, hl⟩ := GoMap.mem_keys.mp hmem
  obtain ⟨m, hm, heq⟩ := hwf.minted ((open_of_lookup hroom).mpr ⟨rfl, hl⟩)
  have := env.xid.new_injective heq
  omega

theorem WF.unused_of_born (hwf : s.WF env) {r : String} {room : Room XID}
    (hroom : s.rooms.lookup r = some room) {os : List (OpenedSession XID)} {mode : ConnectionMode}
    {dead : Finset XID} {d : Metrics} {msgs : List (XID × Message XID)} {w : World XID}
    (hchange : Change env mode dead (os.map OpenedSession.id).toFinset d msgs s.world w) :
    ∀ o ∈ os, o.id ∉ room.sessions.keys := by
  intro o ho
  obtain ⟨n, hn, -, heq⟩ := hchange.born_new o.id
    (List.mem_toFinset.mpr (List.mem_map.mpr ⟨o, ho, rfl⟩))
  exact hwf.unused hroom ⟨n, hn, heq⟩

end Rooms

open Rooms

variable {s s' : Rooms XID} {c : ClientInfo XID} {e : Event XID}

/-! ## Consequences of an effect -/

theorem Left.change {k : XID} {r : String} {room : Room XID} (h : Left env k s r room s') :
    ∃ mode dead d msgs, Change env mode dead ∅ d msgs s.world s'.world := by
  cases h with
  | stay _ _ _ hworld => exact ⟨_, _, _, _, hworld⟩
  | last _ hworld => exact ⟨_, _, _, _, hworld⟩

theorem Left.not_member {k : XID} {r : String} {room : Room XID} (h : Left env k s r room s') :
    ¬ Member s'.rooms k r := by
  cases h with
  | stay hleft _ _ _ =>
      rw [member_insert, hleft.keys]
      simp
  | last _ _ =>
      rw [member_erase]
      simp

theorem Effect.change (h : Effect env c s e s') :
    ∃ mode dead born d msgs, Change env mode dead born d msgs s.world s'.world := by
  cases h with
  | connect => exact ⟨_, _, _, _, _, Change.refl env "" s.world⟩
  | leave _ hleft =>
      obtain ⟨_, _, _, _, hworld⟩ := hleft.change
      exact ⟨_, _, _, _, _, hworld⟩
  | idle hworld => exact ⟨_, _, _, _, _, hworld⟩
  | relay _ _ _ _ hworld => exact ⟨_, _, _, _, _, hworld⟩
  | create _ _ _ _ hworld => exact ⟨_, _, _, _, _, hworld⟩
  | join _ _ _ _ _ _ hworld => exact ⟨_, _, _, _, _, hworld⟩
  | joinFailed _ _ _ _ _ _ _ hworld => exact ⟨_, _, _, _, _, hworld⟩
  | haunt _ _ _ _ _ hworld => exact ⟨_, _, _, _, _, hworld⟩
  | update _ _ _ _ hworld => exact ⟨_, _, _, _, _, hworld⟩
  | share _ _ _ _ _ _ _ hworld => exact ⟨_, _, _, _, _, hworld⟩
  | remove _ _ _ _ _ _ hworld => exact ⟨_, _, _, _, _, hworld⟩
  | leaveNowhere _ hworld => exact ⟨_, _, _, _, _, hworld⟩
  | dissolve _ _ _ _ hworld => exact ⟨_, _, _, _, _, hworld⟩

theorem Effect.tick (h : Effect env c s e s') : s.world.tick ≤ s'.world.tick := by
  obtain ⟨_, _, _, _, _, hworld⟩ := h.change
  exact hworld.tick

omit [DecidableEq XID] in
theorem lookup_insert_cases {rooms : GoMap String (Room XID)} {r r' : String}
    {room room' : Room XID} (h : (rooms.insert r room).lookup r' = some room') :
    (r' = r ∧ room' = room) ∨ rooms.lookup r' = some room' := by
  rw [GoMap.lookup_insert] at h
  split at h
  · next heq => exact Or.inl ⟨heq, (Option.some.inj h).symm⟩
  · exact Or.inr h

/-- A room after an effect was there before, or was created, or came from one step. -/
theorem Effect.room_step (h : Effect env c s e s') (hwf : s.WF env) {r : String}
    {room' : Room XID} (hr : s'.rooms.lookup r = some room') :
    s.rooms.lookup r = some room' ∨
    (∃ (ce : Create) (name : String) (createdAt : ℤ), e = .create ce ∧ r = ce.id ∧
      s.connected.lookup c.id = some "" ∧ s.rooms.lookup r = none ∧
      ce.authError env c = none ∧ room' = ce.room c name createdAt) ∨
    ∃ room, s.rooms.lookup r = some room ∧ room.Step env c s.world e r room' := by
  cases h with
  | idle _ => exact Or.inl hr
  | connect => exact Or.inl hr
  | relay _ _ _ _ _ => exact Or.inl hr
  | joinFailed _ _ _ _ _ _ _ _ => exact Or.inl hr
  | leaveNowhere _ _ => exact Or.inl hr
  | create hout hnew hauth _ _ =>
      rcases lookup_insert_cases hr with ⟨rfl, rfl⟩ | hr
      · exact Or.inr (Or.inl ⟨_, _, _, rfl, rfl, hout, hnew, hauth, rfl⟩)
      · exact Or.inl hr
  | join hnamed hout hroom hban hos _ hworld =>
      rcases lookup_insert_cases hr with ⟨rfl, rfl⟩ | hr
      · exact Or.inr (Or.inr ⟨_, hroom, .enter hnamed hban (hwf.fresh hout hroom) hos
          (hwf.unused_of_born hroom hworld)⟩)
      · exact Or.inl hr
  | @haunt _ _ _ _ room _ _ hnamed hout hroom hban _ _ =>
      rcases lookup_insert_cases hr with ⟨rfl, rfl⟩ | hr
      · -- nobody is on the air there, so no session is missing
        have hquiet := (hwf.sound _ _ hroom).quiet rfl
        have hos : room.Opened env s.world (fun l ↦ l.client = c.id ∧ l.host ≠ c.id ∧
            ∃ u, room.users.lookup l.host = some u ∧ u.streaming) [] := by
          refine ⟨by simp, fun l ↦ ⟨fun h ↦ absurd h (by simp), ?_⟩, by simp, by simp⟩
          rintro ⟨-, -, u, hu, hstreaming⟩
          exact absurd hstreaming (hquiet _ u hu)
        exact Or.inr (Or.inr ⟨_, hroom,
          .enter hnamed hban (fun h ↦ absurd rfl h) hos (by simp)⟩)
      · exact Or.inl hr
  | update hin hop _ _ _ =>
      rcases lookup_insert_cases hr with ⟨rfl, rfl⟩ | hr
      · exact Or.inr (Or.inr ⟨_, hin.lookup, .update hin.ne_empty (hin.member hwf) hop⟩)
      · exact Or.inl hr
  | share hin huser hcan hfree hip hos _ hworld =>
      rcases lookup_insert_cases hr with ⟨rfl, rfl⟩ | hr
      · exact Or.inr (Or.inr ⟨_, hin.lookup, .share rfl hin.ne_empty huser hcan hfree hip hos
          (hwf.unused_of_born hin.lookup hworld)⟩)
      · exact Or.inl hr
  | remove hin howner ht htarget hban _ _ =>
      rcases lookup_insert_cases hr with ⟨rfl, rfl⟩ | hr
      · exact Or.inr (Or.inr ⟨_, hin.lookup, .remove hin.ne_empty howner ht.2.2 htarget
          (hban.imp And.right And.right)⟩)
      · exact Or.inl hr
  | leave hin hleft =>
      cases hleft with
      | stay hleft _ _ _ =>
          rcases lookup_insert_cases hr with ⟨rfl, rfl⟩ | hr
          · exact Or.inr (Or.inr ⟨_, hin.lookup, .left hin.ne_empty hleft⟩)
          · exact Or.inl hr
      | last _ _ => exact Or.inl (GoMap.lookup_of_erase hr)
  | dissolve _ _ _ _ _ => exact Or.inl (GoMap.lookup_of_erase hr)

/-! ## Sessions -/

/-- The sessions `dead` of the room under `r` ended and the sessions `os` of it started, each
announced to its two ends. -/
structure Turnover (env : Env XID) (s s' : Rooms XID) (r : String) (mode : ConnectionMode)
    (dead : Finset XID) (os : List (OpenedSession XID)) : Prop where
  open_iff : ∀ r' mode' id l, Open s'.rooms r' mode' id l ↔
    (Open s.rooms r' mode' id l ∧ id ∉ dead) ∨
      (r' = r ∧ mode' = mode ∧ ∃ o ∈ os, o.id = id ∧ o.session = l)
  dead_open : ∀ id ∈ dead, ∃ l, Open s.rooms r mode id l
  change : ∃ d msgs, Change env mode dead (os.map OpenedSession.id).toFinset d msgs
    s.world s'.world
  announced : only .session (s.world.since s'.world) = os.flatMap OpenedSession.messages
  nodup_ids : (os.map OpenedSession.id).Nodup
  names : s.world.turnServer.IsInternal → ∀ o ∈ os, o.OwnNames env mode

theorem turnover_insert (hwf : s.WF env) {r : String} {room room' : Room XID} {dead : Finset XID}
    {os : List (OpenedSession XID)} (hroom : s.rooms.lookup r = some room)
    (hrooms : s'.rooms = s.rooms.insert r room') (hmode : room'.mode = room.mode)
    (hsessions : ∀ id l, room'.sessions.lookup id = some l ↔
      (room.sessions.lookup id = some l ∧ id ∉ dead) ∨ ∃ o ∈ os, o.id = id ∧ o.session = l)
    (hdead : ∀ id ∈ dead, id ∈ room.sessions.keys) {d : Metrics}
    {msgs : List (XID × Message XID)} (hchange : Change env room.mode dead
      (os.map OpenedSession.id).toFinset d msgs s.world s'.world)
    (hannounced : only .session msgs = os.flatMap OpenedSession.messages)
    (hids : (os.map OpenedSession.id).Nodup)
    (hnames : s.world.turnServer.IsInternal → ∀ o ∈ os, o.OwnNames env room.mode) :
    Turnover env s s' r room.mode dead os where
  open_iff := by
    intro r' mode' id l
    rw [hrooms, open_insert, hsessions, hmode]
    by_cases hr : r' = r
    · subst hr
      rw [open_of_lookup hroom]
      simp only [true_and, ne_eq, not_true_eq_false, false_and, or_false]
      constructor
      · rintro ⟨hm, ⟨hl, hid⟩ | ho⟩
        · exact Or.inl ⟨⟨hm, hl⟩, hid⟩
        · exact Or.inr ⟨hm.symm, ho⟩
      · rintro (⟨⟨hm, hl⟩, hid⟩ | ⟨hm, ho⟩)
        · exact ⟨hm, Or.inl ⟨hl, hid⟩⟩
        · exact ⟨hm.symm, Or.inr ho⟩
    · simp only [hr, false_and, ne_eq, not_false_eq_true, true_and, false_or, or_false]
      constructor
      · intro h
        refine ⟨h, fun hid ↦ hr ?_⟩
        obtain ⟨l', hl'⟩ := GoMap.mem_keys.mp (hdead id hid)
        exact hwf.apart h ((open_of_lookup hroom).mpr ⟨rfl, hl'⟩)
      · exact fun h ↦ h.1
  dead_open := by
    intro id hid
    obtain ⟨l, hl⟩ := GoMap.mem_keys.mp (hdead id hid)
    exact ⟨l, (open_of_lookup hroom).mpr ⟨rfl, hl⟩⟩
  change := ⟨d, msgs, hchange⟩
  announced := hchange.since ▸ hannounced
  nodup_ids := hids
  names := hnames

theorem turnover_of_iff (hopen : ∀ r mode id l, Open s'.rooms r mode id l ↔
      Open s.rooms r mode id l) {d : Metrics} {msgs : List (XID × Message XID)}
    (hchange : Change env "" ∅ ∅ d msgs s.world s'.world) (hquiet : only .session msgs = []) :
    Turnover env s s' "" "" ∅ [] where
  open_iff := by simp [hopen]
  dead_open := by simp
  change := ⟨d, msgs, by simpa using hchange⟩
  announced := by rw [hchange.since, hquiet, List.flatMap_nil]
  nodup_ids := List.nodup_nil
  names := by simp

theorem Room.Sound.no_sessions {r : String} {room : Room XID} (h : room.Sound r) {k : XID}
    (honly : room.users.keys = {k}) (id : XID) : room.sessions.lookup id = none := by
  rw [Option.eq_none_iff_forall_ne_some]
  intro l hl
  obtain ⟨u, hu, -⟩ := h.hosted id l hl
  obtain ⟨hmem, hne⟩ := h.viewed id l hl
  have hhost := GoMap.mem_keys_of_lookup hu
  rw [honly, Finset.mem_singleton] at hhost hmem
  exact hne (hmem.trans hhost.symm)

theorem Room.openSessions_unused {room : Room XID} {os : List (OpenedSession XID)}
    (hids : (os.map OpenedSession.id).Nodup) (hnew : ∀ o ∈ os, o.id ∉ room.sessions.keys)
    (id : XID) (l : RoomSession XID) : (room.openSessions os).sessions.lookup id = some l ↔
      (room.sessions.lookup id = some l ∧ id ∉ (∅ : Finset XID)) ∨
        ∃ o ∈ os, o.id = id ∧ o.session = l := by
  rw [openSessions_lookup hids]
  constructor
  · rintro (ho | ⟨-, hl⟩)
    · exact Or.inr ho
    · exact Or.inl ⟨hl, by simp⟩
  · rintro (⟨hl, -⟩ | ho)
    · refine Or.inr ⟨?_, hl⟩
      rintro o ho rfl
      exact hnew o ho (GoMap.mem_keys_of_lookup hl)
    · exact Or.inl ho

theorem Room.not_ended_iff {room : Room XID} {p : RoomSession XID → Prop} [DecidablePred p]
    {id : XID} {l : RoomSession XID} : (room.sessions.lookup id = some l ∧ ¬ p l) ↔
      (room.sessions.lookup id = some l ∧ id ∉ room.sessionsWhere p) ∨
        ∃ o ∈ ([] : List (OpenedSession XID)), o.id = id ∧ o.session = l := by
  constructor
  · rintro ⟨hl, hp⟩
    refine Or.inl ⟨hl, fun hid ↦ ?_⟩
    obtain ⟨l', hl', hp'⟩ := mem_sessionsWhere.mp hid
    rw [hl] at hl'
    exact hp (Option.some.inj hl' ▸ hp')
  · rintro (⟨hl, hid⟩ | ⟨o, ho, -⟩)
    · exact ⟨hl, fun hp ↦ hid (mem_sessionsWhere.mpr ⟨l, hl, hp⟩)⟩
    · cases ho

theorem Room.mem_keys_of_sessionsWhere {room : Room XID} {p : RoomSession XID → Prop}
    [DecidablePred p] : ∀ id ∈ room.sessionsWhere p, id ∈ room.sessions.keys := by
  intro id hid
  obtain ⟨l, hl, -⟩ := mem_sessionsWhere.mp hid
  exact GoMap.mem_keys_of_lookup hl

theorem Effect.turnover (h : Effect env c s e s') (hwf : s.WF env) :
    ∃ r mode dead os, Turnover env s s' r mode dead os := by
  cases h with
  | idle hworld => exact ⟨_, _, _, _, turnover_of_iff (fun _ _ _ _ ↦ Iff.rfl) hworld rfl⟩
  | connect =>
      exact ⟨_, _, _, _, turnover_of_iff (fun _ _ _ _ ↦ Iff.rfl) (Change.refl env "" s.world) rfl⟩
  | relay hrelay _ _ _ hworld =>
      refine ⟨_, _, _, _, turnover_of_iff (fun _ _ _ _ ↦ Iff.rfl) hworld ?_⟩
      rw [only_cons_of_ne (by rw [Event.relayed_msg hrelay]; decide)]
      rfl
  | joinFailed _ _ _ _ _ htold htold' hworld =>
      refine ⟨_, _, _, _, turnover_of_iff (fun _ _ _ _ ↦ Iff.rfl) hworld ?_⟩
      rw [only_append, only_cons_of_ne (by simp [Message.kind]), htold.ofKind.only_ne (by decide),
        htold'.ofKind.only_ne (by decide)]
      rfl
  | leaveNowhere _ hworld =>
      exact ⟨_, _, _, _, turnover_of_iff (fun _ _ _ _ ↦ Iff.rfl) hworld rfl⟩
  | @create ce _ _ _ _ _ hnew _ htold hworld =>
      refine ⟨_, _, _, _, turnover_of_iff (fun r mode id l ↦ ?_) hworld
        (htold.ofKind.only_ne (by decide))⟩
      rw [open_insert]
      by_cases hr : r = ce.id
      · subst hr
        simp [Open, hnew, Create.room]
      · simp [hr]
  | join _ hout hroom _ hos htold hworld =>
      refine ⟨_, _, ∅, _, turnover_insert hwf hroom rfl rfl ?_ (by simp) hworld ?_ hos.nodup_ids
        hos.names⟩
      · exact Room.openSessions_unused hos.nodup_ids (hwf.unused_of_born hroom hworld)
      · rw [only_append, htold.ofKind.only_ne (by decide), List.nil_append,
          (OpenedSession.ofKind_messages _).only_self]
  | haunt _ _ hroom _ htold hworld =>
      refine ⟨_, _, ∅, [], turnover_insert hwf hroom rfl rfl ?_ (by simp) (hworld.mode_irrel _)
        ?_ List.nodup_nil (by simp)⟩
      · intro id l
        simp [Room.enter]
      · rw [only_append, htold.ofKind.only_ne (by decide)]
        rfl
  | update hin hop hended htold hworld =>
      refine ⟨_, _, _, [], turnover_insert hwf hin.lookup rfl rfl ?_
        Room.mem_keys_of_sessionsWhere hworld ?_ List.nodup_nil (by simp)⟩
      · intro id l
        exact Room.endSessions_lookup.trans Room.not_ended_iff
      · rw [only_append, (hended.ofKind (e.mem_notices c.id)).only_ne (by decide),
          htold.ofKind.only_ne (by decide)]
        rfl
  | share hin huser hcan hfree hip hos htold hworld =>
      refine ⟨_, _, ∅, _, turnover_insert hwf hin.lookup rfl rfl ?_ (by simp) hworld ?_
        hos.nodup_ids hos.names⟩
      · exact Room.openSessions_unused hos.nodup_ids (hwf.unused_of_born hin.lookup hworld)
      · rw [only_append, htold.ofKind.only_ne (by decide), List.append_nil,
          (OpenedSession.ofKind_messages _).only_self]
  | @remove _ t _ _ _ _ _ _ _ _ hin _ _ htarget hban htold hworld =>
      refine ⟨_, _, _, [], turnover_insert hwf hin.lookup rfl ?_ ?_
        Room.mem_keys_of_sessionsWhere hworld ?_ List.nodup_nil (by simp)⟩
      · rcases hban with ⟨-, rfl⟩ | ⟨-, rfl⟩ <;> rfl
      · intro id l
        rcases hban with ⟨-, rfl⟩ | ⟨-, rfl⟩
        · exact Room.remove_sessions_lookup.trans Room.not_ended_iff
        · exact Room.remove_sessions_lookup.trans (Room.not_ended_iff (p := Touches t))
      · rw [only_cons_of_ne (by simp [Message.kind]), htold.ofKind.only_ne (by decide)]
        rfl
  | leave hin hleft =>
      cases hleft with
      | stay hleft hended htold hworld =>
          refine ⟨_, _, _, [], turnover_insert hwf hin.lookup rfl hleft.mode ?_
            Room.mem_keys_of_sessionsWhere hworld ?_ List.nodup_nil (by simp)⟩
          · intro id l
            rw [hleft.sessions]
            exact Room.remove_sessions_lookup.trans Room.not_ended_iff
          · rw [only_cons_of_ne (by simp [Message.kind]), only_append,
              (hended.ofKind fun _ _ _ _ h ↦ h).only_ne (by decide),
              htold.ofKind.only_ne (by decide)]
            rfl
      | last honly hworld =>
          refine ⟨_, _, _, _, turnover_of_iff (fun r' mode id l ↦ ?_) hworld rfl⟩
          have hnone := (hwf.sound _ _ hin.lookup).no_sessions honly
          rw [open_erase]
          refine ⟨fun h ↦ h.2, fun h ↦ ⟨?_, h⟩⟩
          rintro rfl
          obtain ⟨-, hl⟩ := (open_of_lookup hin.lookup).mp h
          rw [hnone] at hl
          cases hl
  | @dissolve r room ks _ hin howner _ _ hworld =>
      refine ⟨r, room.mode, room.sessions.keys, [], ?_, ?_, ⟨_, _, hworld⟩, ?_, List.nodup_nil,
        by simp⟩
      · intro r' mode' id l
        rw [open_erase]
        constructor
        · rintro ⟨hr, h⟩
          refine Or.inl ⟨h, fun hid ↦ hr ?_⟩
          obtain ⟨l', hl'⟩ := GoMap.mem_keys.mp hid
          exact hwf.apart h ((open_of_lookup hin.lookup).mpr ⟨rfl, hl'⟩)
        · rintro (⟨h, hid⟩ | ⟨-, -, o, ho, -⟩)
          · refine ⟨?_, h⟩
            rintro rfl
            exact hid (GoMap.mem_keys_of_lookup ((open_of_lookup hin.lookup).mp h).2)
          · cases ho
      · intro id hid
        obtain ⟨l, hl⟩ := GoMap.mem_keys.mp hid
        exact ⟨l, (open_of_lookup hin.lookup).mpr ⟨rfl, hl⟩⟩
      · rw [hworld.since]
        have hbye : OfKind .bye (ks.map fun k ↦ ((k, .closeWriter closeNormalClosure
            "Room Dissolved") : XID × Message XID)) := by
          intro k m hm
          obtain ⟨k', -, heq⟩ := List.mem_map.mp hm
          rw [← (Prod.mk.inj heq).2]
          rfl
        exact hbye.only_ne (by decide)

/-! ## Effects keep states well-formed -/

theorem Turnover.minted {r : String} {mode : ConnectionMode} {dead : Finset XID}
    {os : List (OpenedSession XID)} (h : Turnover env s s' r mode dead os) (hwf : s.WF env)
    {r' : String} {mode' : ConnectionMode} {id : XID} {l : RoomSession XID}
    (hopen : Open s'.rooms r' mode' id l) : ∃ n < s'.world.tick, id = env.xid.new n := by
  obtain ⟨d, msgs, hchange⟩ := h.change
  rcases (h.open_iff r' mode' id l).mp hopen with ⟨hold, -⟩ | ⟨-, -, o, ho, rfl, -⟩
  · obtain ⟨n, hn, hid⟩ := hwf.minted hold
    exact ⟨n, hn.trans_le hchange.tick, hid⟩
  · obtain ⟨n, -, hn, hid⟩ := hchange.born_new o.id
      (List.mem_toFinset.mpr (List.mem_map.mpr ⟨o, ho, rfl⟩))
    exact ⟨n, hn, hid⟩

theorem Turnover.born_unused {r : String} {mode : ConnectionMode} {dead : Finset XID}
    {os : List (OpenedSession XID)} (h : Turnover env s s' r mode dead os) (hwf : s.WF env)
    {o : OpenedSession XID} (ho : o ∈ os) {r' : String} {mode' : ConnectionMode}
    {l : RoomSession XID} : ¬ Open s.rooms r' mode' o.id l := by
  intro hopen
  obtain ⟨d, msgs, hchange⟩ := h.change
  obtain ⟨m, hm, hid⟩ := hwf.minted hopen
  obtain ⟨n, hn, -, hid'⟩ := hchange.born_new o.id
    (List.mem_toFinset.mpr (List.mem_map.mpr ⟨o, ho, rfl⟩))
  have := env.xid.new_injective (hid.symm.trans hid')
  omega

theorem Turnover.apart {r : String} {mode : ConnectionMode} {dead : Finset XID}
    {os : List (OpenedSession XID)} (h : Turnover env s s' r mode dead os) (hwf : s.WF env)
    {r₁ r₂ : String} {m₁ m₂ : ConnectionMode} {id : XID} {l₁ l₂ : RoomSession XID}
    (h₁ : Open s'.rooms r₁ m₁ id l₁) (h₂ : Open s'.rooms r₂ m₂ id l₂) : r₁ = r₂ := by
  rcases (h.open_iff _ _ _ _).mp h₁ with ⟨h₁, -⟩ | ⟨rfl, -, o₁, ho₁, rfl, -⟩
  · rcases (h.open_iff _ _ _ _).mp h₂ with ⟨h₂, -⟩ | ⟨-, -, o₂, ho₂, rfl, -⟩
    · exact hwf.apart h₁ h₂
    · exact (h.born_unused hwf ho₂ h₁).elim
  · rcases (h.open_iff _ _ _ _).mp h₂ with ⟨h₂, -⟩ | ⟨rfl, -, -⟩
    · exact (h.born_unused hwf ho₁ h₂).elim
    · rfl

theorem Linked.insert_same {connected : GoMap XID String} {rooms : GoMap String (Room XID)}
    (h : Linked connected rooms) {r : String} {room room' : Room XID}
    (hroom : rooms.lookup r = some room) (hkeys : room'.users.keys = room.users.keys) :
    Linked connected (rooms.insert r room') := by
  intro k r' hr'
  rw [h k r' hr', member_insert, hkeys]
  by_cases heq : r' = r
  · subst heq
    simp [Member, hroom]
  · simp [heq]

/-- A client that is nowhere becomes a member of one room. -/
theorem Linked.insert_enter {connected : GoMap XID String} {rooms : GoMap String (Room XID)}
    (h : Linked connected rooms) {c : XID} (hout : connected.lookup c = some "") {r : String}
    {room' : Room XID} (hkeys : ∀ k, k ∈ room'.users.keys ↔ k = c ∨ Member rooms k r) :
    Linked (connected.insert c r) (rooms.insert r room') := by
  intro k r' hr'
  rw [GoMap.lookup_insert, member_insert, hkeys, ← h k r' hr']
  have hnone : ∀ r', r' ≠ "" → ¬ Member rooms c r' := by
    intro r' hr' hmem
    rw [← h c r' hr', hout] at hmem
    exact hr' (Option.some.inj hmem).symm
  by_cases hk : k = c
  · subst hk
    rw [if_pos rfl, hout, Option.some.injEq, Option.some.injEq]
    constructor
    · exact fun heq ↦ Or.inl ⟨heq.symm, Or.inl rfl⟩
    · rintro (⟨rfl, -⟩ | ⟨-, hempty⟩)
      · rfl
      · exact absurd hempty.symm hr'
  · rw [if_neg hk]
    by_cases heq : r' = r
    · subst heq
      simp [hk, h k r' hr']
    · simp [heq]

theorem Linked.insert_leave {connected : GoMap XID String} {rooms : GoMap String (Room XID)}
    (h : Linked connected rooms) {c : XID} {r : String} {room room' : Room XID}
    (hc : connected.lookup c = some r) (hroom : rooms.lookup r = some room)
    (hkeys : room'.users.keys = room.users.keys.erase c) :
    Linked (connected.erase c) (rooms.insert r room') := by
  intro k r' hr'
  rw [GoMap.lookup_erase, member_insert, hkeys]
  by_cases hk : k = c
  · subst hk
    have hother : r' ≠ r → ¬ Member rooms k r' := by
      intro hne hmem
      rw [← h k r' hr', hc] at hmem
      exact hne (Option.some.inj hmem).symm
    simpa using hother
  · rw [if_neg hk, h k r' hr']
    by_cases heq : r' = r
    · subst heq
      simp [Member, hroom, hk]
    · simp [heq]

/-- A room goes together with the entries of its members. -/
theorem Linked.erase {connected connected' : GoMap XID String}
    {rooms : GoMap String (Room XID)} (h : Linked connected rooms) {r : String}
    (hconn : ∀ k r', connected'.lookup k = some r' ↔
      connected.lookup k = some r' ∧ ¬ Member rooms k r) (hr : r ≠ "") :
    Linked connected' (rooms.erase r) := by
  intro k r' hr'
  rw [hconn, member_erase, h k r' hr']
  constructor
  · rintro ⟨hmem, hnot⟩
    exact ⟨fun heq ↦ hnot (heq ▸ hmem), hmem⟩
  · rintro ⟨hne, hmem⟩
    refine ⟨hmem, fun hmem' ↦ hne ?_⟩
    rw [← h k r' hr'] at hmem
    rw [← h k r hr, hmem] at hmem'
    exact Option.some.inj hmem'

/-- Outside of all rooms the entry of a client does not matter. -/
theorem Linked.of_lookup {connected connected' : GoMap XID String}
    {rooms : GoMap String (Room XID)} (h : Linked connected rooms)
    (hconn : ∀ k r, r ≠ "" → (connected'.lookup k = some r ↔ connected.lookup k = some r)) :
    Linked connected' rooms :=
  fun k r hr ↦ (hconn k r hr).trans (h k r hr)

theorem Linked.erase_nowhere {connected : GoMap XID String} {rooms : GoMap String (Room XID)}
    (h : Linked connected rooms) {c : XID} (hout : connected.lookup c = some "") :
    Linked (connected.erase c) rooms := by
  apply h.of_lookup
  intro k r hr
  rw [GoMap.lookup_erase]
  by_cases hk : k = c
  · subst hk
    simp [hout, hr.symm]
  · rw [if_neg hk]

theorem Room.enter_keys (room : Room XID) (c : ClientInfo XID) (name : String) (k : XID) :
    k ∈ (room.enter (c.newUser name false)).users.keys ↔ k = c.id ∨ k ∈ room.users.keys := by
  rw [Room.enter, GoMap.keys_insert, Finset.mem_insert]
  rfl

theorem member_iff {rooms : GoMap String (Room XID)} {r : String} {room : Room XID}
    (h : rooms.lookup r = some room) {k : XID} : Member rooms k r ↔ k ∈ room.users.keys := by
  simp [Member, h]

theorem Effect.linked (h : Effect env c s e s') (hwf : s.WF env)
    (hnew : e = .connected → c.id ∉ s.connected.keys) : Linked s'.connected s'.rooms := by
  have hlinked := hwf.linked
  cases h with
  | idle _ => exact hlinked
  | connect =>
      apply hlinked.of_lookup
      intro k r hr
      rw [GoMap.lookup_insert]
      by_cases hk : k = c.id
      · subst hk
        rw [if_pos rfl, GoMap.lookup_eq_none.mpr (hnew rfl)]
        simp [hr.symm]
      · rw [if_neg hk]
  | relay _ _ _ _ _ => exact hlinked
  | create hout hnone _ _ _ =>
      refine hlinked.insert_enter hout (fun k ↦ ?_)
      simp [Create.room, Member, hnone]
  | join _ hout hroom _ _ _ _ =>
      refine hlinked.insert_enter hout (fun k ↦ ?_)
      rw [member_iff hroom]
      exact Room.enter_keys _ _ _ k
  | joinFailed _ hout _ _ _ _ _ _ => exact hlinked.erase_nowhere hout
  | haunt _ hout hroom _ _ _ =>
      intro k r hr
      rw [hlinked.erase_nowhere hout k r hr, member_insert]
      simp [hr]
  | update hin _ _ _ _ =>
      exact hlinked.insert_same hin.lookup (GoMap.keys_mapVals _ _)
  | share hin _ _ _ _ _ _ _ =>
      exact hlinked.insert_same hin.lookup (GoMap.keys_mapVals _ _)
  | remove hin _ _ htarget hban _ _ =>
      obtain ⟨hconn, -, -⟩ := hwf.in_of_mem hin.ne_empty hin.lookup
        (GoMap.mem_keys_of_lookup htarget)
      refine hlinked.insert_leave hconn hin.lookup ?_
      rcases hban with ⟨-, rfl⟩ | ⟨-, rfl⟩
      · exact GoMap.keys_erase _ _
      · exact GoMap.keys_erase _ _
  | leave hin hleft =>
      cases hleft with
      | stay hleft _ _ _ => exact hlinked.insert_leave hin.connected hin.lookup hleft.keys
      | last honly _ =>
          refine hlinked.erase (fun k r' ↦ ?_) hin.ne_empty
          rw [GoMap.lookup_erase, member_iff hin.lookup, honly, Finset.mem_singleton]
          by_cases hk : k = c.id <;> simp [hk]
  | leaveNowhere hout _ => exact hlinked.erase_nowhere hout
  | dissolve hin _ _ _ _ =>
      refine hlinked.erase (fun k r' ↦ ?_) hin.ne_empty
      rw [GoMap.lookup_filter_eq_some, member_iff hin.lookup]

theorem Effect.wf (h : Effect env c s e s') (hwf : s.WF env)
    (hnew : e = .connected → c.id ∉ s.connected.keys) : s'.WF env := by
  obtain ⟨r₀, mode, dead, os, hturn⟩ := h.turnover hwf
  refine ⟨?_, h.linked hwf hnew, hturn.minted hwf, hturn.apart hwf⟩
  intro r room' hr
  rcases h.room_step hwf hr with hold | ⟨ce, name, createdAt, -, rfl, -, -, -, rfl⟩ |
    ⟨room, hroom, hstep⟩
  · exact hwf.sound r room' hold
  · exact Room.sound_create ce c name createdAt
  · exact hstep.sound (hwf.sound r room hroom)

end Screego
