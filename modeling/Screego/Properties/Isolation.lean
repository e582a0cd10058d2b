import Screego.Spec.Refinement

/-!
# Rooms do not touch each other

Clients choose the room ids, user ids and session ids in their messages.  An
event still reaches one room only: the room of its sender or, if there is none,
the room that a `create` or a `join` names.  Targets are looked up in that room,
and a client is in one room with an id at a time.
-/

namespace Screego

open Outgoing World Rooms

variable {XID : Type} [DecidableEq XID] {env : Env XID} {server : Turn.Server}

/-- The room that an event of `c` is about: its own or, if it has none, the one that it names. -/
def IsAbout (s : Rooms XID) (c : XID) (e : Event XID) (r : String) : Prop :=
  (r ≠ "" ∧ Member s.rooms c r) ∨
    ((∀ r', r' ≠ "" → ¬ Member s.rooms c r') ∧ e.named = some r)

/-- Between `s` and `s'` the client `c` reached nothing outside of the rooms `about`. -/
structure Isolated (env : Env XID) (c : XID) (about : String → Prop) (s s' : Rooms XID) : Prop where
  rooms : ∀ r, ¬ about r → s'.rooms.lookup r = s.rooms.lookup r
  credentials : ∀ r room, ¬ about r → s.rooms.lookup r = some room → ∀ id ∈ room.sessions.keys,
    ∀ name, IsNameOf env id name → s'.world.turnServer.entry name = s.world.turnServer.entry name
  connected : ∀ k, k ≠ c → (∀ r, about r → ¬ Member s.rooms k r) →
    s'.connected.lookup k = s.connected.lookup k
  messages : ∀ k m, (k, m) ∈ s.world.since s'.world →
    k = c ∨ ∃ r, about r ∧ (Member s.rooms k r ∨ Member s'.rooms k r)

section About

variable {s : Rooms XID} {c : XID} {e : Event XID} {r r' : String}

theorem isAbout_of_in {room : Room XID} (hwf : s.WF env) (h : s.In c r room) : IsAbout s c e r :=
  Or.inl ⟨h.ne_empty, room, h.lookup, h.member hwf⟩

/-- A client that is in no room decides by its message which room it is about. -/
theorem IsAbout.of_named (hwf : s.WF env) (hout : s.connected.lookup c = some "")
    (hnamed : e.named = some r) : IsAbout s c e r := by
  refine Or.inr ⟨?_, hnamed⟩
  rintro r' hr ⟨room, hroom, hc⟩
  exact hwf.fresh hout hroom hr hc

theorem IsAbout.unique (hwf : s.WF env) (h : IsAbout s c e r) (h' : IsAbout s c e r') :
    r = r' := by
  rcases h with ⟨hr, hmem⟩ | ⟨hnot, hnamed⟩ <;> rcases h' with ⟨hr', hmem'⟩ | ⟨hnot', hnamed'⟩
  · have hconn := (hwf.linked c r hr).mpr hmem
    rw [(hwf.linked c r' hr').mpr hmem'] at hconn
    exact (Option.some.inj hconn).symm
  · exact absurd hmem (hnot' r hr)
  · exact absurd hmem' (hnot r' hr')
  · exact Option.some.inj (hnamed.symm.trans hnamed')

end About

/-! ## Recipients -/

/-- All the messages are for clients that meet `p`. -/
def Addressed (p : XID → Prop) (msgs : List (XID × Message XID)) : Prop :=
  ∀ k m, (k, m) ∈ msgs → p k

section Recipients

variable {p : XID → Prop} {msgs msgs' : List (XID × Message XID)}

omit [DecidableEq XID] in
theorem addressed_nil : Addressed p ([] : List (XID × Message XID)) := by
  intro k m hm
  cases hm

omit [DecidableEq XID] in
theorem Addressed.cons {k : XID} {m : Message XID} (hk : p k) (h : Addressed p msgs) :
    Addressed p ((k, m) :: msgs) := by
  intro k' m' hm
  rcases List.mem_cons.mp hm with heq | hm
  · rw [(Prod.mk.inj heq).1]
    exact hk
  · exact h k' m' hm

omit [DecidableEq XID] in
theorem Addressed.append (h : Addressed p msgs) (h' : Addressed p msgs') :
    Addressed p (msgs ++ msgs') := by
  intro k m hm
  rcases List.mem_append.mp hm with hm | hm
  · exact h k m hm
  · exact h' k m hm

theorem Room.Announces.addressed {room : Room XID} (h : room.Announces msgs)
    (hp : ∀ k ∈ room.users.keys, p k) : Addressed p msgs := by
  intro k m hm
  exact hp k (h.eq_room hm).1

omit [DecidableEq XID] in
theorem OpenedSession.addressed {os : List (OpenedSession XID)}
    (hp : ∀ o ∈ os, p o.session.host ∧ p o.session.client) :
    Addressed p (os.flatMap OpenedSession.messages) := by
  intro k m hm
  obtain ⟨o, ho, hm⟩ := List.mem_flatMap.mp hm
  rcases OpenedSession.mem_messages.mp hm with ⟨rfl, -⟩ | ⟨rfl, -⟩
  · exact (hp o ho).1
  · exact (hp o ho).2

theorem Room.Ended.addressed {c : XID} {r : String} {room : Room XID}
    {q : RoomSession XID → Prop} [DecidablePred q] {notices : Notices XID}
    (h : room.Ended q notices msgs)
    (hnotices : ∀ id l k m, (k, m) ∈ notices id l → (k, m) ∈ tellPeer c id l)
    (hsound : room.Sound r) (hp : ∀ k ∈ room.users.keys, p k) : Addressed p msgs := by
  intro k m hm
  obtain ⟨id, l, hl, -, hm⟩ := h.mem hm
  obtain ⟨hhost, hclient⟩ := hsound.ends_mem hl
  rcases (mem_tellPeer (hnotices id l k m hm)).2 with rfl | rfl
  · exact hp _ hhost
  · exact hp _ hclient

omit [DecidableEq XID] in
theorem relayed_recipient {e : Event XID} {rel : Relay XID} (h : e.relayed = some rel)
    (l : RoomSession XID) : rel.recipient l = l.host ∨ rel.recipient l = l.client := by
  cases e with
  | hostOffer _ => exact Or.inr (by rw [← Option.some.inj h])
  | hostICE _ => exact Or.inr (by rw [← Option.some.inj h])
  | clientAnswer _ => exact Or.inl (by rw [← Option.some.inj h])
  | clientICE _ => exact Or.inl (by rw [← Option.some.inj h])
  | _ => cases h

end Recipients

/-! ## One effect -/

section Step

variable {s s' : Rooms XID} {c : ClientInfo XID} {e : Event XID}

/-- The usernames of the sessions of a room that stays as it is are neither withdrawn nor
granted. -/
theorem Turnover.entry_eq {r r' : String} {mode : ConnectionMode} {dead : Finset XID}
    {os : List (OpenedSession XID)} (h : Turnover env s s' r mode dead os) (hwf : s.WF env)
    {room : Room XID} (hroom : s.rooms.lookup r' = some room)
    (hsame : s'.rooms.lookup r' = s.rooms.lookup r') {id : XID} (hid : id ∈ room.sessions.keys)
    {name : String} (hname : IsNameOf env id name) :
    s'.world.turnServer.entry name = s.world.turnServer.entry name := by
  obtain ⟨d, msgs, hchange⟩ := h.change
  obtain ⟨l, hl⟩ := GoMap.mem_keys.mp hid
  -- ids of new sessions are fresh
  have hborn : id ∉ (os.map OpenedSession.id).toFinset := by
    intro hmem
    obtain ⟨n, hn, -, heq⟩ := hchange.born_new id hmem
    exact hwf.unused hroom ⟨n, hn, heq⟩ hid
  -- and the session is still there
  have hdead : id ∉ dead := by
    have hopen' : Open s'.rooms r' room.mode id l :=
      (open_of_lookup (hsame.trans hroom)).mpr ⟨rfl, hl⟩
    rcases (h.open_iff _ _ _ _).mp hopen' with ⟨-, hdead⟩ | ⟨-, -, o, ho, rfl, -⟩
    · exact hdead
    · exact absurd (List.mem_toFinset.mpr (List.mem_map.mpr ⟨o, ho, rfl⟩)) hborn
  apply hchange.kept
  intro _ id' hid' hname'
  obtain rfl := hname'.unique hname
  exact (Finset.mem_union.mp hid').elim hdead hborn

/-- The sender and the members of the room, before or after the step. -/
def Concerned (s s' : Rooms XID) (c : XID) (r : String) (k : XID) : Prop :=
  k = c ∨ Member s.rooms k r ∨ Member s'.rooms k r

section Concerned

variable {r : String} {room : Room XID} {k : XID}

omit [DecidableEq XID] in
theorem concerned_self : Concerned s s' c.id r c.id := Or.inl rfl

omit [DecidableEq XID] in
theorem concerned_before (hroom : s.rooms.lookup r = some room) (k : XID)
    (hk : k ∈ room.users.keys) : Concerned s s' c.id r k :=
  Or.inr (Or.inl ⟨room, hroom, hk⟩)

omit [DecidableEq XID] in
theorem concerned_after (hroom : s'.rooms.lookup r = some room) (k : XID)
    (hk : k ∈ room.users.keys) : Concerned s s' c.id r k :=
  Or.inr (Or.inr ⟨room, hroom, hk⟩)

end Concerned

/-- A step that changes one room, with the entries of its members. -/
theorem isolated_of_room {r : String} (hwf : s.WF env) (habout : IsAbout s c.id e r)
    (hturn : ∃ r mode dead os, Turnover env s s' r mode dead os)
    (hrooms : ∀ r', r' ≠ r → s'.rooms.lookup r' = s.rooms.lookup r')
    (hconnected : ∀ k, k ≠ c.id → ¬ Member s.rooms k r →
      s'.connected.lookup k = s.connected.lookup k)
    (hmsgs : Addressed (Concerned s s' c.id r) (s.world.since s'.world)) :
    Isolated env c.id (IsAbout s c.id e) s s' := by
  have hother : ∀ r', ¬ IsAbout s c.id e r' → s'.rooms.lookup r' = s.rooms.lookup r' :=
    fun r' hr' ↦ hrooms r' fun heq ↦ hr' (heq ▸ habout)
  obtain ⟨_, _, _, _, hturn⟩ := hturn
  refine ⟨hother, ?_, fun k hk hnot ↦ hconnected k hk (hnot r habout), ?_⟩
  · intro r' room hr' hroom id hid name hname
    exact hturn.entry_eq hwf hroom (hother r' hr') hid hname
  · intro k m hm
    exact (hmsgs k m hm).imp id fun hmem ↦ ⟨r, habout, hmem⟩

/-- A step that leaves the rooms alone and writes to its sender at most. -/
theorem isolated_of_client (hwf : s.WF env)
    (hturn : ∃ r mode dead os, Turnover env s s' r mode dead os) (hrooms : s'.rooms = s.rooms)
    (hconnected : ∀ k, k ≠ c.id → s'.connected.lookup k = s.connected.lookup k)
    (hmsgs : Addressed (fun k ↦ k = c.id) (s.world.since s'.world)) :
    Isolated env c.id (IsAbout s c.id e) s s' := by
  obtain ⟨_, _, _, _, hturn⟩ := hturn
  refine ⟨fun r _ ↦ by rw [hrooms], ?_, fun k hk _ ↦ hconnected k hk, ?_⟩
  · intro r room _ hroom id hid name hname
    exact hturn.entry_eq hwf hroom (by rw [hrooms]) hid hname
  · exact fun k m hm ↦ Or.inl (hmsgs k m hm)

theorem Effect.isolated (h : Effect env c s e s') (hwf : s.WF env) :
    Isolated env c.id (IsAbout s c.id e) s s' := by
  have hturn := h.turnover hwf
  have hinsert {r : String} {room : Room XID} (r' : String) (hr' : r' ≠ r) :
      (s.rooms.insert r room).lookup r' = s.rooms.lookup r' := GoMap.lookup_insert_of_ne hr'
  have henter {r : String} (k : XID) (hk : k ≠ c.id) :
      (s.connected.insert c.id r).lookup k = s.connected.lookup k := GoMap.lookup_insert_of_ne hk
  have hleave (k : XID) (hk : k ≠ c.id) :
      (s.connected.erase c.id).lookup k = s.connected.lookup k := GoMap.lookup_erase_of_ne hk
  cases h with
  | idle hworld =>
      refine isolated_of_client hwf hturn rfl (fun _ _ ↦ rfl) ?_
      rw [hworld.since]
      exact addressed_nil
  | connect =>
      refine isolated_of_client hwf hturn rfl henter ?_
      rw [since_self]
      exact addressed_nil
  | leaveNowhere _ hworld =>
      refine isolated_of_client hwf hturn rfl hleave ?_
      rw [hworld.since]
      exact addressed_nil.cons rfl
  | @relay _ rel r room l _ hrelay hin hl _ hworld =>
      refine isolated_of_room hwf (isAbout_of_in hwf hin) hturn (fun _ _ ↦ rfl) (fun _ _ _ ↦ rfl) ?_
      rw [hworld.since]
      refine addressed_nil.cons (concerned_before hin.lookup _ ?_)
      obtain ⟨hhost, hclient⟩ := (hwf.sound _ _ hin.lookup).ends_mem hl
      rcases relayed_recipient hrelay l with heq | heq
      · exact heq ▸ hhost
      · exact heq ▸ hclient
  | @create ce _ _ _ _ hout _ _ htold hworld =>
      refine isolated_of_room hwf (.of_named hwf hout rfl) hturn hinsert
        (fun k hk _ ↦ henter k hk) ?_
      rw [hworld.since]
      exact htold.addressed (concerned_after (GoMap.lookup_insert_self _ _ _))
  | @join _ r name room os _ _ hnamed hout hroom _ hos htold hworld =>
      have htold' : ((room.enter (c.newUser name false)).openSessions os).Announces _ :=
        htold.congr rfl rfl
      refine isolated_of_room hwf (.of_named hwf hout hnamed) hturn hinsert
        (fun k hk _ ↦ henter k hk) ?_
      rw [hworld.since]
      refine Addressed.append ?_ (OpenedSession.addressed fun o ho ↦ ?_)
      · exact htold'.addressed (concerned_after (GoMap.lookup_insert_self _ _ _))
      · obtain ⟨hclient, -, u, hu, -⟩ := (hos.mem_iff _).mp (List.mem_map.mpr ⟨o, ho, rfl⟩)
        exact ⟨concerned_before hroom _ (GoMap.mem_keys_of_lookup hu), Or.inl hclient⟩
  | @joinFailed _ r name _ _ room _ _ _ hnamed hout hroom _ _ htold htold' hworld =>
      refine isolated_of_room hwf (.of_named hwf hout hnamed) hturn (fun _ _ ↦ rfl)
        (fun k hk _ ↦ hleave k hk) ?_
      rw [hworld.since]
      refine Addressed.append (htold.addressed fun k hk ↦ ?_)
        (Addressed.cons concerned_self (htold'.addressed (concerned_before hroom)))
      rcases (Room.enter_keys room c name k).mp hk with rfl | hk
      · exact concerned_self
      · exact concerned_before hroom k hk
  | haunt hnamed hout hroom _ htold hworld =>
      refine isolated_of_room hwf (.of_named hwf hout hnamed) hturn hinsert
        (fun k hk _ ↦ hleave k hk) ?_
      rw [hworld.since]
      refine Addressed.append ?_ (addressed_nil.cons concerned_self)
      exact htold.addressed (concerned_after (GoMap.lookup_insert_self _ _ _))
  | @update _ _ r room _ _ _ hin _ hended htold hworld =>
      refine isolated_of_room hwf (isAbout_of_in hwf hin) hturn hinsert (fun _ _ _ ↦ rfl) ?_
      rw [hworld.since]
      refine Addressed.append ?_ ?_
      · exact hended.addressed (e.mem_notices c.id) (hwf.sound _ _ hin.lookup)
          (concerned_before hin.lookup)
      · exact htold.addressed (concerned_after (GoMap.lookup_insert_self _ _ _))
  | @share r room _ os _ _ hin huser _ _ _ hos htold hworld =>
      have htold' : ((room.startStream c.id).openSessions os).Announces _ := htold.congr rfl rfl
      refine isolated_of_room hwf (isAbout_of_in hwf hin) hturn hinsert (fun _ _ _ ↦ rfl) ?_
      rw [hworld.since]
      refine Addressed.append (OpenedSession.addressed fun o ho ↦ ?_) ?_
      · obtain ⟨hhost, -, hclient⟩ := (hos.mem_iff _).mp (List.mem_map.mpr ⟨o, ho, rfl⟩)
        exact ⟨Or.inl hhost, concerned_before hin.lookup _ hclient⟩
      · exact htold'.addressed (concerned_after (GoMap.lookup_insert_self _ _ _))
  | @remove _ t _ _ _ room _ _ _ _ hin _ _ htarget _ htold hworld =>
      have ht := GoMap.mem_keys_of_lookup htarget
      refine isolated_of_room hwf (isAbout_of_in hwf hin) hturn hinsert (fun k _ hnot ↦ ?_) ?_
      · exact GoMap.lookup_erase_of_ne fun heq ↦ hnot ⟨room, hin.lookup, heq ▸ ht⟩
      · rw [hworld.since]
        refine Addressed.cons (concerned_before hin.lookup t ht) ?_
        exact htold.addressed (concerned_after (GoMap.lookup_insert_self _ _ _))
  | @leave _ _ room _ hin hleft =>
      cases hleft with
      | stay hleft hended htold hworld =>
          refine isolated_of_room hwf (isAbout_of_in hwf hin) hturn hinsert
            (fun k hk _ ↦ hleave k hk) ?_
          rw [hworld.since]
          refine Addressed.cons concerned_self (Addressed.append ?_ ?_)
          · exact hended.addressed (fun _ _ _ _ h ↦ h) (hwf.sound _ _ hin.lookup)
              (concerned_before hin.lookup)
          · exact htold.addressed (concerned_after (GoMap.lookup_insert_self _ _ _))
      | last _ hworld =>
          refine isolated_of_room hwf (isAbout_of_in hwf hin) hturn
            (fun r' hr' ↦ GoMap.lookup_erase_of_ne hr') (fun k hk _ ↦ hleave k hk) ?_
          rw [hworld.since]
          exact addressed_nil.cons concerned_self
  | @dissolve _ room ks _ hin _ _ hks hworld =>
      refine isolated_of_room hwf (isAbout_of_in hwf hin) hturn
        (fun r' hr' ↦ GoMap.lookup_erase_of_ne hr') (fun k _ hnot ↦ ?_) ?_
      · have hk : k ∉ room.users.keys := fun hk ↦ hnot ⟨room, hin.lookup, hk⟩
        rw [GoMap.lookup_filter]
        cases s.connected.lookup k with
        | none => rfl
        | some _ => simp [hk]
      · rw [hworld.since]
        intro k m hm
        obtain ⟨k', hk', heq⟩ := List.mem_map.mp hm
        rw [← (Prod.mk.inj heq).1]
        exact concerned_before hin.lookup k' ((hks k').mp hk')

end Step

/-! ## Every event -/

/-- An event is about at most one room, and it reaches nothing outside of it. -/
theorem rooms_isolated {s t : System XID} {a : Action XID} (h : (machine env server).Reachable s)
    (hstep : (machine env server).step s a t) :
    (∀ r r', IsAbout s.rooms (a.info env).id a.event r →
      IsAbout s.rooms (a.info env).id a.event r' → r = r') ∧
    Isolated env (a.info env).id (IsAbout s.rooms (a.info env).id a.event) s.rooms t.rooms := by
  have hwf := reachable_wf h
  exact ⟨fun _ _ ↦ IsAbout.unique hwf.rooms, (step_effect hwf hstep).isolated hwf.rooms⟩

theorem rooms_isolated_neighbours :
    (∀ r r', IsAbout (System.after (Env.sample authModeNone) (.internal ⟨∅⟩)
        (neighbours "turn")).rooms 0 .startShare r →
      IsAbout (System.after (Env.sample authModeNone) (.internal ⟨∅⟩)
        (neighbours "turn")).rooms 0 .startShare r' → r = r') ∧
    Isolated (Env.sample authModeNone) 0
      (IsAbout (System.after (Env.sample authModeNone) (.internal ⟨∅⟩)
        (neighbours "turn")).rooms 0 .startShare)
      (System.after (Env.sample authModeNone) (.internal ⟨∅⟩) (neighbours "turn")).rooms
      (System.after (Env.sample authModeNone) (.internal ⟨∅⟩)
        (neighbours "turn" ++ [.receive (guest 0) .startShare])).rooms := by
  have hstep : (machine (Env.sample authModeNone) (.internal ⟨∅⟩)).step
      (System.after (Env.sample authModeNone) (.internal ⟨∅⟩) (neighbours "turn"))
      (.receive (guest 0) .startShare)
      (System.after (Env.sample authModeNone) (.internal ⟨∅⟩)
        (neighbours "turn" ++ [.receive (guest 0) .startShare])) :=
    System.step_after _ (by decide +kernel) (by decide +kernel)
  exact rooms_isolated (System.reachable_after _ _ _) hstep

end Screego
