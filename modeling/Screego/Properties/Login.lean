import Screego.Properties.Departed
import Screego.Properties.Failures

/-!
# Logins

Only a `create` that makes a room asks the auth mode.  A `join` does not, and a
`create` with `joinIfExist` becomes a `join` before it gets to the question.  So
in the mode `all` a client without a login cannot open a room, but it can enter
one.
-/

namespace Screego

open Outgoing World Rooms

variable {XID : Type} [DecidableEq XID] {env : Env XID} {server : Turn.Server}

/-- Every listed member is a connection with a login. -/
def AllAuthenticated (s : System XID) : Prop :=
  ∀ k r, Member s.rooms.rooms k r → ∃ info ∈ s.clients, info.id = k ∧ info.authenticated

/-- What a message asks for if the room it names exists. -/
def Event.asks : Event XID → Option Join
  | .join j => some j
  | .create e => if e.joinIfExist then some ⟨e.id, e.userName⟩ else none
  | _ => none

/-- The draw with which a `join` asks for the addresses: one for each list it has sent, after those
for the name. -/
def Join.lookupDraw (env : Env XID) (j : Join) (c : ClientInfo XID) (room : Room XID)
    (w : World XID) : ℕ :=
  (c.userName env j.userName w).2.tick + room.users.keys.card + 2

/-- The client is in no room, the room exists, it does not ban the address, and the address lookup
succeeds.  A lookup that fails takes the client out again, though not out of the room `""`. -/
def Join.Admits (env : Env XID) (j : Join) (s : Rooms XID) (c : ClientInfo XID) : Prop :=
  ∃ room, j.Welcome s c room ∧ (j.id = "" ∨
    ∃ v4 v6, env.turnIPProvider (j.lookupDraw env c room s.world) = .ok (v4, v6))

/-- A client without a login asks for a room that lets it in. -/
def StrangerEnters (env : Env XID) (s : System XID) : Action XID → Prop
  | .receive info e => ¬ info.authenticated ∧ ∃ j, e.asks = some j ∧ j.Admits env s.rooms info
  | _ => False

section Draws

omit [DecidableEq XID] in
theorem foldl_tick {α : Type} (f : World XID → α → World XID) {l : List α}
    (h : ∀ w, ∀ a ∈ l, (f w a).tick = w.tick + 1) (w : World XID) :
    (l.foldl f w).tick = w.tick + l.length := by
  induction l generalizing w with
  | nil => rfl
  | cons a l ih =>
      rw [List.foldl_cons, ih (fun w a ha ↦ h w a (List.mem_cons_of_mem _ ha)),
        h w a List.mem_cons_self, List.length_cons]
      omega

theorem notifyInfoChanged_tick (env : Env XID) (room : Room XID) (w : World XID) :
    (room.notifyInfoChanged env w).tick = w.tick + 1 + room.users.keys.card := by
  rw [Room.notifyInfoChanged, foldl_tick, RangeOrder.length_visit]
  · rfl
  · intro w k hk
    obtain ⟨u, hu⟩ := GoMap.mem_keys.mp ((RangeOrder.mem_visit _).mp hk)
    simp only [hu]
    rfl

variable {s : Rooms XID} {c : ClientInfo XID} {j : Join} {room : Room XID}

theorem Join.Welcome.announced_tick (h : j.Welcome s c room) (hwf : s.WF env) (hne : j.id ≠ "") :
    (j.announced env c room s.world).tick = j.lookupDraw env c room s.world := by
  have hfresh : c.id ∉ room.users.keys := hwf.fresh h.out h.lookup hne
  have hcard : (j.entered env c room s.world).users.keys.card = room.users.keys.card + 1 := by
    rw [Join.entered, Room.enter, GoMap.keys_insert]
    exact Finset.card_insert_of_notMem hfresh
  have hnotify := notifyInfoChanged_tick env (j.entered env c room s.world)
    (c.userName env j.userName s.world).2
  rw [hcard] at hnotify
  rw [Join.announced, Join.lookupDraw, World.count, hnotify]
  omega

end Draws

section Entering

variable {s s' : Rooms XID} {c : ClientInfo XID} {e : Event XID} {j : Join} {room : Room XID}
  {r : String} {k : XID}

/-- A `create` of a room that exists is a `join`, if it may be. -/
theorem execute_asks (h : e.asks = some j) (hroom : s.rooms.lookup j.id = some room) :
    e.execute env s c = j.execute env s c := by
  cases e with
  | join j' =>
      obtain rfl := Option.some.inj h
      rfl
  | create e =>
      by_cases hjoin : e.joinIfExist
      · rw [Event.asks, if_pos hjoin] at h
        obtain rfl := Option.some.inj h
        by_cases hout : s.connectedTo c.id = ""
        · simp only [Event.execute, Create.execute, if_neg (not_not.mpr hout), hroom,
            if_pos hjoin]
        · simp only [Event.execute, Create.execute, Join.execute, ne_eq, hout, not_false_eq_true,
            if_true]
      · rw [Event.asks, if_neg hjoin] at h
        cases h
  | _ => cases h

theorem execute_unasked (hnamed : e.named = some r) (hroom : s.rooms.lookup r = some room)
    (h : e.asks = none) : ∃ err, e.execute env s c = .error err s := by
  cases e with
  | join j => cases h
  | create e =>
      obtain rfl := Option.some.inj hnamed
      have hjoin : ¬ e.joinIfExist := by
        intro hjoin
        rw [Event.asks, if_pos hjoin] at h
        cases h
      by_cases hout : s.connectedTo c.id = ""
      · simp only [Event.execute, Create.execute, if_neg (not_not.mpr hout), hroom, if_neg hjoin]
        exact ⟨_, rfl⟩
      · simp only [Event.execute, Create.execute, ne_eq, hout, not_false_eq_true, if_true]
        exact ⟨_, rfl⟩
  | _ => cases hnamed

omit [DecidableEq XID] in
theorem Event.asks_named (h : e.asks = some j) : e.named = some j.id := by
  cases e with
  | join j' =>
      obtain rfl := Option.some.inj h
      rfl
  | create e =>
      by_cases hjoin : e.joinIfExist
      · rw [Event.asks, if_pos hjoin] at h
        obtain rfl := Option.some.inj h
        rfl
      · rw [Event.asks, if_neg hjoin] at h
        cases h
  | _ => cases h

/-- A member after an effect was one before, or made the room, or entered it. -/
theorem Effect.member_cases (h : Effect env c s e s') (hwf : s.WF env)
    (hmem : Member s'.rooms k r) : Member s.rooms k r ∨ k = c.id ∧
      ((∃ ce, e = .create ce ∧ ce.authError env c = none ∧ s.rooms.lookup r = none) ∨
        e.named = some r ∧ ∃ room, s.rooms.lookup r = some room) := by
  obtain ⟨room', hroom', hk⟩ := hmem
  rcases h.room_step hwf hroom' with hold | ⟨ce, name, createdAt, he, -, -, hnone, hauth, rfl⟩ |
    ⟨room, hroom, hstep⟩
  · exact Or.inl ⟨room', hold, hk⟩
  · have hkeys := GoMap.keys_insert (∅ : GoMap XID (User XID)) c.id (c.newUser name true)
    have hcreator : k ∈ insert c.id (∅ : GoMap XID (User XID)).keys := hkeys ▸ hk
    have hk := (Finset.mem_insert.mp hcreator).resolve_right (Finset.notMem_empty k)
    exact Or.inr ⟨hk, Or.inl ⟨ce, he, hauth, hnone⟩⟩
  · have hstay (h : k ∈ room.users.keys) : Member s.rooms k r := ⟨room, hroom, h⟩
    cases hstep with
    | enter hnamed _ _ _ _ =>
        rw [Room.openSessions_users] at hk
        rcases (Room.enter_keys room c _ k).mp hk with rfl | hk
        · exact Or.inr ⟨rfl, Or.inr ⟨hnamed, room, hroom⟩⟩
        · exact Or.inl (hstay hk)
    | @update op _ _ _ =>
        have hkeys : (op.apply room).users.keys = room.users.keys := GoMap.keys_mapVals _ _
        exact Or.inl (hstay (hkeys ▸ hk))
    | share _ _ _ _ _ _ _ _ =>
        rw [Room.openSessions_users, Room.startStream_keys] at hk
        exact Or.inl (hstay hk)
    | remove _ _ _ _ hban =>
        have husers := hban.elim (congrArg Room.users) (congrArg Room.users)
        rw [Room.remove_keys, husers] at hk
        exact Or.inl (hstay (Finset.mem_of_mem_erase hk))
    | left _ hleft => exact Or.inl (hstay (Finset.mem_of_mem_erase (hleft.keys ▸ hk)))

/-- `executeNoError` makes nobody a member. -/
theorem member_of_failed (hwf : s.WF env) (hc : c.id ∈ s.connected.keys)
    {d : Disconnected} (hmem : Member (d.executeNoError env s c).rooms k r) :
    Member s.rooms k r := by
  have heffect : Effect env c s (.disconnected d) (d.executeNoError env s c) :=
    disconnected_settles hwf hc d
  rcases heffect.member_cases hwf hmem with hold | ⟨-, ⟨_, he, -⟩ | ⟨hnamed, -⟩⟩
  · exact hold
  · cases he
  · cases hnamed

end Entering

section Step

variable {s t : System XID} {a : Action XID} {info : ClientInfo XID} {e : Event XID} {j : Join}
  {k : XID} {r : String}

theorem member_of_admits (hwf : s.WF env) (h : (machine env server).step s (.receive info e) t)
    (hasks : e.asks = some j) (hadmits : j.Admits env s.rooms info) :
    Member t.rooms.rooms info.id j.id := by
  obtain ⟨room, hwelcome, hlookup⟩ := hadmits
  have hconn := GoMap.mem_keys_of_lookup hwelcome.out
  have hrun : e.execute env s.rooms info = j.execute env s.rooms info :=
    execute_asks hasks hwelcome.lookup
  have hentered : info.id ∈ (j.entered env info room s.rooms.world).users.keys :=
    (Room.enter_keys room info _ info.id).mpr (Or.inl rfl)
  cases hip : env.turnIPProvider (j.announced env info room s.rooms.world).tick with
  | ok p =>
      obtain ⟨os, w, hok, -, -⟩ := hwelcome.execute_ok hwf.rooms hip
      rw [step_of_execute h hconn (hrun.trans hok)]
      refine ⟨_, GoMap.lookup_insert_self _ _ _, ?_⟩
      rw [Room.openSessions_users]
      exact hentered
  | error err =>
      have hempty : j.id = "" := by
        by_contra hne
        obtain ⟨v4, v6, hok⟩ := hlookup.resolve_left hne
        rw [hwelcome.announced_tick hwf.rooms hne, hok] at hip
        cases hip
      have hfail := hwelcome.execute_failed hwf.rooms hip
      rw [step_of_error h hconn (hrun.trans hfail), executeNoError_nowhere]
      · exact ⟨_, GoMap.lookup_insert_self _ _ _, hentered⟩
      · rw [hempty]
        exact GoMap.lookup_insert_self _ _ _

theorem new_member (hwf : s.WF env) (h : (machine env server).step s a t)
    (hmem : Member t.rooms.rooms k r) (hnew : ¬ Member s.rooms.rooms k r) :
    ∃ info e, a = .receive info e ∧ k = info.id ∧
      ((∃ ce, e = .create ce ∧ ce.authError env info = none) ∨
        ∃ j, e.asks = some j ∧ j.Admits env s.rooms info) := by
  obtain ⟨hk, hcase⟩ := ((step_effect hwf h).member_cases hwf.rooms hmem).resolve_left hnew
  rcases hcase with ⟨ce, he, hauth, -⟩ | ⟨hnamed, room, hroom⟩
  · obtain ⟨info, rfl⟩ := receive_of_event he rfl
    exact ⟨info, _, rfl, hk, Or.inl ⟨ce, rfl, hauth⟩⟩
  obtain ⟨info, e, rfl⟩ : ∃ info e, a = .receive info e := by
    cases a with
    | receive info e => exact ⟨info, e, rfl⟩
    | _ => cases hnamed
  have hconn : info.id ∈ s.rooms.connected.keys := by
    by_contra hgone
    rw [step_ignored hgone h] at hmem
    exact hnew hmem
  -- the handler cannot have failed without a trace
  have hfailed : ∀ err, e.execute env s.rooms info ≠ .error err s.rooms := by
    intro err hfail
    rw [step_of_error h hconn hfail] at hmem
    exact hnew (member_of_failed hwf.rooms hconn hmem)
  refine ⟨info, e, rfl, hk, Or.inr ?_⟩
  cases hasks : e.asks with
  | none =>
      obtain ⟨err, hfail⟩ := execute_unasked hnamed hroom hasks
      exact absurd hfail (hfailed err)
  | some j =>
      obtain rfl : j.id = r := Option.some.inj ((Event.asks_named hasks).symm.trans hnamed)
      have hrun : e.execute env s.rooms info = j.execute env s.rooms info :=
        execute_asks hasks hroom
      have hwelcome : j.Welcome s.rooms info room := by
        by_contra hnot
        have hnone : ∀ room', ¬ j.Welcome s.rooms info room' := by
          intro room' hwelcome
          obtain rfl := Option.some.inj (hroom.symm.trans hwelcome.lookup)
          exact hnot hwelcome
        obtain ⟨err, hfail⟩ := Join.execute_refused hconn hnone
        exact hfailed err (hrun.trans hfail)
      refine ⟨j, rfl, room, hwelcome, ?_⟩
      by_cases hempty : j.id = ""
      · exact Or.inl hempty
      refine Or.inr ?_
      rw [← hwelcome.announced_tick hwf.rooms hempty]
      cases hip : env.turnIPProvider (j.announced env info room s.rooms.world).tick with
      | ok p => exact ⟨p.1, p.2, rfl⟩
      | error err =>
          -- the client has left the connected map, so no room but the empty one can list it
          have hfail := hwelcome.execute_failed hwf.rooms hip
          have hlinked := ((hwf.step h).rooms.linked info.id j.id hempty).mpr (hk ▸ hmem)
          exact (gone_of_error h hconn (hrun.trans hfail) (GoMap.mem_keys_of_lookup hlinked)).elim

/-- In the mode `all` strangers become members in one way only. -/
theorem authenticated_step (hall : env.config.authMode = authModeAll) (hwf : s.WF env)
    (hauth : AllAuthenticated s) (h : (machine env server).step s a t) :
    AllAuthenticated t ↔ ¬ StrangerEnters env s a := by
  constructor
  · rintro hauth' henters
    cases a with
    | receive info e =>
        obtain ⟨hstranger, j, hasks, hadmits⟩ := henters
        obtain ⟨info', hinfo', hid, hlogin⟩ := hauth' _ _ (member_of_admits hwf h hasks hadmits)
        have hdistinct := (hwf.step h).distinct
        rw [List.map_append, List.nodup_append] at hdistinct
        obtain rfl := List.inj_on_of_nodup_map hdistinct.2.1 hinfo' (step_clients h h.1.1) hid
        exact hstranger hlogin
    | _ => exact henters
  · intro hnot k r hmem
    by_cases hold : Member s.rooms.rooms k r
    · obtain ⟨info, hinfo, hid, hlogin⟩ := hauth k r hold
      exact ⟨info, step_clients h hinfo, hid, hlogin⟩
    · obtain ⟨info, e, rfl, rfl, hcase⟩ := new_member hwf h hmem hold
      refine ⟨info, step_clients h h.1.1, rfl, ?_⟩
      by_contra hstranger
      rcases hcase with ⟨ce, -, hce⟩ | ⟨j, hasks, hadmits⟩
      · have hnone : env.config.authMode ≠ authModeNone := by
          rw [hall]
          decide
        rw [Create.authError, if_neg hnone, if_pos hall, if_pos hstranger] at hce
        cases hce
      · exact hnot ⟨hstranger, j, hasks, hadmits⟩

end Step

/-- In the mode `all` every member has a login throughout a run exactly if no step of it is the one
way in that does not ask. -/
theorem run_authenticated_iff (hall : env.config.authMode = authModeAll)
    {l : List (System XID × Action XID)} {t : System XID}
    (h : (machine env server).Run (machine env server).init l t) :
    ((∀ p ∈ l, AllAuthenticated p.1) ∧ AllAuthenticated t) ↔
      ∀ p ∈ l, ¬ StrangerEnters env p.1 p.2 := by
  refine h.always_iff (Q := fun s a ↦ ¬ StrangerEnters env s a) ?_ ?_
  · rintro k r ⟨room, hroom, -⟩
    cases hroom
  · intro s t a hreach hauth hstep
    exact authenticated_step hall (reachable_wf hreach) hauth hstep

/-- A client with a login opens a room. -/
def loggedIn : ClientInfo ℕ := ⟨0, true, "alice", [127, 0, 0, 1]⟩

def privateRoom : List (Action ℕ) :=
  [.dial true "alice" [127, 0, 0, 1], .dial false "" [127, 0, 0, 1], .connect loggedIn,
    .connect (guest 1), .receive loggedIn (.create ⟨"lobby", "local", false, "", false⟩)]

theorem run_authenticated_privateRoom :
    ((∀ p ∈ (System.history (Env.sample authModeAll) (.internal ⟨∅⟩) privateRoom).1,
        AllAuthenticated p.1) ∧
      AllAuthenticated
        (System.history (Env.sample authModeAll) (.internal ⟨∅⟩) privateRoom).2) ↔
      ∀ p ∈ (System.history (Env.sample authModeAll) (.internal ⟨∅⟩) privateRoom).1,
        ¬ StrangerEnters (Env.sample authModeAll) p.1 p.2 :=
  run_authenticated_iff rfl (System.run_history _ _ _)

/-- A guest joins it. -/
theorem strangers_enter : ¬ ∀ s, (machine (Env.sample authModeAll) (.internal ⟨∅⟩)).Reachable s →
    AllAuthenticated s := by
  intro h
  have hauth := h _ (System.reachable_after (Env.sample authModeAll) (.internal ⟨∅⟩)
    (privateRoom ++ [.receive (guest 1) (.join ⟨"lobby", ""⟩)]))
  obtain ⟨info, hinfo, hid, hlogin⟩ := hauth 1 "lobby" (by decide +kernel)
  have hclients : ∀ info ∈ (System.after (Env.sample authModeAll) (.internal ⟨∅⟩)
      (privateRoom ++ [.receive (guest 1) (.join ⟨"lobby", ""⟩)])).clients,
      info.id = 1 → ¬ info.authenticated := by
    decide +kernel
  exact hclients info hinfo hid hlogin

end Screego
