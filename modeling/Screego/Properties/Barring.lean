import Screego.Properties.Bans
import Screego.Spec.Serving
import Screego.Ws.Upgrade

/-!
# Whom a ban hits

The ban list holds texts of addresses.  Every text on it was put there by a ban
during the life of the room, and no two addresses share a text, so the list turns
away exactly the addresses of those who were banned.
-/

namespace Screego

open Outgoing World Rooms

variable {XID : Type} [DecidableEq XID] {env : Env XID} {server : Turn.Server}

/-- In the state `s` the action `a` bans the member `user` of the room under `r`. -/
def BanOf (env : Env XID) (r : String) (user : User XID) (s : System XID) (a : Action XID) :
    Prop :=
  ∃ info act room k, a = .receive info (.ownerAction act) ∧ act.action = "ban" ∧
    s.rooms.In info.id r room ∧ room.OwnedBy info.id ∧ act.Targets env info.id k ∧
    room.users.lookup k = some user

/-- Some step of the run bans the address `addr`, and the room is there ever since. -/
inductive BannedSince (env : Env XID) (r : String) (addr : IP) :
    List (System XID × Action XID) → Prop
  | ban {l : List (System XID × Action XID)} {s : System XID} {a : Action XID} {user : User XID}
      (hban : BanOf env r user s a) (haddr : user.addr = addr) :
      BannedSince env r addr (l ++ [(s, a)])
  | later {l : List (System XID × Action XID)} {s : System XID} {a : Action XID}
      (h : BannedSince env r addr l) (hroom : ∃ room, s.rooms.rooms.lookup r = some room) :
      BannedSince env r addr (l ++ [(s, a)])

section Step

variable {s s' : Rooms XID} {c : ClientInfo XID} {e : Event XID} {r : String} {room' : Room XID}

/-- A text on a ban list was there before, or this message bans a member with it. -/
theorem Effect.bans (h : Effect env c s e s') (hroom' : s'.rooms.lookup r = some room')
    {a : String} (hbans : room'.Bans a) :
    (∃ room, s.rooms.lookup r = some room ∧ room.Bans a) ∨
      ∃ act k room user, e = .ownerAction act ∧ act.action = "ban" ∧ s.In c.id r room ∧
        room.OwnedBy c.id ∧ act.Targets env c.id k ∧ room.users.lookup k = some user ∧
        user.addr.toString = a := by
  cases h with
  | idle _ => exact Or.inl ⟨room', hroom', hbans⟩
  | connect => exact Or.inl ⟨room', hroom', hbans⟩
  | relay _ _ _ _ _ => exact Or.inl ⟨room', hroom', hbans⟩
  | joinFailed _ _ _ _ _ _ _ _ => exact Or.inl ⟨room', hroom', hbans⟩
  | leaveNowhere _ _ => exact Or.inl ⟨room', hroom', hbans⟩
  | create _ _ _ _ _ =>
      rcases lookup_insert_cases hroom' with ⟨rfl, rfl⟩ | hold
      · cases hbans
      · exact Or.inl ⟨room', hold, hbans⟩
  | join _ _ hroom _ _ _ _ =>
      rcases lookup_insert_cases hroom' with ⟨rfl, rfl⟩ | hold
      · exact Or.inl ⟨_, hroom, hbans⟩
      · exact Or.inl ⟨room', hold, hbans⟩
  | haunt _ _ hroom _ _ _ =>
      rcases lookup_insert_cases hroom' with ⟨rfl, rfl⟩ | hold
      · exact Or.inl ⟨_, hroom, hbans⟩
      · exact Or.inl ⟨room', hold, hbans⟩
  | update hin _ _ _ _ =>
      rcases lookup_insert_cases hroom' with ⟨rfl, rfl⟩ | hold
      · exact Or.inl ⟨_, hin.lookup, hbans⟩
      · exact Or.inl ⟨room', hold, hbans⟩
  | share hin _ _ _ _ _ _ _ =>
      rcases lookup_insert_cases hroom' with ⟨rfl, rfl⟩ | hold
      · exact Or.inl ⟨_, hin.lookup, hbans⟩
      · exact Or.inl ⟨room', hold, hbans⟩
  | remove hin howner ht htarget hban _ _ =>
      rcases lookup_insert_cases hroom' with ⟨rfl, rfl⟩ | hold
      · rcases hban with ⟨-, rfl⟩ | ⟨haction, rfl⟩
        · exact Or.inl ⟨_, hin.lookup, hbans⟩
        · rcases Room.bans_banAddr.mp hbans with rfl | hbans
          · exact Or.inr ⟨_, _, _, _, rfl, haction, hin, howner, ht, htarget, rfl⟩
          · exact Or.inl ⟨_, hin.lookup, hbans⟩
      · exact Or.inl ⟨room', hold, hbans⟩
  | leave hin hleft =>
      cases hleft with
      | stay hleft _ _ _ =>
          rcases lookup_insert_cases hroom' with ⟨rfl, rfl⟩ | hold
          · rw [Room.Bans, hleft.bannedIPs] at hbans
            exact Or.inl ⟨_, hin.lookup, hbans⟩
          · exact Or.inl ⟨room', hold, hbans⟩
      | last _ _ => exact Or.inl ⟨room', GoMap.lookup_of_erase hroom', hbans⟩
  | dissolve _ _ _ _ _ => exact Or.inl ⟨room', GoMap.lookup_of_erase hroom', hbans⟩

/-- A member after a message has the address of a member before it, or of the client that sent
it. -/
theorem Effect.member_addr (h : Effect env c s e s') (hwf : s.WF env)
    (hroom' : s'.rooms.lookup r = some room') {k : XID} {u : User XID}
    (hu : room'.users.lookup k = some u) :
    (∃ room k' v, s.rooms.lookup r = some room ∧ room.users.lookup k' = some v ∧
      v.addr = u.addr) ∨ u.addr = c.addr ∧ e.named = some r := by
  rcases h.room_step hwf hroom' with hold | ⟨ce, name, createdAt, rfl, hid, -, -, -, rfl⟩ |
    ⟨room, hroom, hstep⟩
  · exact Or.inl ⟨room', k, u, hold, hu, rfl⟩
  · obtain ⟨-, rfl⟩ := Room.create_lookup hu
    exact Or.inr ⟨rfl, congrArg some hid.symm⟩
  · cases hstep with
    | enter hnamed _ _ _ _ =>
        rw [Room.openSessions_users] at hu
        rcases Room.enter_lookup.mp hu with ⟨-, rfl⟩ | ⟨-, hu⟩
        · exact Or.inr ⟨rfl, hnamed⟩
        · exact Or.inl ⟨room, k, u, hroom, hu, rfl⟩
    | update _ _ _ =>
        obtain ⟨v, hv, rfl⟩ := RoomOp.apply_lookup.mp hu
        exact Or.inl ⟨room, k, v, hroom, hv, (RoomOp.update_addr _ k v).symm⟩
    | share _ _ _ _ _ _ _ _ =>
        rw [Room.openSessions_users] at hu
        obtain ⟨v, hv, rfl⟩ := Room.startStream_lookup.mp hu
        refine Or.inl ⟨room, k, v, hroom, hv, ?_⟩
        split <;> rfl
    | remove _ _ _ _ hban =>
        have hold := (Room.remove_lookup.mp hu).2
        rcases hban with rfl | rfl
        · exact Or.inl ⟨_, k, u, hroom, hold, rfl⟩
        · exact Or.inl ⟨room, k, u, hroom, hold, rfl⟩
    | left _ hleft =>
        obtain ⟨v, hv, haddr⟩ := hleft.addr hu
        exact Or.inl ⟨room, k, v, hroom, hv, haddr⟩

end Step

/-! ## Addresses in a run -/

/-- The clients and the members of rooms have addresses of the kind `P`. -/
structure AddressesOf (P : IP → Prop) (s : System XID) : Prop where
  clients : ∀ c ∈ s.dialing ++ s.clients, P c.addr
  members : ∀ r room k u, s.rooms.rooms.lookup r = some room → room.users.lookup k = some u →
    P u.addr

/-- The address of a client that dials. -/
def Action.dials : Action XID → Option IP
  | .dial _ _ addr => some addr
  | _ => none

/-- Every address that a client dials with is of the kind `P`. -/
def DialsFrom (P : IP → Prop) (l : List (System XID × Action XID)) : Prop :=
  ∀ p ∈ l, ∀ addr ∈ p.2.dials, P addr

theorem AddressesOf.step {P : IP → Prop} {s t : System XID} {a : Action XID} (h : AddressesOf P s)
    (hwf : s.WF env) (hst : (machine env server).step s a t)
    (hdial : ∀ addr ∈ a.dials, P addr) : AddressesOf P t := by
  refine ⟨?_, ?_⟩
  · have hnext := hst.2
    cases a with
    | dial authenticated authenticatedUser addr =>
        obtain rfl := Option.some.inj hnext
        intro c hc
        rcases List.mem_cons.mp hc with rfl | hc
        · exact hdial addr rfl
        · exact h.clients c hc
    | connect info =>
        simp only [System.next, Option.bind_eq_bind, Option.bind_eq_some_iff, Option.pure_def,
          Option.some.injEq] at hnext
        obtain ⟨s', -, rfl⟩ := hnext
        intro c hc
        rcases List.mem_append.mp hc with hc | hc
        · exact h.clients c (List.mem_append_left _ (List.mem_of_mem_erase hc))
        · rcases List.mem_cons.mp hc with rfl | hc
          · exact h.clients c (List.mem_append_left _ hst.1)
          · exact h.clients c (List.mem_append_right _ hc)
    | receive info event =>
        simp only [System.next, Option.bind_eq_bind, Option.bind_eq_some_iff, Option.pure_def,
          Option.some.injEq] at hnext
        obtain ⟨s', -, rfl⟩ := hnext
        exact h.clients
    | health =>
        simp only [System.next, Option.bind_eq_bind, Option.bind_eq_some_iff, Option.pure_def,
          Option.some.injEq] at hnext
        obtain ⟨s', -, rfl⟩ := hnext
        exact h.clients
  · intro r room' k u hroom' hu
    rcases (step_effect hwf hst).member_addr hwf.rooms hroom' hu with
      ⟨room, k', v, hroom, hv, haddr⟩ | ⟨haddr, hnamed⟩
    · exact haddr ▸ h.members r room k' v hroom hv
    · -- the new member is the client that sent the message
      cases a with
      | receive info event =>
          rw [haddr]
          exact h.clients info (List.mem_append_right _ hst.1.1)
      | dial _ _ _ => cases hnamed
      | connect _ => cases hnamed
      | health => cases hnamed

variable {l : List (System XID × Action XID)} {t : System XID} {r : String} {room : Room XID}

theorem run_addressesOf {P : IP → Prop}
    (hrun : (machine env server).Run (machine env server).init l t) (hdials : DialsFrom P l) :
    AddressesOf P t := by
  induction hrun with
  | nil => exact ⟨by simp [machine], fun _ _ _ _ h ↦ by cases h⟩
  | @snoc l s t a hr hst ih =>
      have hs := ih fun p hp ↦ hdials p (List.mem_append_left _ hp)
      exact hs.step (reachable_wf ⟨l, hr⟩) hst
        (hdials (s, a) (List.mem_append_right _ List.mem_cons_self))

/-! ## The ban list of a room -/

/-- The texts on the ban list of a room are those of the addresses banned during its life. -/
theorem bans_iff (hrun : (machine env server).Run (machine env server).init l t)
    (hroom : t.rooms.rooms.lookup r = some room) {a : String} :
    room.Bans a ↔ ∃ addr, BannedSince env r addr l ∧ addr.toString = a := by
  constructor
  · intro hbans
    induction hrun generalizing room with
    | nil => cases hroom
    | @snoc l s t b hr hst ih =>
        have heffect := step_effect (reachable_wf ⟨l, hr⟩) hst
        rcases heffect.bans hroom hbans with ⟨old, hold, hbanned⟩ |
          ⟨act, k, old, user, hevent, haction, hin, howner, ht, huser, htext⟩
        · obtain ⟨addr, hsince, htext⟩ := ih hold hbanned
          exact ⟨addr, hsince.later ⟨old, hold⟩, htext⟩
        · obtain ⟨info, rfl⟩ := receive_of_event hevent rfl
          exact ⟨user.addr,
            .ban ⟨info, act, old, k, rfl, haction, hin, howner, ht, huser⟩ rfl, htext⟩
  · rintro ⟨addr, hsince, rfl⟩
    induction hsince generalizing t room with
    | @ban l s b user hban haddr =>
        obtain ⟨hr, hst⟩ := hrun.last
        obtain ⟨info, act, old, k, hb, haction, hin, howner, ht, huser⟩ := hban
        subst haddr
        dsimp only at hb hst
        subst hb
        obtain ⟨s', hexecute, hrooms⟩ := OwnerAction.acts_ok (reachable_wf ⟨l, hr⟩).rooms hin
          howner (.ban haction ht huser)
        rw [step_of_execute hst (GoMap.mem_keys_of_lookup hin.connected) hexecute, hrooms,
          GoMap.lookup_insert_self] at hroom
        rw [← Option.some.inj hroom]
        exact Room.bans_banAddr.mpr (Or.inl rfl)
    | @later l s b _ hthere ih =>
        obtain ⟨hr, hst⟩ := hrun.last
        obtain ⟨old, hold⟩ := hthere
        exact (step_bans (reachable_wf ⟨l, hr⟩) hst hold hroom).kept _ (ih hr hold)

theorem BannedSince.addressesOf {P : IP → Prop} {addr : IP} (h : BannedSince env r addr l)
    (hrun : (machine env server).Run (machine env server).init l t) (hdials : DialsFrom P l) :
    P addr := by
  induction h generalizing t with
  | @ban l s a user hban haddr =>
      obtain ⟨hr, -⟩ := hrun.last
      obtain ⟨info, act, room, k, -, -, hin, -, -, huser⟩ := hban
      have hs := run_addressesOf hr fun p hp ↦ hdials p (List.mem_append_left _ hp)
      exact haddr ▸ hs.members r room k user hin.lookup huser
  | later _ _ ih =>
      exact ih hrun.last.1 fun p hp ↦ hdials p (List.mem_append_left _ hp)

/-- The address is the one that `newClient` takes from some request. -/
def FromRequest (addr : IP) : Prop :=
  ∃ (trustProxy : Bool) (req : Request),
    (req.remoteAddr.length = 4 ∨ req.remoteAddr.length = 16) ∧ addr = req.addr trustProxy

theorem FromRequest.valid {addr : IP} (h : FromRequest addr) : addr.Valid := by
  obtain ⟨trustProxy, req, hremote, rfl⟩ := h
  exact Request.valid_addr hremote trustProxy

/-! ## Who is turned away -/

/-- The handler makes the client a member of the room under `r`, also where it fails behind. -/
def Event.Admits (env : Env XID) (s : Rooms XID) (c : ClientInfo XID) (r : String)
    (e : Event XID) : Prop :=
  ∃ s', (e.execute env s c = .ok s' ∨ ∃ err, e.execute env s c = .error err s') ∧
    ∃ room, s'.rooms.lookup r = some room ∧ c.id ∈ room.users.keys

section Asking

variable {s : Rooms XID} {c : ClientInfo XID} {e : Event XID} {j : Join}

theorem Join.execute_banned (env : Env XID) (hout : s.connected.lookup c.id = some "")
    (hroom : s.rooms.lookup j.id = some room) (hban : room.Bans c.addr.toString) :
    j.execute env s c = .error "bannedFromRoom" s := by
  have hfirst : ¬ s.connectedTo c.id ≠ "" := by
    rw [connectedTo, hout]
    simp
  have hbanned : (room.bannedIPs.lookup c.addr.toString).getD false := by
    rw [show room.bannedIPs.lookup c.addr.toString = some true from hban]
    rfl
  simp only [Join.execute, if_neg hfirst, hroom, if_pos hbanned]

/-- A client whose checks pass is let in, and no error is that of a ban. -/
theorem Join.Welcome.admits (h : j.Welcome s c room) (hwf : s.WF env) :
    (Event.join j).Admits env s c j.id ∧ j.execute env s c ≠ .error "bannedFromRoom" s := by
  have hself : c.id ∈ (j.entered env c room s.world).users.keys :=
    (Room.enter_keys _ _ _ _).mpr (Or.inl rfl)
  cases hip : env.turnIPProvider (j.announced env c room s.world).tick with
  | error err =>
      have hfailed := h.execute_failed hwf hip
      refine ⟨⟨_, Or.inr ⟨err, hfailed⟩, _, GoMap.lookup_insert_self _ _ _, hself⟩, fun heq ↦ ?_⟩
      -- a failure behind the checks has asked the provider
      obtain ⟨-, hworld⟩ := Outcome.error.inj (hfailed.symm.trans heq)
      obtain ⟨_, -, hannounced⟩ := h.announced_change hwf
      have htick : (j.announced env c room s.world).tick + 1 = s.world.tick :=
        congrArg (fun s : Rooms XID ↦ s.world.tick) hworld
      have hle := hannounced.tick
      omega
  | ok addresses =>
      obtain ⟨v4, v6⟩ := addresses
      obtain ⟨os, w, hok, -⟩ := h.execute_ok hwf hip
      refine ⟨⟨_, Or.inl hok, _, GoMap.lookup_insert_self _ _ _, ?_⟩, fun heq ↦ ?_⟩
      · rwa [Room.openSessions_users]
      · rw [hok] at heq
        cases heq

/-- The list decides about a client that asks. -/
theorem Event.AsksFor.answer (h : e.AsksFor r) (hwf : s.WF env)
    (hout : s.connected.lookup c.id = some "") (hroom : s.rooms.lookup r = some room) :
    (e.execute env s c = .error "bannedFromRoom" s ↔ room.Bans c.addr.toString) ∧
      (¬ room.Bans c.addr.toString → e.Admits env s c r) := by
  have hjoin : ∃ j : Join, j.id = r ∧ e.execute env s c = j.execute env s c :=
    h.execute_eq hout hroom
  obtain ⟨j, rfl, heq⟩ := hjoin
  unfold Event.Admits
  rw [heq]
  by_cases hban : room.Bans c.addr.toString
  · exact ⟨iff_of_true (Join.execute_banned env hout hroom hban) hban, fun hnot ↦ absurd hban hnot⟩
  · obtain ⟨hadmits, hne⟩ := Join.Welcome.admits ⟨hout, hroom, hban⟩ hwf
    exact ⟨iff_of_false hne hban, fun _ ↦ hadmits⟩

end Asking

/-- A room turns a client away exactly if a member with the same address was banned from it, and
it lets in every other client that asks. -/
theorem barred_iff_banned (hrun : (machine env server).Run (machine env server).init l t)
    (hdials : DialsFrom FromRequest l) (hroom : t.rooms.rooms.lookup r = some room)
    {info : ClientInfo XID} (hinfo : info ∈ t.clients)
    (hout : t.rooms.connected.lookup info.id = some "") {e : Event XID} (he : e.AsksFor r) :
    (e.execute env t.rooms info = .error "bannedFromRoom" t.rooms ↔
      ∃ addr, BannedSince env r addr l ∧ addr.to16 = info.addr.to16) ∧
    ((¬ ∃ addr, BannedSince env r addr l ∧ addr.to16 = info.addr.to16) →
      e.Admits env t.rooms info r) := by
  have hlisted : room.Bans info.addr.toString ↔
      ∃ addr, BannedSince env r addr l ∧ addr.to16 = info.addr.to16 := by
    have hvalid := (run_addressesOf hrun hdials).clients info (List.mem_append_right _ hinfo)
    rw [bans_iff hrun hroom]
    refine exists_congr fun addr ↦ and_congr_right fun hsince ↦ ?_
    exact IP.toString_eq_iff (hsince.addressesOf hrun hdials).valid hvalid.valid
  rw [← hlisted]
  exact he.answer (reachable_wf ⟨l, hrun⟩).rooms hout hroom

/-- A meeting whose owner bans the other member. -/
def banned : List (Action ℕ) :=
  meeting "local" ++ [.receive (guest 0) (.ownerAction banishment)]

/-- The third client of a meeting comes from the address that was banned, and asks to enter. -/
theorem barred_iff_banned_banishment :
    (Event.join ⟨"lobby", ""⟩).execute (Env.sample authModeNone)
        (System.after (Env.sample authModeNone) (.internal ⟨∅⟩) banned).rooms (guest 2) =
      .error "bannedFromRoom"
        (System.after (Env.sample authModeNone) (.internal ⟨∅⟩) banned).rooms ∧
    ∃ addr, BannedSince (Env.sample authModeNone) "lobby" addr
      (System.history (Env.sample authModeNone) (.internal ⟨∅⟩) banned).1 ∧
      addr.to16 = (guest 2).addr.to16 := by
  have hout : (System.after (Env.sample authModeNone) (.internal ⟨∅⟩)
      banned).rooms.connected.lookup (guest 2).id = some "" := by
    decide +kernel
  have hlisted : ((System.after (Env.sample authModeNone) (.internal ⟨∅⟩)
      banned).rooms.rooms.lookup "lobby").any fun room ↦
        room.bannedIPs.lookup (guest 2).addr.toString = some true := by
    decide +kernel
  obtain ⟨room, hroom, hban⟩ := (Option.any_eq_true _ _).mp hlisted
  have hall : ((System.history (Env.sample authModeNone) (.internal ⟨∅⟩) banned).1.map
      Prod.snd).all (fun a ↦ a.dials.all fun addr ↦ decide (addr = [127, 0, 0, 1])) = true := by
    decide +kernel
  have hdials : DialsFrom FromRequest
      (System.history (Env.sample authModeNone) (.internal ⟨∅⟩) banned).1 := by
    intro p hp addr hdial
    have haddr := List.all_eq_true.mp hall p.2 (List.mem_map_of_mem hp)
    rw [hdial] at haddr
    exact ⟨false, ⟨"", "", addr, ""⟩, Or.inl (by simp [of_decide_eq_true haddr]), rfl⟩
  have hbans : room.bannedIPs.lookup (guest 2).addr.toString = some true := of_decide_eq_true hban
  have hturned := Join.execute_banned (Env.sample authModeNone) (j := ⟨"lobby", ""⟩) hout hroom
    hbans
  exact ⟨hturned, (barred_iff_banned (System.run_history _ _ _) hdials hroom (by decide +kernel)
    hout (e := .join ⟨"lobby", ""⟩) rfl).1.mp hturned⟩

end Screego
