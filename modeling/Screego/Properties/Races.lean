import Screego.Properties.Departed
import Screego.Properties.Failures
import Screego.Properties.Views
import Screego.Ui.Room

/-!
# Requests that come too late

A page asks for what its member list allows.  When the main loop gets to the
request, the target may have left or somebody else may be on the air, and a
request that is refused costs the sender its place in the room.  Nothing else
does.
-/

namespace Screego

open Outgoing World Rooms

variable {XID : Type} [DecidableEq XID] {env : Env XID} {server : Turn.Server}

/-! ## The line that is marked -/

/-- Every member list marks the line of the member that it is for, and no other. -/
def OwnLines (msgs : List (XID × Message XID)) : Prop :=
  ∀ k id mode users, (k, .room id mode users) ∈ msgs → ∀ v ∈ users, v.you ↔ v.id = k

section Lines

variable {msgs msgs' : List (XID × Message XID)} {k : XID} {m : Message XID}

omit [DecidableEq XID] in
theorem OwnLines.append (h : OwnLines msgs) (h' : OwnLines msgs') : OwnLines (msgs ++ msgs') := by
  intro k id mode users hm
  rcases List.mem_append.mp hm with hm | hm
  · exact h k id mode users hm
  · exact h' k id mode users hm

omit [DecidableEq XID] in
theorem OfKind.ownLines {κ : Kind} (h : OfKind κ msgs) (hκ : κ ≠ .view) : OwnLines msgs := by
  intro k id mode users hm
  exact absurd (h k _ hm).symm hκ

omit [DecidableEq XID] in
theorem ownLines_single (hm : m.kind ≠ .view) : OwnLines [(k, m)] := by
  refine OfKind.ownLines (κ := m.kind) (fun k' m' h ↦ ?_) hm
  rw [(Prod.mk.inj (List.mem_singleton.mp h)).2]

theorem Room.Announces.ownLines {room : Room XID} (h : room.Announces msgs)
    (hkeyed : room.Keyed) : OwnLines msgs := by
  intro k id mode users hm
  obtain ⟨-, view, heq, hshows⟩ := h.eq_room hm
  obtain ⟨-, -, rfl⟩ := Message.room.inj heq
  exact (hshows.isView hkeyed).you

end Lines

section Effect

variable {s s' : Rooms XID} {c : ClientInfo XID} {e : Event XID}

theorem Effect.ownLines (h : Effect env c s e s') (hwf : s.WF env) (hwf' : s'.WF env) :
    OwnLines (s.world.since s'.world) := by
  have hkeyed' {r : String} {room : Room XID} (hroom : s'.rooms.lookup r = some room) :
      room.Keyed := (hwf'.sound r room hroom).keyed
  have hsessions (os : List (OpenedSession XID)) : OwnLines (os.flatMap OpenedSession.messages) :=
    (OpenedSession.ofKind_messages os).ownLines (by decide)
  have hclose (k : XID) (code : ℤ) (reason : String) :
      OwnLines [(k, (.closeWriter code reason : Message XID))] := ownLines_single (by exact nofun)
  cases h with
  | idle hworld =>
      rw [hworld.since]
      exact fun _ _ _ _ hm ↦ by cases hm
  | connect =>
      rw [since_self]
      exact fun _ _ _ _ hm ↦ by cases hm
  | relay hrelay _ _ _ hworld =>
      rw [hworld.since]
      refine ownLines_single ?_
      rw [Event.relayed_msg hrelay]
      decide
  | create _ _ _ htold hworld =>
      rw [hworld.since]
      exact htold.ownLines (hkeyed' (GoMap.lookup_insert_self _ _ _))
  | @join _ _ name room os _ _ _ _ _ _ _ htold hworld =>
      rw [hworld.since]
      have hkeyed : ((room.enter (c.newUser name false)).openSessions os).Keyed :=
        hkeyed' (GoMap.lookup_insert_self _ _ _)
      exact (htold.ownLines hkeyed).append (hsessions os)
  | @joinFailed _ _ name _ _ _ _ _ _ _ hout hroom _ _ htold htold' hworld =>
      rw [hworld.since]
      have hsound := hwf.sound _ _ hroom
      have hentered := hsound.enter c name (hwf.fresh hout hroom)
      exact (htold.ownLines hentered.keyed).append
        ((hclose _ _ _).append (htold'.ownLines hsound.keyed))
  | haunt _ _ _ _ htold hworld =>
      rw [hworld.since]
      exact (htold.ownLines (hkeyed' (GoMap.lookup_insert_self _ _ _))).append (hclose _ _ _)
  | update _ _ hended htold hworld =>
      rw [hworld.since]
      exact ((hended.ofKind (e.mem_notices c.id)).ownLines (by decide)).append
        (htold.ownLines (hkeyed' (GoMap.lookup_insert_self _ _ _)))
  | @share r room _ os _ _ _ _ _ _ _ _ htold hworld =>
      rw [hworld.since]
      have hkeyed : ((room.startStream c.id).openSessions os).Keyed :=
        hkeyed' (GoMap.lookup_insert_self _ _ _)
      exact (hsessions os).append (htold.ownLines hkeyed)
  | remove _ _ _ _ _ htold hworld =>
      rw [hworld.since]
      exact (hclose _ _ _).append (htold.ownLines (hkeyed' (GoMap.lookup_insert_self _ _ _)))
  | leave _ hleft =>
      cases hleft with
      | stay _ hended htold hworld =>
          rw [hworld.since]
          have hover := (hended.ofKind fun _ _ _ _ h ↦ h).ownLines (by decide)
          exact (hclose _ _ _).append
            (hover.append (htold.ownLines (hkeyed' (GoMap.lookup_insert_self _ _ _))))
      | last _ hworld =>
          rw [hworld.since]
          exact hclose _ _ _
  | leaveNowhere _ hworld =>
      rw [hworld.since]
      exact hclose _ _ _
  | @dissolve _ _ ks _ _ _ _ _ hworld =>
      rw [hworld.since]
      intro k id mode users hm
      obtain ⟨k', -, heq⟩ := List.mem_map.mp hm
      cases (Prod.mk.inj heq).2

end Effect

theorem reachable_ownLines {s : System XID} (h : (machine env server).Reachable s) :
    OwnLines s.rooms.world.out := by
  refine h.invariant (I := fun s ↦ OwnLines s.rooms.world.out) ?_ ?_
  · exact fun _ _ _ _ hm ↦ by cases hm
  · intro s t a hreach hlines hstep
    have hwf := reachable_wf hreach
    rw [step_out hwf hstep]
    exact hlines.append ((step_effect hwf hstep).ownLines hwf.rooms (hwf.step hstep).rooms)

/-! ## What a page can have sent -/

/-- The requests that some member list of `k` allows. -/
def Sendable (env : Env XID) (k : XID) : Event XID → Prop
  | .startShare => True
  | .ownerAction e => e.action ∈ roomActions ∨
      e.action ∈ memberActions ∧ ∃ t ≠ k, e.targetUserID = env.xid.toString t
  | .stopShare => True
  | .name _ => True
  | _ => False

omit [DecidableEq XID] in
theorem sendable_of_offers {users : List (Outgoing.User XID)} {k : XID} {e : Event XID}
    (hlines : ∀ v ∈ users, v.you ↔ v.id = k) (h : offers env users e) : Sendable env k e := by
  cases e with
  | ownerAction e =>
      simp only [offers, Bool.and_eq_true, Bool.or_eq_true, decide_eq_true_eq, List.any_eq_true,
        Bool.not_eq_true'] at h
      obtain ⟨-, haction | ⟨haction, v, hv, hyou, htarget⟩⟩ := h
      · exact Or.inl haction
      · refine Or.inr ⟨haction, v.id, fun hid ↦ ?_, htarget⟩
        rw [(hlines v hv).mpr hid] at hyou
        cases hyou
  | startShare => trivial
  | stopShare => trivial
  | name _ => trivial
  | _ => exact absurd h (by simp [offers])

section Pages

variable {p p' : Pages XID} {x : Exchange XID}

theorem act_eq (server : Turn.Server) {a : Action XID} (h : p.act env a = some p') :
    ∃ t, (machine env server).step p.system a t ∧ p' = { p with system := t } := by
  unfold Pages.act at h
  split at h
  · next henabled =>
      obtain ⟨t, ht, rfl⟩ := Option.map_eq_some_iff.mp h
      exact ⟨t, ⟨henabled, ht⟩, rfl⟩
  · cases h

theorem take_eq (server : Turn.Server) {info : ClientInfo XID}
    (h : p.next env (.take info) = some p') :
    ∃ e rest t, p.sent info.id = e :: rest ∧
      (machine env server).step p.system (.receive info e) t ∧
      p' = { p with system := t, sent := Function.update p.sent info.id rest } := by
  simp only [Pages.next] at h
  split at h
  · next e rest hsent =>
      obtain ⟨q, hq, rfl⟩ := Option.map_eq_some_iff.mp h
      obtain ⟨t, ht, rfl⟩ := act_eq server hq
      exact ⟨e, rest, t, hsent, ht, rfl⟩
  · cases h

/-- Every page shows a list that was handed over for it, and has sent what some list allowed. -/
structure Pages.Honest (env : Env XID) (server : Turn.Server) (p : Pages XID) : Prop where
  reachable : (machine env server).Reachable p.system
  shown : ∀ k users, p.shown k = some users →
    ∃ id mode, (k, .room id mode users) ∈ p.system.rooms.world.out
  sent : ∀ k, ∀ e ∈ p.sent k, Sendable env k e

theorem Pages.Honest.act (h : p.Honest env server) {a : Action XID}
    (hact : p.act env a = some p') : p'.Honest env server := by
  obtain ⟨t, ht, rfl⟩ := act_eq server hact
  refine ⟨h.reachable.step ht, fun k users hshown ↦ ?_, h.sent⟩
  obtain ⟨id, mode, hm⟩ := h.shown k users hshown
  rw [step_out (reachable_wf h.reachable) ht]
  exact ⟨id, mode, List.mem_append_left _ hm⟩

theorem Pages.Honest.onMessage (h : p.Honest env server) {k : XID} {msg : Message XID}
    (hmsg : (k, msg) ∈ p.system.rooms.world.out) : (p.onMessage k msg).Honest env server := by
  have hupdate {view : Option (List (Outgoing.User XID))}
      (hview : ∀ users, view = some users →
        ∃ id mode, (k, .room id mode users) ∈ p.system.rooms.world.out) :
      ({ p with shown := Function.update p.shown k view } : Pages XID).Honest env server := by
    refine ⟨h.reachable, fun k' users hshown ↦ ?_, h.sent⟩
    by_cases hk : k' = k
    · subst hk
      simp only [Function.update_self] at hshown
      exact hview users hshown
    · simp only [Function.update_of_ne hk] at hshown
      exact h.shown k' users hshown
  cases msg with
  | room id mode users =>
      refine hupdate fun users' heq ↦ ?_
      obtain rfl := Option.some.inj heq
      exact ⟨id, mode, hmsg⟩
  | closeWriter _ _ => exact hupdate nofun
  | _ => exact h

theorem Pages.Honest.next (h : p.Honest env server) (hnext : p.next env x = some p') :
    p'.Honest env server := by
  cases x with
  | deliver k n =>
      simp only [Pages.next] at hnext
      split at hnext
      · next k' msg hget =>
          split at hnext
          · next hk =>
              obtain rfl := Option.some.inj hnext
              have hread : ({ p with read := Function.update p.read k (n + 1) } :
                  Pages XID).Honest env server := ⟨h.reachable, h.shown, h.sent⟩
              exact hread.onMessage (hk.1 ▸ List.mem_of_getElem? hget)
          · cases hnext
      · cases hnext
  | send k e =>
      simp only [Pages.next] at hnext
      split at hnext
      · next users hshown =>
          split at hnext
          · next hoffers =>
              obtain rfl := Option.some.inj hnext
              refine ⟨h.reachable, h.shown, fun k' e' he' ↦ ?_⟩
              by_cases hk : k' = k
              · subst hk
                simp only [Function.update_self] at he'
                rcases List.mem_append.mp he' with he' | he'
                · exact h.sent k' e' he'
                · obtain ⟨id, mode, hm⟩ := h.shown k' users hshown
                  rw [List.mem_singleton.mp he']
                  exact sendable_of_offers (reachable_ownLines h.reachable k' id mode users hm)
                    hoffers
              · simp only [Function.update_of_ne hk] at he'
                exact h.sent k' e' he'
          · cases hnext
      · cases hnext
  | take info =>
      obtain ⟨e, rest, t, hsent, ht, rfl⟩ := take_eq server hnext
      have hact : p.act env (.receive info e) = some { p with system := t } := by
        rw [Pages.act, if_pos ht.1, ht.2]
        rfl
      have hacted := h.act hact
      refine ⟨hacted.reachable, hacted.shown, fun k e' he' ↦ ?_⟩
      by_cases hk : k = info.id
      · subst hk
        simp only [Function.update_self] at he'
        exact h.sent info.id e' (hsent ▸ List.mem_cons_of_mem e he')
      · simp only [Function.update_of_ne hk] at he'
        exact h.sent k e' he'
  | other a => exact h.act hnext

theorem reachable_honest (h : (pages env server).Reachable p) : p.Honest env server := by
  refine h.invariant (I := Pages.Honest env server) ⟨.init, nofun, nofun⟩ ?_
  intro p p' x _ hhonest hstep
  exact hhonest.next hstep

end Pages

/-! ## Places in rooms -/

/-- The client `k` stays where it is, and if it owns its room it goes on owning it. -/
structure Survives (k : XID) (s s' : Rooms XID) : Prop where
  connected : s'.connected.lookup k = s.connected.lookup k
  record : ∀ r room u, s.rooms.lookup r = some room → room.users.lookup k = some u →
    ∃ room' u', s'.rooms.lookup r = some room' ∧ room'.users.lookup k = some u' ∧
      u'.owner = u.owner

/-- The request is to take `k` out of the room. -/
def Event.Expels (env : Env XID) (c k : XID) : Event XID → Prop
  | .ownerAction e => (e.action = "kick" ∨ e.action = "ban") ∧ e.Targets env c k
  | _ => False

section Place

variable {s s' : Rooms XID} {c : ClientInfo XID} {k : XID} {e : Event XID} {r : String}
  {room room' : Room XID}

theorem survives_world (s : Rooms XID) (w : World XID) :
    Survives k s ⟨s.rooms, s.connected, w⟩ :=
  ⟨rfl, fun _ room u hroom hu ↦ ⟨room, u, hroom, hu, rfl⟩⟩

theorem Survives.mem_keys (h : Survives k s s') (hk : k ∈ s.connected.keys) :
    k ∈ s'.connected.keys := by
  obtain ⟨r, hr⟩ := GoMap.mem_keys.mp hk
  exact GoMap.mem_keys_of_lookup (h.connected.trans hr)

theorem survives_insert (hroom : s.rooms.lookup r = some room)
    (hrecord : ∀ u, room.users.lookup k = some u →
      ∃ u', room'.users.lookup k = some u' ∧ u'.owner = u.owner)
    {connected : GoMap XID String} (hconn : connected.lookup k = s.connected.lookup k)
    (w : World XID) : Survives k s ⟨s.rooms.insert r room', connected, w⟩ := by
  refine ⟨hconn, fun r' room₁ u hroom₁ hu ↦ ?_⟩
  by_cases hr : r' = r
  · subst hr
    obtain rfl := Option.some.inj (hroom.symm.trans hroom₁)
    obtain ⟨u', hu', howner⟩ := hrecord u hu
    exact ⟨room', u', GoMap.lookup_insert_self _ _ _, hu', howner⟩
  · exact ⟨room₁, u, (GoMap.lookup_insert_of_ne hr).trans hroom₁, hu, rfl⟩

omit [DecidableEq XID] in
theorem Sendable.plain (h : Sendable env k e) : e.named = none ∧ e.relayed = none := by
  cases e with
  | startShare => exact ⟨rfl, rfl⟩
  | ownerAction _ => exact ⟨rfl, rfl⟩
  | stopShare => exact ⟨rfl, rfl⟩
  | name _ => exact ⟨rfl, rfl⟩
  | _ => exact h.elim

/-- If the sender of a request stays connected, then so does everybody whom it does not take out. -/
theorem Effect.survives (h : Effect env c s e s') (hsend : Sendable env c.id e)
    (hkept : c.id ∈ s'.connected.keys) (hk : ¬ e.Expels env c.id k) : Survives k s s' := by
  obtain ⟨hnamed, hrelayed⟩ := hsend.plain
  have herased {connected : GoMap XID String} (h : c.id ∈ (connected.erase c.id).keys) :
      False := by
    rw [GoMap.keys_erase] at h
    exact Finset.notMem_erase _ _ h
  have hnone {r : String} (h : e.named = some r) : False := by
    rw [hnamed] at h
    cases h
  cases h with
  | idle _ => exact survives_world s _
  | connect => exact hsend.elim
  | relay hrelay _ _ _ _ =>
      rw [hrelayed] at hrelay
      cases hrelay
  | create _ _ _ _ _ => exact hsend.elim
  | join hjoin _ _ _ _ _ _ => exact (hnone hjoin).elim
  | joinFailed hjoin _ _ _ _ _ _ _ => exact (hnone hjoin).elim
  | haunt hjoin _ _ _ _ _ => exact (hnone hjoin).elim
  | @update _ op _ _ _ _ _ hin _ _ _ _ =>
      refine survives_insert hin.lookup (fun u hu ↦ ⟨op.update k u, ?_, op.update_owner k u⟩) rfl _
      exact RoomOp.apply_lookup.mpr ⟨u, hu, rfl⟩
  | share hin _ _ _ _ _ _ _ =>
      refine survives_insert hin.lookup (fun u hu ↦ ?_) rfl _
      refine ⟨if k = c.id then { u with streaming := true } else u, ?_, ?_⟩
      · rw [Room.openSessions_users]
        exact Room.startStream_lookup.mpr ⟨u, hu, rfl⟩
      · split <;> rfl
  | @remove a t _ _ _ room room' _ _ _ hin _ ht _ hban _ _ =>
      have hne : k ≠ t := by
        rintro rfl
        exact hk ⟨hban.imp And.left And.left, ht⟩
      have husers : room'.users = room.users := by
        rcases hban with ⟨-, rfl⟩ | ⟨-, rfl⟩ <;> rfl
      refine survives_insert hin.lookup (fun u hu ↦ ⟨u, ?_, rfl⟩)
        (GoMap.lookup_erase_of_ne hne) _
      exact Room.remove_lookup.mpr ⟨hne, husers ▸ hu⟩
  | leave _ hleft => cases hleft <;> exact (herased hkept).elim
  | leaveNowhere _ _ => exact (herased hkept).elim
  | dissolve _ _ _ _ _ => exact hsend.elim

end Place

/-! ## Requests that come in time -/

/-- The room is as the request of its member `c` needs it: for `share`, `c` may share and nobody
else is on the air; for an owner action, `c` owns the room and the target is there. -/
def Room.Grants (env : Env XID) (c : XID) (room : Room XID) : Event XID → Prop
  | .startShare => (∃ u, room.users.lookup c = some u ∧ u.canShare) ∧
      ∀ k u, room.users.lookup k = some u → u.streaming → k = c
  | .ownerAction e => room.OwnedBy c ∧
      (e.action ∈ memberActions → ∃ t ∈ room.users.keys, e.targetUserID = env.xid.toString t)
  | _ => True

/-- A sender that is still connected is in a room that grants the request. -/
def Timely (env : Env XID) (s : Rooms XID) (c : ClientInfo XID) (e : Event XID) : Prop :=
  c.id ∈ s.connected.keys → ∃ r room, s.In c.id r room ∧ room.Grants env c.id e

section Step

variable {s : Rooms XID} {c : ClientInfo XID} {e : Event XID} {r : String} {room : Room XID}

omit [DecidableEq XID] in
theorem known_iff {a : OwnerAction} : a.Known ↔ a.action ∈ memberActions := by
  simp only [OwnerAction.Known, memberActions, List.mem_cons, List.not_mem_nil, or_false]
  tauto

/-- For what a page can have sent, the handler's checks come down to the owner and the target. -/
theorem accepted_iff (hxid : ∀ id, env.xid.toString id ≠ "") {a : OwnerAction} {o : XID}
    (hsend : Sendable env o (.ownerAction a)) :
    a.Accepted env o room ↔ room.Grants env o (.ownerAction a) := by
  refine and_congr_right fun _ ↦ ?_
  rcases hsend with haction | ⟨haction, t, hne, htarget⟩
  · have hall : a.action = "enable_all" ∨ a.action = "disable_all" := by
      simpa [roomActions] using haction
    have hno : a.action ∉ memberActions := by
      rcases hall with ha | ha <;> rw [ha] <;> decide
    exact ⟨fun _ h ↦ absurd h hno, fun _ ↦ hall.elim Or.inl fun h ↦ Or.inr (Or.inl h)⟩
  · have hother : a.action ≠ "enable_all" ∧ a.action ≠ "disable_all" := by
      constructor <;> rintro ha <;> rw [ha] at haction <;> exact absurd haction (by decide)
    have hparsed : env.xid.fromString a.targetUserID = some t := by
      rw [htarget, env.xid.fromString_toString]
    constructor
    · intro h _
      obtain ⟨-, t', ht', -, hid, -⟩ := (h.resolve_left hother.1).resolve_left hother.2
      obtain rfl := Option.some.inj (hparsed.symm.trans hid)
      exact ⟨t, ht', htarget⟩
    · intro h
      obtain ⟨t', ht', htarget'⟩ := h haction
      obtain rfl := env.xid.toString_injective (htarget.symm.trans htarget')
      exact Or.inr (Or.inr ⟨known_iff.mpr haction, t, ht', htarget ▸ hxid t, hparsed, hne⟩)

theorem execute_astray (hsend : Sendable env c.id e) {err : String}
    (h : s.currentRoom c = .error err) : e.execute env s c = .error err s := by
  cases e with
  | startShare => simp only [Event.execute, StartShare.execute, h]
  | ownerAction a => simp only [Event.execute, OwnerAction.execute, h]
  | stopShare => simp only [Event.execute, StopShare.execute, h]
  | name n => simp only [Event.execute, Name.execute, h]
  | _ => exact hsend.elim

theorem execute_refused (hwf : s.WF env) (hxid : ∀ id, env.xid.toString id ≠ "")
    (hsend : Sendable env c.id e) (hin : s.In c.id r room) (h : ¬ room.Grants env c.id e) :
    ∃ err, e.execute env s c = .error err s := by
  cases e with
  | startShare => exact startShare_refused hwf hin h
  | ownerAction a => exact OwnerAction.execute_refused hin (mt (accepted_iff hxid hsend).mp h)
  | stopShare => exact absurd trivial h
  | name n => exact absurd trivial h
  | _ => exact hsend.elim

theorem execute_granted (hwf : s.WF env) (hxid : ∀ id, env.xid.toString id ≠ "")
    (hip : ∀ n, ∃ v4 v6, env.turnIPProvider n = .ok (v4, v6)) (hsend : Sendable env c.id e)
    (hin : s.In c.id r room) (h : room.Grants env c.id e) :
    ∃ s', e.execute env s c = .ok s' ∧ s'.connected.lookup c.id = s.connected.lookup c.id := by
  cases e with
  | startShare =>
      obtain ⟨⟨u, hu, hcan⟩, hfree⟩ := h
      obtain ⟨v4, v6, hlookup⟩ := hip s.world.tick
      obtain ⟨os, told, w, hrun, -⟩ := startShare_ok hwf hin hu hcan hfree hlookup
      exact ⟨_, hrun, rfl⟩
  | ownerAction a =>
      obtain ⟨s', hrun, hkept⟩ :=
        OwnerAction.execute_accepted hwf hin ((accepted_iff hxid hsend).mpr h)
      exact ⟨s', hrun, hkept.connected⟩
  | stopShare =>
      obtain ⟨ended, w, hrun, -⟩ := stopShare_ok hwf hin
      exact ⟨_, hrun, rfl⟩
  | name n => exact ⟨_, name_ok hwf hin n, rfl⟩
  | _ => exact hsend.elim

end Step

section Loop

variable {s t : System XID} {info : ClientInfo XID} {e : Event XID}

/-- A request that is refused costs the sender its place. -/
theorem step_late (hwf : s.WF env) (hxid : ∀ id, env.xid.toString id ≠ "")
    (hsend : Sendable env info.id e) (hstep : (machine env server).step s (.receive info e) t)
    (h : ¬ Timely env s.rooms info e) :
    info.id ∈ s.rooms.connected.keys ∧ info.id ∉ t.rooms.connected.keys := by
  obtain ⟨hconn, hlate⟩ := Classical.not_imp.mp h
  have hfail : ∃ err, e.execute env s.rooms info = .error err s.rooms := by
    cases hcurrent : s.rooms.currentRoom info with
    | error err => exact ⟨err, execute_astray hsend hcurrent⟩
    | ok p =>
        have hin := in_of_currentRoom hcurrent
        exact execute_refused hwf.rooms hxid hsend hin fun hgrants ↦ hlate ⟨_, _, hin, hgrants⟩
  obtain ⟨err, hfail⟩ := hfail
  exact ⟨hconn, gone_of_error hstep hconn hfail⟩

/-- A request that comes in time leaves everybody where they are whom it does not take out. -/
theorem step_timely (hwf : s.WF env) (hxid : ∀ id, env.xid.toString id ≠ "")
    (hip : ∀ n, ∃ v4 v6, env.turnIPProvider n = .ok (v4, v6)) (hsend : Sendable env info.id e)
    (hstep : (machine env server).step s (.receive info e) t) (h : Timely env s.rooms info e)
    {k : XID} (hk : ¬ e.Expels env info.id k) : Survives k s.rooms t.rooms := by
  by_cases hconn : info.id ∈ s.rooms.connected.keys
  · obtain ⟨r, room, hin, hgrants⟩ := h hconn
    obtain ⟨s', hrun, hkept⟩ := execute_granted hwf.rooms hxid hip hsend hin hgrants
    have heffect : Effect env info s.rooms e t.rooms := step_effect hwf hstep
    refine heffect.survives hsend ?_ hk
    rw [step_of_execute hstep hconn hrun]
    exact GoMap.mem_keys_of_lookup (hkept.trans hin.connected)
  · rw [step_ignored hconn hstep]
    exact survives_world _ _

end Loop

/-! ## Whole runs -/

/-- The main loop takes the request `e` of `info`. -/
def Taken (info : ClientInfo XID) (e : Event XID) (q : Pages XID × Exchange XID) : Prop :=
  q.2 = .take info ∧ ∃ rest, q.1.sent info.id = e :: rest

/-- No request of a page costs anybody its place in a room, or an owner its room, but for those
whom the owner takes out. -/
def Harmless (env : Env XID) (server : Turn.Server) (l : List (Pages XID × Exchange XID)) : Prop :=
  ∀ q ∈ l, ∀ info e p', Taken info e q → (pages env server).step q.1 q.2 p' →
    ∀ k, ¬ e.Expels env info.id k → Survives k q.1.system.rooms p'.system.rooms

section Run

variable {info : ClientInfo XID} {e : Event XID} {q : Pages XID × Exchange XID} {p : Pages XID}

omit [DecidableEq XID] in
theorem not_expels_self (e : Event XID) (k : XID) : ¬ e.Expels env k k := by
  cases e with
  | ownerAction a => exact fun h ↦ h.2.2.2 rfl
  | _ => exact id

theorem Taken.step (h : Taken info e q) (hreach : (pages env server).Reachable q.1)
    (hstep : (pages env server).step q.1 q.2 p) :
    Sendable env info.id e ∧ (machine env server).step q.1.system (.receive info e) p.system := by
  obtain ⟨hq, rest, hsent⟩ := h
  have htake : q.1.next env (.take info) = some p := hq ▸ hstep
  obtain ⟨e', rest', t, hsent', ht, rfl⟩ := take_eq server htake
  obtain ⟨rfl, rfl⟩ := List.cons.inj (hsent.symm.trans hsent')
  exact ⟨(reachable_honest hreach).sent info.id e (hsent ▸ List.mem_cons_self), ht⟩

theorem run_harmless_iff (hxid : ∀ id, env.xid.toString id ≠ "")
    (hip : ∀ n, ∃ v4 v6, env.turnIPProvider n = .ok (v4, v6))
    {l : List (Pages XID × Exchange XID)}
    (h : (pages env server).Run (pages env server).init l p) :
    Harmless env server l ↔
      ∀ q ∈ l, ∀ info e, Taken info e q → Timely env q.1.system.rooms info e := by
  constructor
  · intro hharmless q hq info e htaken
    by_contra hlate
    have hreach := h.reachable_of_mem .init hq
    obtain ⟨p', -, hp', -⟩ := h.after_of_mem hq
    obtain ⟨hsend, hstep⟩ := htaken.step hreach hp'
    obtain ⟨hconn, hgone⟩ := step_late (reachable_wf (reachable_honest hreach).reachable) hxid
      hsend hstep hlate
    have hself := hharmless q hq info e p' htaken hp' info.id (not_expels_self e info.id)
    exact hgone (hself.mem_keys hconn)
  · intro htimely q hq info e p' htaken hp' k hk
    have hreach := h.reachable_of_mem .init hq
    obtain ⟨hsend, hstep⟩ := htaken.step hreach hp'
    exact step_timely (reachable_wf (reachable_honest hreach).reachable) hxid hip hsend hstep
      (htimely q hq info e htaken) hk

end Run

/-! ## Two races -/

/-- What a script makes of the server and the pages. -/
def Pages.after (script : List (Exchange ℕ)) : List (Pages ℕ × Exchange ℕ) × Pages ℕ :=
  Machine.history (pages (Env.sample authModeNone) (.internal ⟨∅⟩)).init
    (Pages.next (Env.sample authModeNone)) script

/-- Two clients are in a room, and both pages show it with both of them. -/
def gathering : List (Exchange ℕ) :=
  (meeting "local").map .other ++ [.deliver 0 1, .deliver 1 2]

/-- The owner puts its screen on the air, and the other member takes a name. -/
theorem run_harmless_iff_gathering :
    Harmless (Env.sample authModeNone) (.internal ⟨∅⟩) (Pages.after (gathering ++
      [.send 0 .startShare, .send 1 (.name ⟨"bob"⟩), .take (guest 1), .take (guest 0)])).1 ↔
    ∀ q ∈ (Pages.after (gathering ++
        [.send 0 .startShare, .send 1 (.name ⟨"bob"⟩), .take (guest 1), .take (guest 0)])).1,
      ∀ info e, Taken info e q →
        Timely (Env.sample authModeNone) q.1.system.rooms info e := by
  refine run_harmless_iff (fun n hn ↦ ?_) (fun _ ↦ ⟨_, _, rfl⟩) (Machine.run_history _ _ _)
  have hempty : Xid.counter.fromString "" = none := by decide
  have hparsed := Xid.counter.fromString_toString n
  rw [show Xid.counter.toString n = "" from hn, hempty] at hparsed
  cases hparsed

theorem lost_place {script : List (Exchange ℕ)} {k : ℕ} {e : Event ℕ}
    (hsent : (Pages.after script).2.sent k = [e])
    (hplace : k ∈ (Pages.after script).2.system.rooms.connected.keys)
    (hgone : k ∉ (Pages.after (script ++ [.take (guest k)])).2.system.rooms.connected.keys) :
    ¬ Harmless (Env.sample authModeNone) (.internal ⟨∅⟩)
      (Pages.after (script ++ [.take (guest k)])).1 := by
  intro h
  have hafter : Pages.after (script ++ [.take (guest k)]) = Machine.play
      (Pages.next (Env.sample authModeNone)) (Pages.after script) (.take (guest k)) := by
    rw [Pages.after, Machine.history, List.foldl_append]
    rfl
  rw [hafter] at h hgone
  unfold Machine.play at h hgone
  split at hgone
  · exact hgone hplace
  · next p' hp' =>
      simp only [hp'] at h
      have hself := h _ (List.mem_append_right _ (List.mem_singleton_self _)) (guest k) e p'
        ⟨rfl, [], hsent⟩ hp' k (not_expels_self e k)
      exact hgone (hself.mem_keys hplace)

/-- The owner kicks a member whose connection has just ended. -/
def lateKick : List (Exchange ℕ) :=
  gathering ++ [.send 0 (.ownerAction ⟨"kick", "00000000000000000001"⟩),
    .other (.receive (guest 1) (.disconnected ⟨1000, ""⟩))]

/-- Both members start to share, and the owner is first. -/
def twoShares : List (Exchange ℕ) :=
  gathering ++ [.send 0 .startShare, .send 1 .startShare, .take (guest 0)]

/-- The owner loses its room, and whoever shares second is out. -/
theorem races_lost :
    ¬ Harmless (Env.sample authModeNone) (.internal ⟨∅⟩)
        (Pages.after (lateKick ++ [.take (guest 0)])).1 ∧
      ¬ Harmless (Env.sample authModeNone) (.internal ⟨∅⟩)
        (Pages.after (twoShares ++ [.take (guest 1)])).1 := by
  constructor
  · exact lost_place (e := .ownerAction ⟨"kick", "00000000000000000001"⟩)
      (by decide +kernel) (by decide +kernel) (by decide +kernel)
  · exact lost_place (e := .startShare) (by decide +kernel) (by decide +kernel)
      (by decide +kernel)

end Screego
