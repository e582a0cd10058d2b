import Screego.Spec.Founding
import Screego.Properties.Authority

/-!
# When the owner goes

The permission to share protects whoever owns the room: an owner gets it with
`create`, and no action of an owner reaches the owner itself.  The departure of
an owner looks at no permission, though, and hands the room to the member that
the iteration visits first.  The flag with which a room was created to close when
its owner leaves is stored and never read.
-/

namespace Screego

open Outgoing World Rooms

variable {XID : Type} [DecidableEq XID] {env : Env XID} {server : Turn.Server}

/-! ## Owners that may share -/

/-- Owners may share, and `share` never turns one away for want of the permission. -/
structure OwnersMayShare (env : Env XID) (s : Rooms XID) : Prop where
  permitted : ∀ r room o u, s.rooms.lookup r = some room → room.users.lookup o = some u →
    u.owner → u.canShare
  admitted : ∀ info r room, s.In info.id r room → room.OwnedBy info.id →
    StartShare.execute env s info ≠ .error "you do not have permission to share screen" s

/-- The step takes an owner out of its room, and the member that comes next may not share. -/
def PromotesMuted (env : Env XID) (s : System XID) : Action XID → Prop
  | .receive info e => e.Departs env s.rooms info ∧ ∃ r room next u, s.rooms.In info.id r room ∧
      room.OwnedBy info.id ∧ room.successor env
        (s.rooms.world.tick + e.draws room info.id + 1) info.id = some next ∧
      room.users.lookup next = some u ∧ ¬ u.canShare
  | _ => False

section Permission

variable {s s' : Rooms XID} {c : ClientInfo XID} {e : Event XID} {r : String} {room : Room XID}

/-- A member with the permission passes the check: what stops it later has another reason or
leaves a trace. -/
theorem startShare_admits (hin : s.In c.id r room) {u : User XID}
    (hu : room.users.lookup c.id = some u) (hcan : u.canShare) :
    StartShare.execute env s c ≠ .error "you do not have permission to share screen" s := by
  have hallowed : ¬ (room.users.lookup c.id).any fun u ↦ ¬ u.canShare := by
    simp [hu, hcan]
  intro h
  simp only [StartShare.execute, currentRoom_of_in hin, if_neg hallowed] at h
  split at h
  · exact absurd (Outcome.error.inj h).1 (by decide)
  · simp only [hu] at h
    split at h
    · have htick := congrArg (fun s ↦ s.world.tick) (Outcome.error.inj h).2
      exact absurd htick (Nat.succ_ne_self _)
    · split at h <;> cases h

theorem ownersMayShare_iff : OwnersMayShare env s ↔ ∀ r room o u, s.rooms.lookup r = some room →
    room.users.lookup o = some u → u.owner → u.canShare := by
  refine ⟨OwnersMayShare.permitted, fun h ↦ ⟨h, ?_⟩⟩
  rintro info r room hin ⟨u, hu, howner⟩
  exact startShare_admits hin hu (h r room info.id u hin.lookup hu howner)

/-- Where rooms are only deleted. -/
theorem OwnersMayShare.of_lookup (hs : OwnersMayShare env s)
    (hsub : ∀ r room, s'.rooms.lookup r = some room → s.rooms.lookup r = some room) :
    OwnersMayShare env s' :=
  ownersMayShare_iff.mpr fun r room o u hroom ↦ hs.permitted r room o u (hsub r room hroom)

/-- Where one room is written. -/
theorem OwnersMayShare.of_insert (hs : OwnersMayShare env s)
    (hrooms : s'.rooms = s.rooms.insert r room)
    (hroom : ∀ o u, room.users.lookup o = some u → u.owner → u.canShare) :
    OwnersMayShare env s' := by
  refine ownersMayShare_iff.mpr fun r' room' o u hroom' hu ho ↦ ?_
  rw [hrooms] at hroom'
  rcases lookup_insert_cases hroom' with ⟨-, rfl⟩ | hold
  · exact hroom o u hu ho
  · exact hs.permitted r' room' o u hold hu ho

/-- No operation of the owner takes the permission from the owner. -/
theorem RoomOp.IssuedBy.owner_canShare {op : RoomOp XID} (hop : op.IssuedBy env c.id room e)
    (hsound : room.Sound r) {o : XID} {u : User XID} (hu : room.users.lookup o = some u)
    (howner : u.owner) (hcan : u.canShare) : (op.update o u).canShare := by
  have hself (h : room.OwnedBy c.id) : o = c.id := hsound.owner_unique o c.id ⟨u, hu, howner⟩ h
  cases hop with
  | name e =>
      simp only [RoomOp.update]
      split <;> exact hcan
  | stopShare =>
      simp only [RoomOp.update]
      split <;> exact hcan
  | ownerStop _ _ _ =>
      simp only [RoomOp.update]
      split <;> exact hcan
  | ownerEnable _ h => rwa [RoomOp.update, if_neg (not_not.mpr (hself h))]
  | ownerDisable _ h => rwa [RoomOp.update, if_neg (not_not.mpr (hself h))]
  | ownerToggle _ h ht => rwa [RoomOp.update, if_neg (hself h ▸ ht.2.2.symm)]

/-- Only a departure can leave a room with an owner who may not share. -/
theorem Effect.ownersMayShare (h : Effect env c s e s') (hwf : s.WF env)
    (hs : OwnersMayShare env s)
    (hleave : ∀ r room, s.In c.id r room → Left env c.id s r room s' → OwnersMayShare env s') :
    OwnersMayShare env s' := by
  have hsame {connected : GoMap XID String} {w : World XID} :
      OwnersMayShare env ⟨s.rooms, connected, w⟩ := hs.of_lookup fun _ _ h ↦ h
  have henter {r name : String} {room : Room XID} (hroom : s.rooms.lookup r = some room) :
      ∀ o u, (room.enter (c.newUser name false)).users.lookup o = some u → u.owner →
        u.canShare := by
    intro o u hu ho
    rcases Room.enter_lookup.mp hu with ⟨-, rfl⟩ | ⟨-, hu⟩
    · rfl
    · exact hs.permitted r room o u hroom hu ho
  cases h with
  | idle _ => exact hsame
  | connect => exact hsame
  | relay _ _ _ _ _ => exact hsame
  | joinFailed _ _ _ _ _ _ _ _ => exact hsame
  | leaveNowhere _ _ => exact hsame
  | create _ _ _ _ _ =>
      refine hs.of_insert rfl fun o u hu _ ↦ ?_
      rw [(Room.create_lookup hu).2]
      rfl
  | join _ _ hroom _ _ _ _ =>
      refine hs.of_insert rfl ?_
      rw [Room.openSessions_users]
      exact henter hroom
  | haunt _ _ hroom _ _ _ => exact hs.of_insert rfl (henter hroom)
  | @update _ op r room _ _ _ hin hop _ _ _ =>
      refine hs.of_insert rfl fun o u hu ho ↦ ?_
      obtain ⟨v, hv, rfl⟩ := RoomOp.apply_lookup.mp hu
      rw [RoomOp.update_owner] at ho
      exact hop.owner_canShare (hwf.sound r room hin.lookup) hv ho
        (hs.permitted r room o v hin.lookup hv ho)
  | @share r room _ _ _ _ hin _ _ _ _ _ _ _ =>
      refine hs.of_insert rfl fun o u hu ho ↦ ?_
      rw [Room.openSessions_users] at hu
      obtain ⟨v, hv, rfl⟩ := Room.startStream_lookup.mp hu
      have hold : v.owner → v.canShare := hs.permitted r room o v hin.lookup hv
      by_cases ho' : o = c.id
      · rw [if_pos ho'] at ho ⊢
        exact hold ho
      · rw [if_neg ho'] at ho ⊢
        exact hold ho
  | @remove _ _ r _ _ room room' _ _ _ hin _ _ _ hban _ _ =>
      have husers : room'.users = room.users := by
        rcases hban with ⟨-, rfl⟩ | ⟨-, rfl⟩ <;> rfl
      refine hs.of_insert rfl fun o u hu ho ↦ ?_
      exact hs.permitted r room o u hin.lookup (husers ▸ (Room.remove_lookup.mp hu).2) ho
  | leave hin hleft => exact hleave _ _ hin hleft
  | dissolve _ _ _ _ _ =>
      exact hs.of_lookup fun _ _ hroom ↦ GoMap.lookup_of_erase hroom

end Permission

section Step

variable {s t : System XID} {a : Action XID}

theorem ownersMayShare_left (hwf : s.WF env) (hs : OwnersMayShare env s.rooms)
    {info : ClientInfo XID} {e : Event XID} (h : (machine env server).step s (.receive info e) t)
    (hnot : ¬ PromotesMuted env s (.receive info e)) {r : String} {room : Room XID}
    (hin : s.rooms.In info.id r room) (hleft : Left env info.id s.rooms r room t.rooms) :
    OwnersMayShare env t.rooms := by
  have herase (hrooms : t.rooms.rooms = s.rooms.rooms.erase r) : OwnersMayShare env t.rooms :=
    hs.of_lookup fun _ _ hroom' ↦ GoMap.lookup_of_erase (hrooms ▸ hroom')
  have hold : ∀ o u, room.users.lookup o = some u → u.owner → u.canShare :=
    fun o u ↦ hs.permitted r room o u hin.lookup
  have hgone : info.id ∉ t.rooms.connected.keys := by
    rw [hleft.connected, GoMap.keys_erase]
    exact Finset.notMem_erase _ _
  rcases departs_of_gone hwf h hin hgone with hdeparts | ⟨-, -, hrooms⟩
  swap
  · exact herase hrooms
  have hpromoted {next : XID} (howner : room.OwnedBy info.id) (hnext : room.successor env
      (s.rooms.world.tick + e.draws room info.id + 1) info.id = some next) :
      OwnersMayShare env t.rooms := by
    refine hs.of_insert (step_promotes hwf h hin howner hdeparts hnext) fun o u hu ho ↦ ?_
    obtain ⟨v, hv, rfl⟩ := Room.promote_lookup.mp hu
    have hv' := (Room.remove_lookup.mp hv).2
    by_cases heq : o = next
    · subst heq
      rw [if_pos rfl]
      by_contra hcan
      exact hnot ⟨hdeparts, r, room, o, v, hin, howner, hnext, hv', hcan⟩
    · rw [if_neg heq] at ho ⊢
      exact hold o v hv' ho
  rcases hleft.rooms with ⟨room', hleave, hrooms⟩ | ⟨-, hrooms⟩
  · cases hleave with
    | member _ _ _ _ =>
        exact hs.of_insert hrooms fun o u hu ho ↦ hold o u (Room.remove_lookup.mp hu).2 ho
    | owner howner hnext hne =>
        obtain ⟨next', hnext', -⟩ := successor_isSome hnext hne
          (s.rooms.world.tick + e.draws room info.id + 1)
        exact hpromoted howner hnext'
  · exact herase hrooms

theorem ownersMayShare_step (hwf : s.WF env) (hs : OwnersMayShare env s.rooms)
    (h : (machine env server).step s a t) :
    OwnersMayShare env t.rooms ↔ ¬ PromotesMuted env s a := by
  constructor
  · intro ht hmuted
    cases a with
    | receive info e =>
        obtain ⟨hdeparts, r, room, next, u, hin, howner, hnext, hu, hcan⟩ := hmuted
        have hrooms := step_promotes hwf h hin howner hdeparts hnext
        have hne : next ≠ info.id := by
          have hmem := (RangeOrder.mem_visit _).mp (List.mem_of_mem_head? hnext)
          exact Finset.ne_of_mem_erase hmem
        have hu' : ((room.remove info.id).promote next).users.lookup next =
            some { u with owner := true } :=
          Room.promote_lookup.mpr ⟨u, Room.remove_lookup.mpr ⟨hne, hu⟩, if_pos rfl⟩
        have hroom' : t.rooms.rooms.lookup r = some ((room.remove info.id).promote next) := by
          rw [hrooms, GoMap.lookup_insert_self]
        have hcan' : ({ u with owner := true } : User XID).canShare :=
          ht.permitted r _ next _ hroom' hu' rfl
        exact hcan hcan'
    | _ => exact hmuted
  · intro hnot
    by_cases ha : ∃ info e, a = .receive info e
    · obtain ⟨info, e, rfl⟩ := ha
      exact (step_effect hwf h).ownersMayShare hwf.rooms hs fun r room hin hleft ↦
        ownersMayShare_left hwf hs h hnot hin hleft
    · refine hs.of_lookup fun r room hroom ↦ ?_
      rwa [step_rooms h ha] at hroom

end Step

/-- In a run every owner may share throughout exactly when no owner leaves its room to a member
who may not. -/
theorem run_ownersMayShare_iff {l : List (System XID × Action XID)} {t : System XID}
    (h : (machine env server).Run (machine env server).init l t) :
    ((∀ p ∈ l, OwnersMayShare env p.1.rooms) ∧ OwnersMayShare env t.rooms) ↔
      ∀ p ∈ l, ¬ PromotesMuted env p.1 p.2 := by
  refine h.always_iff (P := fun s ↦ OwnersMayShare env s.rooms)
    (Q := fun s a ↦ ¬ PromotesMuted env s a) ?_ ?_
  · refine ownersMayShare_iff.mpr fun r room o u hroom ↦ ?_
    rw [show (machine env server).init.rooms.rooms.lookup r = none from rfl] at hroom
    cases hroom
  · intro s t a hreach hs hstep
    exact ownersMayShare_step (reachable_wf hreach) hs hstep

/-- The owner of a meeting leaves it to the other member, who may share. -/
def handover : List (Action ℕ) := meeting "local" ++ [.receive (guest 0) .exit]

theorem run_ownersMayShare_handover :
    ((∀ p ∈ (System.history (Env.sample authModeNone) (.internal ⟨∅⟩) handover).1,
        OwnersMayShare (Env.sample authModeNone) p.1.rooms) ∧
      OwnersMayShare (Env.sample authModeNone)
        (System.history (Env.sample authModeNone) (.internal ⟨∅⟩) handover).2.rooms) ↔
      ∀ p ∈ (System.history (Env.sample authModeNone) (.internal ⟨∅⟩) handover).1,
        ¬ PromotesMuted (Env.sample authModeNone) p.1 p.2 :=
  run_ownersMayShare_iff (System.run_history _ _ _)

/-- The owner takes the permission from everybody else and goes. -/
theorem ownersMayShare_fails :
    ¬ ∀ s, (machine (Env.sample authModeNone) (.internal ⟨∅⟩)).Reachable s →
      OwnersMayShare (Env.sample authModeNone) s.rooms := by
  intro h
  have hpermitted := (h _ (System.reachable_after (Env.sample authModeNone) (.internal ⟨∅⟩)
    (meeting "local" ++ [.receive (guest 0) (.ownerAction ⟨"disable_all", ""⟩),
      .receive (guest 0) .exit]))).permitted "lobby"
  have hmuted : ((System.after (Env.sample authModeNone) (.internal ⟨∅⟩) (meeting "local" ++
      [.receive (guest 0) (.ownerAction ⟨"disable_all", ""⟩),
        .receive (guest 0) .exit])).rooms.rooms.lookup "lobby").any fun room ↦
      (room.users.lookup 1).any fun u ↦ u.owner ∧ ¬ u.canShare := by
    decide +kernel
  obtain ⟨room, hroom, hmuted⟩ := (Option.any_eq_true _ _).mp hmuted
  obtain ⟨u, hu, hmuted⟩ := (Option.any_eq_true _ _).mp hmuted
  obtain ⟨howner, hcan⟩ := of_decide_eq_true hmuted
  exact hcan (hpermitted room 1 u hroom hu howner)

/-! ## Rooms that are to close -/

/-- The room under `r` is gone with its sessions, and all but `c` were taken out of it and told. -/
structure Room.Closed (env : Env XID) (r : String) (room : Room XID) (c : XID) (s s' : Rooms XID) :
    Prop where
  gone : s'.rooms.lookup r = none
  sessions : ∀ id ∈ room.sessions.keys, (∀ r' mode l, ¬ Open s'.rooms r' mode id l) ∧
    ∀ name, IsNameOf env id name → s'.world.turnServer.entry name = none
  members : ∀ k ∈ room.users.keys, k ≠ c → k ∉ s'.connected.keys ∧
    ∃ code reason, (k, .closeWriter code reason) ∈ s.world.since s'.world

/-- The room under `r` is open, and another member than `c` owns it. -/
def Room.PassedOn (r : String) (room : Room XID) (c : XID) (s' : Rooms XID) : Prop :=
  ∃ room' next, s'.rooms.lookup r = some room' ∧ next ∈ room.users.keys ∧ next ≠ c ∧
    room'.OwnedBy next

/-- The departure of the owner `c` closes a room that is to close, and passes on one that is not if
there is somebody to pass it on to. -/
def Room.Ends (env : Env XID) (closes : Bool) (r : String) (room : Room XID) (c : XID)
    (s s' : Rooms XID) : Prop :=
  if closes then room.Closed env r c s s'
  else (∃ k ∈ room.users.keys, k ≠ c) → room.PassedOn r c s'

/-- In the run every departure of an owner ends the way the `create` of the room asked for. -/
def HonoursFlag (env : Env XID) (server : Turn.Server) (l : List (System XID × Action XID)) :
    Prop :=
  ∀ l₁ s info e l₂ t, l = l₁ ++ (s, .receive info e) :: l₂ →
    (machine env server).step s (.receive info e) t → info.id ∈ s.rooms.connected.keys →
    e.Departs env s.rooms info → ∀ r founder ce room, Founded env r founder ce l₁ →
    s.rooms.rooms.lookup r = some room → room.OwnedBy info.id →
    room.Ends env ce.closeOnOwnerLeave r info.id s.rooms t.rooms

/-- If an owner leaves, it is alone in a room that it can find, or others are there and the room
is not to close. -/
def FitsFlag (env : Env XID) (s : System XID) : Action XID → Prop
  | .receive info e => info.id ∈ s.rooms.connected.keys → e.Departs env s.rooms info →
      ∀ r room, s.rooms.rooms.lookup r = some room → room.OwnedBy info.id →
        if room.users.keys = {info.id} then r ≠ "" ∨ ¬ room.closeOnOwnerLeave
        else r ≠ "" ∧ ¬ room.closeOnOwnerLeave
  | _ => True

section Flag

variable {s t : System XID} {info : ClientInfo XID} {e : Event XID} {r : String} {room : Room XID}

/-- Nobody takes over a room that its owner cannot find. -/
theorem Effect.empty_kept {s s' : Rooms XID} {c : ClientInfo XID} (h : Effect env c s e s')
    (hwf : s.WF env) (hroom : s.rooms.lookup "" = some room) (howner : room.OwnedBy c.id) :
    ∃ room', s'.rooms.lookup "" = some room' ∧ ∀ k, room'.OwnedBy k → k = c.id := by
  have hkept : ∃ room', s'.rooms.lookup "" = some room' := by
    cases h with
    | idle _ => exact ⟨room, hroom⟩
    | connect => exact ⟨room, hroom⟩
    | relay _ _ _ _ _ => exact ⟨room, hroom⟩
    | joinFailed _ _ _ _ _ _ _ _ => exact ⟨room, hroom⟩
    | leaveNowhere _ _ => exact ⟨room, hroom⟩
    | create _ _ _ _ _ => exact exists_lookup_insert _ _ hroom
    | join _ _ _ _ _ _ _ => exact exists_lookup_insert _ _ hroom
    | haunt _ _ _ _ _ _ => exact exists_lookup_insert _ _ hroom
    | update _ _ _ _ _ => exact exists_lookup_insert _ _ hroom
    | share _ _ _ _ _ _ _ _ => exact exists_lookup_insert _ _ hroom
    | remove _ _ _ _ _ _ _ => exact exists_lookup_insert _ _ hroom
    | leave hin hleft =>
        rcases hleft.rooms with ⟨room', -, hrooms⟩ | ⟨-, hrooms⟩
        · rw [hrooms]
          exact exists_lookup_insert _ _ hroom
        · rw [hrooms, GoMap.lookup_erase_of_ne hin.ne_empty.symm]
          exact ⟨room, hroom⟩
    | dissolve hin _ _ _ _ =>
        exact ⟨room, (GoMap.lookup_erase_of_ne hin.ne_empty.symm).trans hroom⟩
  have hself := (hwf.sound "" room hroom).owner_unique
  obtain ⟨room', hroom'⟩ := hkept
  refine ⟨room', hroom', fun k hk ↦ ?_⟩
  rcases h.room_step hwf hroom' with hold | ⟨_, _, _, -, -, -, hnone, -, -⟩ | ⟨room₀, hroom₀, hstep⟩
  · obtain rfl := Option.some.inj (hroom.symm.trans hold)
    exact hself k c.id hk howner
  · rw [hroom] at hnone
    cases hnone
  · obtain rfl := Option.some.inj (hroom.symm.trans hroom₀)
    cases hstep with
    | enter _ _ _ _ _ =>
        obtain ⟨u, hu, ho⟩ := hk
        rw [Room.openSessions_users] at hu
        rcases Room.enter_lookup.mp hu with ⟨hc, -⟩ | ⟨-, hu⟩
        · exact hc
        · exact hself k c.id ⟨u, hu, ho⟩ howner
    | update hr _ _ => exact absurd rfl hr
    | share _ hr _ _ _ _ _ _ => exact absurd rfl hr
    | remove hr _ _ _ _ => exact absurd rfl hr
    | left hr _ => exact absurd rfl hr

theorem others_of_ne {c : XID} (hmem : c ∈ room.users.keys) (hne : room.users.keys ≠ {c}) :
    ∃ k ∈ room.users.keys, k ≠ c := by
  by_contra hnone
  push Not at hnone
  exact hne (Finset.eq_singleton_iff_unique_mem.mpr ⟨hmem, hnone⟩)

/-- The last member closes its room. -/
theorem closed_of_alone {c : XID} (hsound : room.Sound r) (honly : room.users.keys = {c})
    {s s' : Rooms XID} (hgone : s'.rooms.lookup r = none) : room.Closed env r c s s' := by
  refine ⟨hgone, fun id hid ↦ ?_, fun k hk hne ↦ ?_⟩
  · obtain ⟨l, hl⟩ := GoMap.mem_keys.mp hid
    rw [hsound.no_sessions honly] at hl
    cases hl
  · rw [honly] at hk
    exact absurd (Finset.mem_singleton.mp hk) hne

/-- How the departure of an owner ends. -/
theorem departure_ends (hwf : s.WF env) (h : (machine env server).step s (.receive info e) t)
    (hin : s.rooms.In info.id r room) (hdeparts : e.Departs env s.rooms info)
    (howner : room.OwnedBy info.id) :
    if room.users.keys = {info.id} then room.Closed env r info.id s.rooms t.rooms
    else room.PassedOn r info.id t.rooms := by
  have hsound := hwf.rooms.sound r room hin.lookup
  rcases (step_departs hwf h hin hdeparts).rooms with ⟨room', hleave, hrooms⟩ | ⟨honly, hrooms⟩
  · rw [if_neg hleave.other]
    have hroom' : t.rooms.rooms.lookup r = some room' := by
      rw [hrooms, GoMap.lookup_insert_self]
    cases hleave with
    | member hu hnot _ _ =>
        obtain ⟨v, hv, ho⟩ := howner
        obtain rfl := Option.some.inj (hu.symm.trans hv)
        exact absurd ho hnot
    | @owner next _ hnext hne =>
        obtain ⟨u, hu⟩ := GoMap.mem_keys.mp hnext
        refine ⟨_, next, hroom', hnext, hne, { u with owner := true }, ?_, rfl⟩
        exact Room.promote_lookup.mpr ⟨u, Room.remove_lookup.mpr ⟨hne, hu⟩, if_pos rfl⟩
  · rw [if_pos honly]
    refine closed_of_alone hsound honly ?_
    rw [hrooms, GoMap.lookup_erase_self]

theorem ends_iff (hwf : s.WF env) (h : (machine env server).step s (.receive info e) t)
    (hdeparts : e.Departs env s.rooms info) (hroom : s.rooms.rooms.lookup r = some room)
    (howner : room.OwnedBy info.id) :
    room.Ends env room.closeOnOwnerLeave r info.id s.rooms t.rooms ↔
      if room.users.keys = {info.id} then r ≠ "" ∨ ¬ room.closeOnOwnerLeave
      else r ≠ "" ∧ ¬ room.closeOnOwnerLeave := by
  have hothers {P : Prop} (hne : room.users.keys ≠ {info.id})
      (hP : room.PassedOn r info.id t.rooms ↔ P) :
      room.Ends env false r info.id s.rooms t.rooms ↔ P :=
    ⟨fun hends ↦ hP.mp (hends (others_of_ne howner.mem hne)), fun hp _ ↦ hP.mpr hp⟩
  by_cases hr : r = ""
  · -- the room stays as it is, and nobody else owns it
    subst hr
    obtain ⟨room', hroom', hself⟩ :=
      (step_effect hwf h).empty_kept hwf.rooms hroom howner
    have hclosed : ¬ room.Closed env "" info.id s.rooms t.rooms := by
      intro hclosed
      rw [hclosed.gone] at hroom'
      cases hroom'
    have hpassed : ¬ room.PassedOn "" info.id t.rooms := by
      rintro ⟨room₁, next, hroom₁, -, hne, ho⟩
      obtain rfl := Option.some.inj (hroom'.symm.trans hroom₁)
      exact hne (hself next ho)
    cases hflag : room.closeOnOwnerLeave with
    | true => simpa [Room.Ends] using hclosed
    | false =>
        split
        · next honly =>
            simp only [Room.Ends, honly, Finset.mem_singleton]
            simp
        · next hne => exact hothers hne (by simpa using hpassed)
  · have hin := hwf.rooms.in_of_mem hr hroom howner.mem
    have hends := departure_ends hwf h hin hdeparts howner
    split at hends
    · next honly =>
        rw [if_pos honly]
        refine iff_of_true ?_ (Or.inl hr)
        unfold Room.Ends
        split
        · exact hends
        · rintro ⟨k, hk, hne⟩
          rw [honly] at hk
          exact absurd (Finset.mem_singleton.mp hk) hne
    · next hne =>
        rw [if_neg hne]
        cases hflag : room.closeOnOwnerLeave with
        | true =>
            refine iff_of_false (fun hclosed ↦ ?_) (by simp)
            obtain ⟨room', next, hroom', -⟩ := hends
            have hgone : t.rooms.rooms.lookup r = none := Room.Closed.gone hclosed
            rw [hroom'] at hgone
            cases hgone
        | false => exact hothers hne (iff_of_true hends ⟨hr, by simp⟩)

end Flag

/-- A run honours the flag of every room exactly when no owner leaves others behind in a room that
is to close, and none leaves a room that it cannot find. -/
theorem run_honoursFlag_iff {l : List (System XID × Action XID)} {t : System XID}
    (h : (machine env server).Run (machine env server).init l t) :
    HonoursFlag env server l ↔ ∀ p ∈ l, FitsFlag env p.1 p.2 := by
  constructor
  · rintro hhonours ⟨s, a⟩ hp
    cases a with
    | receive info e =>
        intro hconn hdeparts r room hroom howner
        obtain ⟨l₁, l₂, rfl⟩ := List.append_of_mem hp
        obtain ⟨hrun, u, hstep⟩ := h.split
        have hwf := reachable_wf ⟨l₁, hrun⟩
        obtain ⟨founder, ce, hfounded⟩ := founded_of_lookup hrun hroom
        have hends := hhonours l₁ s info e l₂ u rfl hstep hconn hdeparts r founder ce room
          hfounded hroom howner
        rw [← (hfounded.origin hrun hroom).2] at hends
        exact (ends_iff hwf hstep hdeparts hroom howner).mp hends
    | _ => trivial
  · rintro hfits l₁ s info e l₂ u rfl hstep hconn hdeparts r founder ce room hfounded hroom howner
    have hrun := h.split.1
    rw [← (hfounded.origin hrun hroom).2]
    refine (ends_iff (reachable_wf ⟨l₁, hrun⟩) hstep hdeparts hroom howner).mpr ?_
    exact hfits (s, .receive info e) (by simp) hconn hdeparts r room hroom howner

theorem run_honoursFlag_handover :
    HonoursFlag (Env.sample authModeNone) (.internal ⟨∅⟩)
        (System.history (Env.sample authModeNone) (.internal ⟨∅⟩) handover).1 ↔
      ∀ p ∈ (System.history (Env.sample authModeNone) (.internal ⟨∅⟩) handover).1,
        FitsFlag (Env.sample authModeNone) p.1 p.2 :=
  run_honoursFlag_iff (System.run_history _ _ _)

/-- A meeting in a room that is to close when its owner leaves. -/
def closing : List (Action ℕ) :=
  arrivals ++ [.receive (guest 0) (.create ⟨"lobby", "local", true, "", false⟩),
    .receive (guest 1) (.join ⟨"lobby", ""⟩)]

/-- The owner leaves it to the other member. -/
theorem honoursFlag_fails :
    ¬ ∀ l t, (machine (Env.sample authModeNone) (.internal ⟨∅⟩)).Run
        (machine (Env.sample authModeNone) (.internal ⟨∅⟩)).init l t →
      HonoursFlag (Env.sample authModeNone) (.internal ⟨∅⟩) l := by
  intro h
  have hrun := System.run_history (Env.sample authModeNone) (.internal ⟨∅⟩) closing
  have hstep : (machine (Env.sample authModeNone) (.internal ⟨∅⟩)).step
      (System.after (Env.sample authModeNone) (.internal ⟨∅⟩) closing)
      (.receive (guest 0) .exit) (System.after (Env.sample authModeNone) (.internal ⟨∅⟩)
        (closing ++ [.receive (guest 0) .exit])) :=
    System.step_after _ (by decide +kernel) (by decide +kernel)
  have hlobby : ((System.after (Env.sample authModeNone) (.internal ⟨∅⟩) closing).rooms.rooms.lookup
      "lobby").any fun room ↦ room.closeOnOwnerLeave ∧
        (room.users.lookup 0).any fun u ↦ u.owner := by
    decide +kernel
  obtain ⟨room, hroom, hlobby⟩ := (Option.any_eq_true _ _).mp hlobby
  obtain ⟨hflag, howner⟩ := of_decide_eq_true hlobby
  have howned := Room.ownedBy_iff_any.mpr howner
  obtain ⟨founder, ce, hfounded⟩ := founded_of_lookup hrun hroom
  have hends := h _ _ (hrun.snoc hstep) _ _ _ _ [] _ rfl hstep (by decide +kernel)
    (Or.inr (Or.inl rfl)) "lobby" founder ce room hfounded hroom howned
  rw [← (hfounded.origin hrun hroom).2, Room.Ends, if_pos hflag] at hends
  have hstill : ((System.after (Env.sample authModeNone) (.internal ⟨∅⟩)
      (closing ++ [.receive (guest 0) .exit])).rooms.rooms.lookup "lobby").isSome := by
    decide +kernel
  rw [hends.gone] at hstill
  cases hstill

end Screego
