import Screego.Spec.Refinement

/-!
# The end of a session

Media flows between the browsers, and only `EndShare` makes them stop.  Leaving
a room and `stopshare` tell the other end of each session that they close.  The
actions of an owner close sessions and tell nobody: those are exactly the steps
in which a session ends silently.
-/

namespace Screego

open Outgoing World Rooms

variable {XID : Type} [DecidableEq XID] {env : Env XID} {server : Turn.Server}

/-- The action of the owner `o` closes the session. -/
def OwnerAction.Cuts (env : Env XID) (a : OwnerAction) (o : XID) (l : RoomSession XID) : Prop :=
  (a.action = "disable_all" ∧ l.host ≠ o) ∨
  ∃ t, a.Targets env o t ∧
    (((a.action = "stop_share" ∨ a.action = "toggle_share_permission") ∧ l.host = t) ∨
      ((a.action = "kick" ∨ a.action = "ban") ∧ Touches t l))

/-- The step is an action of an owner that closes a session of the room. -/
def EndsSilently (env : Env XID) (s : System XID) : Action XID → Prop
  | .receive info (.ownerAction a) => ∃ r room id l, s.rooms.currentRoom info = .ok (r, room) ∧
      room.OwnedBy info.id ∧ room.sessions.lookup id = some l ∧ a.Cuts env info.id l
  | _ => False

/-- The client sends `stopshare`. -/
def StopsOwnShare (k : XID) : Action XID → Prop
  | .receive info .stopShare => info.id = k
  | _ => False

/-- Each end of a session that is over, if it is still in the room, was told so once; a host that
stops its own share knows. -/
def TellsEnds (s t : System XID) (a : Action XID) : Prop :=
  ∀ r room room' id l, s.rooms.rooms.lookup r = some room → t.rooms.rooms.lookup r = some room' →
    room.sessions.lookup id = some l → room'.sessions.lookup id = none →
    ∀ k ∈ room'.users.keys, Touches k l → ¬ (k = l.host ∧ StopsOwnShare k a) →
      (s.rooms.world.since t.rooms.world).count (k, .endShare id) = 1

/-! ## Telling the other end -/

namespace Room

variable {room : Room XID} {p : RoomSession XID → Prop} [DecidablePred p] {c k id : XID}
  {l : RoomSession XID} {msgs told : List (XID × Message XID)}

theorem mem_endNotice_tellPeer {sessions : GoMap XID (RoomSession XID)} {id' : XID}
    (h : (k, .endShare id) ∈ endNotice p (tellPeer c) sessions id') : id = id' := by
  unfold endNotice at h
  split at h
  · split at h
    · obtain ⟨-, heq⟩ := Prod.mk.inj (List.mem_singleton.mp h)
      exact Message.endShare.inj heq
    · cases h
  · cases h

/-- The loop tells the other end of a session once. -/
theorem Ended.count (h : room.Ended p (tellPeer c) msgs) (hl : room.sessions.lookup id = some l)
    (hp : p l) (hk : k = if l.client = c then l.host else l.client) :
    msgs.count (k, .endShare id) = 1 := by
  obtain ⟨ids, hnodup, hids, rfl⟩ := h
  have hother : ∀ ids' : List XID, id ∉ ids' →
      (ids'.flatMap (endNotice p (tellPeer c) room.sessions)).count (k, .endShare id) = 0 := by
    intro ids' hnot
    apply List.count_eq_zero_of_not_mem
    intro hmem
    obtain ⟨id', hid', hnotice⟩ := List.mem_flatMap.mp hmem
    exact hnot (mem_endNotice_tellPeer hnotice ▸ hid')
  have hself : endNotice p (tellPeer c) room.sessions id = [(k, .endShare id)] := by
    simp only [endNotice, hl, if_pos hp, tellPeer, hk]
  obtain ⟨before, after, rfl⟩ :=
    List.append_of_mem ((hids id).mpr (GoMap.mem_keys_of_lookup hl))
  rw [List.nodup_append, List.nodup_cons] at hnodup
  obtain ⟨-, ⟨hafter, -⟩, hbefore⟩ := hnodup
  rw [List.flatMap_append, List.flatMap_cons, List.count_append, List.count_append, hself,
    hother before fun hmem ↦ hbefore id hmem id List.mem_cons_self rfl, hother after hafter]
  simp

theorem Announces.count_endShare (h : room.Announces told) : told.count (k, .endShare id) = 0 := by
  apply List.count_eq_zero_of_not_mem
  intro hmem
  obtain ⟨-, view, heq, -⟩ := h.eq_room hmem
  cases heq

end Room

/-! ## Steps that tell -/

section Tells

variable {s s' : Rooms XID} {c : ClientInfo XID} {e : Event XID} {r : String}
  {room room' : Room XID} {id k : XID} {l : RoomSession XID}

/-- A session that ended in a step of a client was announced to the ends that stay, unless the
client cut it as the owner. -/
theorem Effect.tells (h : Effect env c s e s') (hwf : s.WF env)
    (hcut : ∀ a, e = .ownerAction a → s.In c.id r room → room.OwnedBy c.id →
      ¬ a.Cuts env c.id l)
    (hroom : s.rooms.lookup r = some room) (hroom' : s'.rooms.lookup r = some room')
    (hl : room.sessions.lookup id = some l) (hnone : room'.sessions.lookup id = none)
    (hk : k ∈ room'.users.keys) (htouch : Touches k l)
    (hexempt : e = .stopShare → c.id = k → k ≠ l.host) :
    (s.world.since s'.world).count (k, .endShare id) = 1 := by
  have hsame {P : Prop} (hold : s.rooms.lookup r = some room') : P := by
    rw [hroom] at hold
    rw [← Option.some.inj hold, hl] at hnone
    cases hnone
  have hopen {P : Prop} {room₁ : Room XID} {os : List (OpenedSession XID)}
      (hids : (os.map OpenedSession.id).Nodup) (hnew : ∀ o ∈ os, o.id ∉ room.sessions.keys)
      (heq : room' = room₁.openSessions os) (hsessions : room₁.sessions = room.sessions) : P := by
    rw [← hsessions] at hnew hl
    have hstill := (Room.openSessions_unused hids hnew id l).mpr
      (Or.inl ⟨hl, Finset.notMem_empty id⟩)
    rw [← heq, hnone] at hstill
    cases hstill
  cases h with
  | idle _ => exact hsame hroom'
  | connect => exact hsame hroom'
  | relay _ _ _ _ _ => exact hsame hroom'
  | joinFailed _ _ _ _ _ _ _ _ => exact hsame hroom'
  | leaveNowhere _ _ => exact hsame hroom'
  | create _ hnew _ _ _ =>
      rcases lookup_insert_cases hroom' with ⟨rfl, rfl⟩ | hold
      · rw [hroom] at hnew
        cases hnew
      · exact hsame hold
  | join _ _ hroom₁ _ hos _ hworld =>
      rcases lookup_insert_cases hroom' with ⟨rfl, heq⟩ | hold
      · obtain rfl := Option.some.inj (hroom.symm.trans hroom₁)
        exact hopen hos.nodup_ids (hwf.unused_of_born hroom hworld) heq rfl
      · exact hsame hold
  | haunt _ _ hroom₁ _ _ _ =>
      rcases lookup_insert_cases hroom' with ⟨rfl, rfl⟩ | hold
      · obtain rfl := Option.some.inj (hroom.symm.trans hroom₁)
        rw [show (room.enter (c.newUser _ false)).sessions = room.sessions from rfl, hl] at hnone
        cases hnone
      · exact hsame hold
  | share hin _ _ _ _ hos _ hworld =>
      rcases lookup_insert_cases hroom' with ⟨rfl, heq⟩ | hold
      · obtain rfl := Option.some.inj (hroom.symm.trans hin.lookup)
        exact hopen hos.nodup_ids (hwf.unused_of_born hroom hworld) heq rfl
      · exact hsame hold
  | @update _ op _ _ _ _ _ hin hop hended htold hworld =>
      rcases lookup_insert_cases hroom' with ⟨rfl, rfl⟩ | hold
      swap
      · exact hsame hold
      obtain rfl := Option.some.inj (hroom.symm.trans hin.lookup)
      have hends : op.Ends l := by
        by_contra hnot
        rw [RoomOp.apply_sessions_lookup.mpr ⟨hl, hnot⟩] at hnone
        cases hnone
      cases hop with
      | name _ => exact hends.elim
      | ownerEnable _ _ => exact hends.elim
      | ownerStop ha howner ht =>
          exact absurd (Or.inr ⟨_, ht, Or.inl ⟨Or.inl ha, hends⟩⟩) (hcut _ rfl hin howner)
      | ownerToggle ha howner ht =>
          exact absurd (Or.inr ⟨_, ht, Or.inl ⟨Or.inr ha, hends⟩⟩) (hcut _ rfl hin howner)
      | ownerDisable ha howner => exact absurd (Or.inl ⟨ha, hends⟩) (hcut _ rfl hin howner)
      | stopShare =>
          have hhost : l.host = c.id := hends
          have hother : k = if l.client = c.id then l.host else l.client := by
            have hne := ((hwf.sound r room hroom).viewed id l hl).2
            rw [if_neg (hhost ▸ hne)]
            rcases htouch with rfl | heq
            · exact absurd rfl (hexempt rfl hhost.symm)
            · exact heq.symm
          rw [hworld.since, List.count_append, hended.count hl hends hother,
            htold.count_endShare]
  | @remove a t _ _ _ _ room₁ _ _ _ hin howner ht _ hban _ _ =>
      rcases lookup_insert_cases hroom' with ⟨rfl, rfl⟩ | hold
      swap
      · exact hsame hold
      obtain rfl := Option.some.inj (hroom.symm.trans hin.lookup)
      refine absurd (Or.inr ⟨_, ht, Or.inr ⟨hban.imp And.left And.left, ?_⟩⟩)
        (hcut _ rfl hin howner)
      by_contra hnot
      have hsessions : room₁.sessions = room.sessions := by
        rcases hban with ⟨-, rfl⟩ | ⟨-, rfl⟩ <;> rfl
      rw [← hsessions] at hl
      rw [Room.remove_sessions_lookup.mpr ⟨hl, hnot⟩] at hnone
      cases hnone
  | leave hin hleft =>
      cases hleft with
      | stay hleft hended htold hworld =>
          rcases lookup_insert_cases hroom' with ⟨rfl, rfl⟩ | hold
          swap
          · exact hsame hold
          obtain rfl := Option.some.inj (hroom.symm.trans hin.lookup)
          have hends : Touches c.id l := by
            by_contra hnot
            rw [hleft.sessions, Room.remove_sessions_lookup.mpr ⟨hl, hnot⟩] at hnone
            cases hnone
          have hkc : k ≠ c.id := by
            rw [hleft.keys] at hk
            exact Finset.ne_of_mem_erase hk
          have hother : k = if l.client = c.id then l.host else l.client := by
            rcases htouch with rfl | rfl
            · rw [if_pos (hends.resolve_left hkc)]
            · rw [if_neg hkc]
          rw [hworld.since, List.count_cons_of_ne (by simp), List.count_append,
            hended.count hl hends hother, htold.count_endShare]
      | last _ _ => exact hsame (GoMap.lookup_of_erase hroom')
  | dissolve _ _ _ _ _ => exact hsame (GoMap.lookup_of_erase hroom')

/-- An owner that acts and stays tells nobody about sessions. -/
theorem Effect.silent_ownerAction {a : OwnerAction} (h : Effect env c s (.ownerAction a) s')
    (hin : s.In c.id r room) (hstay : Member s'.rooms c.id r) :
    (s.world.since s'.world).count (k, .endShare id) = 0 := by
  cases h with
  | idle hworld =>
      rw [hworld.since]
      rfl
  | relay hrelay _ _ _ _ => cases hrelay
  | join hnamed _ _ _ _ _ _ => cases hnamed
  | joinFailed hnamed _ _ _ _ _ _ _ => cases hnamed
  | haunt hnamed _ _ _ _ _ => cases hnamed
  | update hin' _ hended htold hworld =>
      rw [hworld.since, hended.silent, List.nil_append, htold.count_endShare]
  | remove _ _ _ _ _ htold hworld =>
      rw [hworld.since, List.count_cons_of_ne (by simp), htold.count_endShare]
  | leave hin' hleft =>
      obtain rfl : r = _ := Option.some.inj (hin.connected.symm.trans hin'.connected)
      exact absurd hstay hleft.not_member
  | leaveNowhere hout _ =>
      rw [hin.connected] at hout
      exact absurd (Option.some.inj hout) hin.ne_empty

end Tells

/-! ## The owner's actions -/

section Cuts

variable {o id : XID} {l : RoomSession XID} {r : String} {room : Room XID} {a : OwnerAction}

/-- What the owner cuts is gone, while the owner and an end of the session are still there. -/
theorem OwnerAction.Cuts.acts (h : a.Cuts env o l) (hsound : room.Sound r)
    (hl : room.sessions.lookup id = some l) (ho : o ∈ room.users.keys) :
    ∃ room', a.Acts env o room room' ∧ room'.sessions.lookup id = none ∧
      o ∈ room'.users.keys ∧ ∃ k ∈ room'.users.keys, Touches k l := by
  obtain ⟨u, hu, hs⟩ := hsound.hosted id l hl
  have hhost := GoMap.mem_keys_of_lookup hu
  obtain ⟨hclient, hne⟩ := hsound.viewed id l hl
  have hop {op : RoomOp XID} (hends : op.Ends l) : (op.apply room).sessions.lookup id = none ∧
      o ∈ (op.apply room).users.keys ∧ ∃ k ∈ (op.apply room).users.keys, Touches k l := by
    have hkeys : (op.apply room).users.keys = room.users.keys := GoMap.keys_mapVals _ _
    rw [hkeys]
    refine ⟨?_, ho, l.host, hhost, Or.inl rfl⟩
    rw [Option.eq_none_iff_forall_ne_some]
    intro l' hl'
    obtain ⟨hl', hnot⟩ := RoomOp.apply_sessions_lookup.mp hl'
    rw [hl] at hl'
    exact hnot (Option.some.inj hl' ▸ hends)
  have hremove {t : XID} {room₁ : Room XID} (hto : t ≠ o) (htouch : Touches t l)
      (husers : room₁.users = room.users) (hsessions : room₁.sessions = room.sessions) :
      (room₁.remove t).sessions.lookup id = none ∧ o ∈ (room₁.remove t).users.keys ∧
        ∃ k ∈ (room₁.remove t).users.keys, Touches k l := by
    rw [Room.remove_keys, husers]
    refine ⟨?_, Finset.mem_erase.mpr ⟨hto.symm, ho⟩, ?_⟩
    · rw [Option.eq_none_iff_forall_ne_some]
      intro l' hl'
      obtain ⟨hl', hnot⟩ := Room.remove_sessions_lookup.mp hl'
      rw [hsessions, hl] at hl'
      exact hnot (Option.some.inj hl' ▸ htouch)
    · rcases htouch with rfl | rfl
      · exact ⟨l.client, Finset.mem_erase.mpr ⟨hne, hclient⟩, Or.inr rfl⟩
      · exact ⟨l.host, Finset.mem_erase.mpr ⟨hne.symm, hhost⟩, Or.inl rfl⟩
  rcases h with ⟨ha, hho⟩ | ⟨t, ht, ⟨ha | ha, rfl⟩ | ⟨ha, htouch⟩⟩
  · exact ⟨_, .disableAll ha, hop hho⟩
  · exact ⟨_, .stopShare ha ht hu hs, hop rfl⟩
  · exact ⟨_, .toggle ha ht hu, hop rfl⟩
  · obtain ⟨v, hv⟩ : ∃ v, room.users.lookup t = some v := by
      rcases htouch with rfl | rfl
      · exact ⟨u, hu⟩
      · exact GoMap.mem_keys.mp hclient
    rcases ha with ha | ha
    · exact ⟨_, .kick ha ht hv, hremove ht.2.2 htouch rfl rfl⟩
    · exact ⟨_, .ban ha ht hv, hremove ht.2.2 htouch rfl rfl⟩

end Cuts

theorem EndsSilently.not_tells {s t : System XID} {a : Action XID} (ha : EndsSilently env s a)
    (hwf : s.WF env) (h : (machine env server).step s a t) : ¬ TellsEnds s t a := by
  cases a with
  | dial _ _ _ => exact ha.elim
  | connect _ => exact ha.elim
  | health => exact ha.elim
  | receive info event =>
      cases event with
      | ownerAction a =>
          obtain ⟨r, room, id, l, hcurrent, howned, hl, hcuts⟩ := ha
          have hin := in_of_currentRoom hcurrent
          have hsound := hwf.rooms.sound r room hin.lookup
          obtain ⟨room', hacts, hnone, ho, k, hk, htouch⟩ :=
            hcuts.acts hsound hl (hin.member hwf.rooms)
          obtain ⟨s', hrun, hrooms⟩ := OwnerAction.acts_ok hwf.rooms hin howned hacts
          have ht : t.rooms = s' :=
            step_of_execute h (GoMap.mem_keys_of_lookup hin.connected) hrun
          have hroom' : t.rooms.rooms.lookup r = some room' := by
            rw [ht, hrooms, GoMap.lookup_insert_self]
          have hsilent : (s.rooms.world.since t.rooms.world).count (k, .endShare id) = 0 :=
            (step_effect hwf h).silent_ownerAction hin ⟨room', hroom', ho⟩
          intro htells
          have htold := htells r room room' id l hin.lookup hroom' hl hnone k hk htouch
            fun hown ↦ hown.2
          rw [hsilent] at htold
          cases htold
      | _ => exact ha.elim

/-- A step of a reachable state tells the ends of every session it ends, exactly if it is not an
action of an owner that closes a session. -/
theorem tellsEnds_iff {s t : System XID} {a : Action XID}
    (hreach : (machine env server).Reachable s) (h : (machine env server).step s a t) :
    TellsEnds s t a ↔ ¬ EndsSilently env s a := by
  have hwf := reachable_wf hreach
  refine ⟨fun htells hsilent ↦ hsilent.not_tells hwf h htells, ?_⟩
  intro hnot r room room' id l hroom hroom' hl hnone k hk htouch hexempt
  refine (step_effect hwf h).tells hwf.rooms ?_ hroom hroom' hl hnone hk htouch ?_
  · intro a' hevent hin howned hcuts
    obtain ⟨info, rfl⟩ := receive_of_event hevent rfl
    exact hnot ⟨r, room, id, l, currentRoom_of_in hin, howned, hl, hcuts⟩
  · intro hevent hself hkh
    obtain ⟨info, rfl⟩ := receive_of_event hevent rfl
    exact hexempt ⟨hkh, hself⟩

/-- A host that stops its share tells its viewer. -/
theorem tellsEnds_screening :
    TellsEnds (System.after (Env.sample authModeNone) (.internal ⟨∅⟩) (screening "local"))
      (System.after (Env.sample authModeNone) (.internal ⟨∅⟩)
        (screening "local" ++ [.receive (guest 0) .stopShare])) (.receive (guest 0) .stopShare) :=
  (tellsEnds_iff (System.reachable_after _ _ _)
    (System.step_after _ (by decide +kernel) (by decide +kernel))).mpr fun h ↦ h

/-- The host of a running share kicks its viewer: the session is over and the host is not told. -/
theorem tellsEnds_fails :
    ¬ ∀ s t a, (machine (Env.sample authModeNone) (.internal ⟨∅⟩)).Reachable s →
      (machine (Env.sample authModeNone) (.internal ⟨∅⟩)).step s a t → TellsEnds s t a := by
  intro h
  have htells := h _ _ (.receive (guest 0) (.ownerAction ⟨"kick", "00000000000000000001"⟩))
    (System.reachable_after (Env.sample authModeNone) (.internal ⟨∅⟩) (screening "local"))
    (System.step_after _ (by decide +kernel) (by decide +kernel)) "lobby"
  revert htells
  generalize hs : System.after (Env.sample authModeNone) (.internal ⟨∅⟩) (screening "local") = s
  generalize ht : System.after (Env.sample authModeNone) (.internal ⟨∅⟩) (screening "local" ++
    [.receive (guest 0) (.ownerAction ⟨"kick", "00000000000000000001"⟩)]) = t
  have hbefore : (s.rooms.rooms.lookup "lobby").any fun room ↦
      room.sessions.lookup 17 = some ⟨0, 1⟩ := by
    rw [← hs]
    decide +kernel
  have hafter : (t.rooms.rooms.lookup "lobby").any fun room ↦
      room.sessions.lookup 17 = none ∧ 0 ∈ room.users.keys := by
    rw [← ht]
    decide +kernel
  have hsilent : (s.rooms.world.since t.rooms.world).count (0, .endShare 17) = 0 := by
    rw [← hs, ← ht]
    decide +kernel
  intro htells
  obtain ⟨room, hroom, hl⟩ := (Option.any_eq_true _ _).mp hbefore
  obtain ⟨room', hroom', hgone⟩ := (Option.any_eq_true _ _).mp hafter
  obtain ⟨hnone, hmem⟩ := of_decide_eq_true hgone
  have htold := htells room room' 17 ⟨0, 1⟩ hroom hroom' (of_decide_eq_true hl) hnone 0 hmem
    (Or.inl rfl) fun h ↦ h.2
  rw [hsilent] at htold
  cases htold

end Screego
