import Screego.Spec.Refinement

/-!
# What the members see

Whatever changes the members of a room or their flags ends with a message to
every member, so the last member list that somebody got is the current one.
-/

namespace Screego

open Outgoing World Rooms

variable {XID : Type} [DecidableEq XID] {env : Env XID} {server : Turn.Server}

/-! ## The last list -/

/-- The member list in a message, if it is for `u` and about `r`. -/
def viewOf (r : String) (u : XID) : XID × Message XID → Option (List (Outgoing.User XID))
  | (k, .room id _ users) => if k = u ∧ id = r then some users else none
  | _ => none

def views (r : String) (u : XID) (msgs : List (XID × Message XID)) :
    List (List (Outgoing.User XID)) :=
  msgs.filterMap (viewOf r u)

/-- The last member list of the room `r` that was handed over for `u`. -/
def lastView (out : List (XID × Message XID)) (r : String) (u : XID) :
    Option (List (Outgoing.User XID)) :=
  (views r u out).getLast?

section Last

variable {r : String} {u : XID} {out msgs msgs' : List (XID × Message XID)}
  {view : List (Outgoing.User XID)}

theorem views_append : views r u (msgs ++ msgs') = views r u msgs ++ views r u msgs' :=
  List.filterMap_append

theorem lastView_quiet (h : views r u msgs = []) :
    lastView (out ++ msgs) r u = lastView out r u := by
  rw [lastView, views_append, h, List.append_nil, lastView]

theorem lastView_told (h : views r u msgs = [view]) : lastView (out ++ msgs) r u = some view := by
  rw [lastView, views_append, h, List.getLast?_append]
  rfl

theorem OfKind.views {κ : Kind} (h : OfKind κ msgs) (hne : κ ≠ .view) : views r u msgs = [] := by
  apply List.filterMap_eq_nil_iff.mpr
  rintro ⟨k, m⟩ hm
  have hkind := h k m hm
  cases m with
  | room _ _ _ => exact absurd hkind.symm hne
  | _ => rfl

theorem views_cons_closeWriter (k : XID) (code : ℤ) (reason : String) :
    views r u ((k, .closeWriter code reason) :: msgs) = views r u msgs := rfl

theorem Room.Announces.views {room : Room XID} (h : room.Announces msgs)
    (hu : u ∈ room.users.keys) : ∃ view, views room.id u msgs = [view] ∧ room.Shows u view := by
  obtain ⟨ks, view, hnodup, hks, hview, rfl⟩ := h
  have hother : ∀ ks' : List XID, u ∉ ks' →
      Screego.views room.id u (ks'.map fun k ↦ (k, .room room.id "" (view k))) = [] := by
    intro ks' hnot
    apply List.filterMap_eq_nil_iff.mpr
    rintro p hp
    obtain ⟨k, hk, rfl⟩ := List.mem_map.mp hp
    have hne : ¬ (k = u ∧ room.id = room.id) := fun heq ↦ hnot (heq.1 ▸ hk)
    exact if_neg hne
  have hmem := (hks u).mpr hu
  refine ⟨view u, ?_, hview u hmem⟩
  obtain ⟨before, after, rfl⟩ := List.append_of_mem hmem
  rw [List.nodup_append, List.nodup_cons] at hnodup
  obtain ⟨-, ⟨hafter, -⟩, hbefore⟩ := hnodup
  have hself : viewOf room.id u (u, .room room.id "" (view u)) = some (view u) :=
    if_pos ⟨rfl, rfl⟩
  rw [List.map_append, List.map_cons, views_append,
    hother before fun hmem ↦ hbefore u hmem u List.mem_cons_self rfl, List.nil_append,
    Screego.views, List.filterMap_cons_some hself]
  exact congrArg _ (hother after hafter)

theorem Room.Announces.views_of_ne {room : Room XID} (h : room.Announces msgs)
    (hne : room.id ≠ r) : Screego.views r u msgs = [] := by
  apply List.filterMap_eq_nil_iff.mpr
  rintro ⟨k, m⟩ hm
  obtain ⟨-, view, rfl, -⟩ := h.eq_room hm
  have hnot : ¬ (k = u ∧ room.id = r) := fun heq ↦ hne heq.2
  exact if_neg hnot

end Last

/-! ## The invariant -/

/-- Every member of a room with an id was last shown the room as it is. -/
def Current (s : Rooms XID) : Prop :=
  ∀ r room, r ≠ "" → s.rooms.lookup r = some room → ∀ u ∈ room.users.keys,
    ∃ view, lastView s.world.out r u = some view ∧ room.Shows u view

theorem Room.Shows.congr {room room' : Room XID} {u : XID} {view : List (Outgoing.User XID)}
    (h : room.Shows u view) (husers : room'.users = room.users) : room'.Shows u view := by
  obtain ⟨hids, hmem, hsorted⟩ := h
  refine ⟨hids, ?_, hsorted⟩
  rw [husers]
  exact hmem

section Step

variable {s s' : Rooms XID} {c : ClientInfo XID} {e : Event XID}

/-- Nothing is said about the rooms that are left, and they are the same. -/
theorem Current.quiet {msgs : List (XID × Message XID)} (h : Current s)
    (hrooms : ∀ r room, s'.rooms.lookup r = some room → s.rooms.lookup r = some room)
    (hout : s'.world.out = s.world.out ++ msgs) (hquiet : ∀ r u, views r u msgs = []) :
    Current s' := by
  intro r room hr hroom u hu
  rw [hout, lastView_quiet (hquiet r u)]
  exact h r room hr (hrooms r room hroom) u hu

/-- One room is replaced and announced, and nothing is said about another room, or about this one
after the announcement. -/
theorem Current.told {r₁ : String} {room₁ room₂ : Room XID} {told : List (XID × Message XID)}
    (h : Current s) (before after : List (XID × Message XID))
    (hrooms : s'.rooms = s.rooms.insert r₁ room₂) (htold : room₁.Announces told)
    (hid : room₁.id = r₁) (husers : room₂.users = room₁.users)
    (hout : s'.world.out = s.world.out ++ (before ++ (told ++ after)))
    (hbefore : ∀ r, r ≠ r₁ → ∀ u, views r u before = []) (hafter : ∀ r u, views r u after = []) :
    Current s' := by
  intro r room hr hroom u hu
  rw [hrooms, GoMap.lookup_insert] at hroom
  split at hroom
  · next heq =>
      rw [← Option.some.inj hroom, husers] at hu
      obtain ⟨view, hview, hshows⟩ := htold.views hu
      rw [hid, ← heq] at hview
      rw [hout, ← List.append_assoc, ← List.append_assoc, lastView_quiet (hafter r u),
        lastView_told hview, ← Option.some.inj hroom]
      exact ⟨view, rfl, hshows.congr husers⟩
  · next hne =>
      have hquiet : views r u (before ++ (told ++ after)) = [] := by
        rw [views_append, views_append, hbefore r hne, hafter,
          htold.views_of_ne fun heq ↦ hne (heq.symm.trans hid)]
        rfl
      rw [hout, lastView_quiet hquiet]
      exact h r room hr hroom u hu

theorem Effect.current (h : Effect env c s e s') (hwf : s.WF env) (hcurrent : Current s) :
    Current s' := by
  have hid {r : String} {room : Room XID} (hroom : s.rooms.lookup r = some room) :
      room.id = r := (hwf.sound r room hroom).id_eq
  have hsessions (os : List (OpenedSession XID)) (r : String) (u : XID) :
      views r u (os.flatMap OpenedSession.messages) = [] :=
    (OpenedSession.ofKind_messages os).views (by decide)
  have hnil (r : String) (u : XID) : views r u ([] : List (XID × Message XID)) = [] := rfl
  have hclose (r : String) (u k : XID) (code : ℤ) (reason : String) :
      views r u [(k, .closeWriter code reason)] = [] := rfl
  cases h with
  | idle hworld => exact hcurrent.quiet (fun _ _ h ↦ h) hworld.out hnil
  | connect => exact hcurrent.quiet (fun _ _ h ↦ h) (List.append_nil _).symm hnil
  | relay hrelay _ _ _ hworld =>
      refine hcurrent.quiet (fun _ _ h ↦ h) hworld.out fun r u ↦ ?_
      refine OfKind.views (κ := .relay) (fun k m hm ↦ ?_) (by decide)
      rw [(Prod.mk.inj (List.mem_singleton.mp hm)).2, Event.relayed_msg hrelay]
  | leaveNowhere _ hworld =>
      exact hcurrent.quiet (fun _ _ h ↦ h) hworld.out fun r u ↦ hclose r u _ _ _
  | dissolve _ _ _ _ hworld =>
      refine hcurrent.quiet (fun _ _ h ↦ GoMap.lookup_of_erase h) hworld.out fun r u ↦ ?_
      refine OfKind.views (κ := .bye) (fun k m hm ↦ ?_) (by decide)
      obtain ⟨k', -, heq⟩ := List.mem_map.mp hm
      rw [← (Prod.mk.inj heq).2]
      rfl
  | create _ _ _ htold hworld =>
      exact hcurrent.told [] [] rfl htold rfl rfl (by simpa using hworld.out)
        (fun r _ ↦ hnil r) hnil
  | @join _ _ _ _ os _ _ _ _ hroom _ _ htold hworld =>
      have hname := hid hroom
      exact hcurrent.told [] (os.flatMap OpenedSession.messages) rfl htold hname
        Room.openSessions_users hworld.out (fun r _ ↦ hnil r) (hsessions os)
  | @joinFailed _ _ _ reason code _ told _ _ _ _ hroom _ _ htold htold' hworld =>
      have hname := hid hroom
      refine hcurrent.told (told ++ [(c.id, .closeWriter code reason)]) []
        (GoMap.insert_of_lookup hroom).symm htold' hname rfl (by simpa using hworld.out)
        (fun r hne u ↦ ?_) hnil
      rw [views_append, htold.views_of_ne fun heq ↦ hne (heq.symm.trans hname)]
      rfl
  | @haunt _ _ reason code _ _ _ _ _ hroom _ htold hworld =>
      have hname := hid hroom
      exact hcurrent.told [] [(c.id, .closeWriter code reason)] rfl htold hname rfl hworld.out
        (fun r _ ↦ hnil r) fun r u ↦ hclose r u _ _ _
  | @update _ _ _ _ ended _ _ hin _ hended htold hworld =>
      have hname := hid hin.lookup
      exact hcurrent.told ended [] rfl htold hname rfl (by simpa using hworld.out)
        (fun _ _ _ ↦ (hended.ofKind (e.mem_notices c.id)).views (by decide)) hnil
  | @share _ _ _ os _ _ hin _ _ _ _ _ htold hworld =>
      have hname := hid hin.lookup
      exact hcurrent.told (os.flatMap OpenedSession.messages) [] rfl htold hname
        Room.openSessions_users (by simpa using hworld.out) (fun r _ ↦ hsessions os r) hnil
  | @remove _ t r reason code _ room₁ _ _ _ hin _ _ _ hban htold hworld =>
      have hname := hid hin.lookup
      have hname' : room₁.id = r := by
        rcases hban with ⟨-, rfl⟩ | ⟨-, rfl⟩ <;> exact hname
      exact hcurrent.told [(t, .closeWriter code reason)] [] rfl htold hname' rfl
        (by simpa using hworld.out) (fun r _ u ↦ hclose r u _ _ _) hnil
  | leave hin hleft =>
      cases hleft with
      | @stay _ code reason ended _ _ hleft hended htold hworld =>
          have hname := (hleft.sound (hwf.sound _ _ hin.lookup) hin.ne_empty).id_eq
          refine hcurrent.told ((c.id, .closeWriter code reason) :: ended) [] rfl htold hname rfl
            (by simpa using hworld.out) (fun r _ u ↦ ?_) hnil
          rw [views_cons_closeWriter]
          exact (hended.ofKind fun _ _ _ _ h ↦ h).views (by decide)
      | last _ hworld =>
          exact hcurrent.quiet (fun _ _ h ↦ GoMap.lookup_of_erase h) hworld.out
            fun r u ↦ hclose r u _ _ _

end Step

/-! ## Reading a list -/

/-- Owners come first, then members on the air, then by name. -/
def Outgoing.User.Before {XID : Type} (a b : Outgoing.User XID) : Prop :=
  (b.owner → a.owner) ∧ (a.owner = b.owner →
    (b.streaming → a.streaming) ∧ (a.streaming = b.streaming → a.name ≤ b.name))

/-- The list shows to `current` the room as it is. -/
structure IsView (room : Room XID) (current : XID) (view : List (Outgoing.User XID)) : Prop where
  once : (view.map Outgoing.User.id).Nodup
  members : ∀ k, k ∈ view.map Outgoing.User.id ↔ k ∈ room.users.keys
  flags : ∀ v ∈ view, ∃ user, room.users.lookup v.id = some user ∧ v.name = user.name ∧
    v.streaming = user.streaming ∧ v.owner = user.owner ∧ v.canShare = user.canShare
  you : ∀ v ∈ view, v.you ↔ v.id = current
  ordered : view.Pairwise Outgoing.User.Before

omit [DecidableEq XID] in
theorem before_of_not_less {a b : Outgoing.User XID} (h : ¬ b.less a) : a.Before b := by
  rw [Room.less_iff, not_or, not_and, not_not, not_and, not_or, not_and, not_not, not_and] at h
  obtain ⟨howner, hrest⟩ := h
  refine ⟨howner, fun heq ↦ ?_⟩
  obtain ⟨hstreaming, hname⟩ := hrest heq.symm
  exact ⟨hstreaming, fun heq ↦ le_of_not_gt (hname heq.symm)⟩

theorem Room.Shows.isView {room : Room XID} {current : XID} {view : List (Outgoing.User XID)}
    (h : room.Shows current view) (hkeyed : room.Keyed) : IsView room current view := by
  have hline : ∀ v ∈ view, ∃ user, room.users.lookup v.id = some user ∧
      v = Room.line current v.id user := by
    intro v hv
    obtain ⟨k, user, huser, rfl⟩ := (h.mem_iff v).mp hv
    have hid : (Room.line current k user).id = k := (hkeyed k user huser).1
    rw [hid]
    exact ⟨user, huser, rfl⟩
  refine ⟨h.nodup, ?_, ?_, ?_, h.sorted.imp before_of_not_less⟩
  · intro k
    constructor
    · intro hk
      obtain ⟨v, hv, rfl⟩ := List.mem_map.mp hk
      obtain ⟨user, huser, -⟩ := hline v hv
      exact GoMap.mem_keys_of_lookup huser
    · intro hk
      obtain ⟨user, huser⟩ := GoMap.mem_keys.mp hk
      exact List.mem_map.mpr ⟨Room.line current k user, (h.mem_iff _).mpr ⟨k, user, huser, rfl⟩,
        (hkeyed k user huser).1⟩
  · intro v hv
    obtain ⟨user, huser, hv⟩ := hline v hv
    rw [hv] at huser ⊢
    exact ⟨user, (hkeyed _ user huser).1 ▸ huser, rfl, rfl, rfl, rfl⟩
  · intro v hv
    obtain ⟨user, huser, heq⟩ := hline v hv
    rw [heq]
    simp only [Room.line, decide_eq_true_eq, (hkeyed _ user huser).1]
    exact eq_comm

/-- The last member list that a member got about its room is the current one. -/
theorem view_current {s : System XID} (h : (machine env server).Reachable s) {r : String}
    {room : Room XID} {u : XID} (hr : r ≠ "") (hroom : s.rooms.rooms.lookup r = some room)
    (hu : u ∈ room.users.keys) :
    ∃ view, lastView s.rooms.world.out r u = some view ∧ IsView room u view := by
  have hcurrent : Current s.rooms := by
    refine reachable_invariant (J := Current) h ?_ fun hwf hcurrent heffect ↦
      heffect.current hwf hcurrent
    intro r room _ hroom
    cases hroom
  obtain ⟨view, hview, hshows⟩ := hcurrent r room hr hroom u hu
  exact ⟨view, hview, hshows.isView ((reachable_wf h).rooms.sound r room hroom).keyed⟩

theorem view_current_screening : ∃ room, (System.after (Env.sample authModeNone)
    (.internal ⟨∅⟩) (screening "local")).rooms.rooms.lookup "lobby" = some room ∧
    ∃ view, lastView (System.after (Env.sample authModeNone) (.internal ⟨∅⟩)
      (screening "local")).rooms.world.out "lobby" 1 = some view ∧ IsView room 1 view := by
  have hsome : ((System.after (Env.sample authModeNone) (.internal ⟨∅⟩)
      (screening "local")).rooms.rooms.lookup "lobby").any fun room ↦ 1 ∈ room.users.keys := by
    decide +kernel
  obtain ⟨room, hroom, hu⟩ := (Option.any_eq_true _ _).mp hsome
  exact ⟨room, hroom, view_current (System.reachable_after _ _ _) (by decide) hroom
    (of_decide_eq_true hu)⟩

end Screego
