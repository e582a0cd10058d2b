import Screego.Spec.Handlers

/-!
# Owner actions

The six actions of an owner come to operations on the room or to the removal of
a member.  `disable_all` closes sessions from inside its loop over the members,
and still ends exactly the sessions that are not the owner's.
-/

namespace Screego

open Outgoing World Rooms

variable {XID : Type} [DecidableEq XID] {env : Env XID}

namespace Room

variable {room : Room XID}

theorem endSessions_congr {p q : RoomSession XID → Prop} [DecidablePred p] [DecidablePred q]
    (h : ∀ id l, room.sessions.lookup id = some l → (p l ↔ q l)) :
    room.endSessions p = room.endSessions q := by
  have hsessions : room.sessions.filter (fun _ l ↦ ¬ p l) =
      room.sessions.filter fun _ l ↦ ¬ q l := by
    apply GoMap.ext
    intro id
    cases hl : room.sessions.lookup id with
    | none => simp [GoMap.lookup_filter, hl]
    | some l => simp [GoMap.lookup_filter, hl, h id l hl]
  simp only [endSessions, hsessions]

theorem sessionsWhere_congr {p q : RoomSession XID → Prop} [DecidablePred p] [DecidablePred q]
    (h : ∀ id l, room.sessions.lookup id = some l → (p l ↔ q l)) :
    room.sessionsWhere p = room.sessionsWhere q := by
  ext id
  rw [mem_sessionsWhere, mem_sessionsWhere]
  constructor
  · rintro ⟨l, hl, hp⟩
    exact ⟨l, hl, (h id l hl).mp hp⟩
  · rintro ⟨l, hl, hq⟩
    exact ⟨l, hl, (h id l hl).mpr hq⟩

theorem endSessions_endSessions (p q : RoomSession XID → Prop) [DecidablePred p]
    [DecidablePred q] :
    (room.endSessions p).endSessions q = room.endSessions fun l ↦ p l ∨ q l := by
  have hsessions : (room.sessions.filter fun _ l ↦ ¬ p l).filter (fun _ l ↦ ¬ q l) =
      room.sessions.filter fun _ l ↦ ¬ (p l ∨ q l) := by
    apply GoMap.ext
    intro id
    cases hl : room.sessions.lookup id with
    | none => simp [GoMap.lookup_filter, hl]
    | some l => by_cases hp : p l <;> simp [GoMap.lookup_filter, hl, hp]
  simp only [endSessions, hsessions]

theorem sessionsWhere_endSessions (p q : RoomSession XID → Prop) [DecidablePred p]
    [DecidablePred q] : room.sessionsWhere p ∪ (room.endSessions p).sessionsWhere q =
      room.sessionsWhere fun l ↦ p l ∨ q l := by
  ext id
  rw [Finset.mem_union, mem_sessionsWhere, mem_sessionsWhere, mem_sessionsWhere]
  constructor
  · rintro (⟨l, hl, hp⟩ | ⟨l, hl, hq⟩)
    · exact ⟨l, hl, Or.inl hp⟩
    · exact ⟨l, (endSessions_lookup.mp hl).1, Or.inr hq⟩
  · rintro ⟨l, hl, hpq⟩
    by_cases hp : p l
    · exact Or.inl ⟨l, hl, hp⟩
    · exact Or.inr ⟨l, endSessions_lookup.mpr ⟨hl, hp⟩, hpq.resolve_left hp⟩

theorem disjoint_sessionsWhere (p q : RoomSession XID → Prop) [DecidablePred p]
    [DecidablePred q] : Disjoint (room.sessionsWhere p) ((room.endSessions p).sessionsWhere q) := by
  rw [Finset.disjoint_left]
  intro id hid hid'
  obtain ⟨l, hl, hp⟩ := mem_sessionsWhere.mp hid
  obtain ⟨l', hl', -⟩ := mem_sessionsWhere.mp hid'
  obtain ⟨hl', hp'⟩ := endSessions_lookup.mp hl'
  rw [hl] at hl'
  exact hp' (Option.some.inj hl' ▸ hp)

/-- From `w` to `w'` the sessions that meet `p` are closed, and nothing else happens. -/
abbrev Closes (env : Env XID) (room : Room XID) (p : RoomSession XID → Prop) [DecidablePred p]
    (w w' : World XID) : Prop :=
  Change env room.mode (room.sessionsWhere p) ∅
    { sessionClosed := (room.sessionsWhere p).card } [] w w'

section Closes

variable {p q : RoomSession XID → Prop} [DecidablePred p] [DecidablePred q] {w w₁ w₂ : World XID}

theorem closes_self (h : ∀ id l, room.sessions.lookup id = some l → ¬ p l) (w : World XID) :
    room.Closes env p w w := by
  rw [Closes, sessionsWhere_of_forall h]
  exact Change.refl env room.mode w

theorem Closes.congr (hclose : room.Closes env p w w₁)
    (h : ∀ id l, room.sessions.lookup id = some l → (p l ↔ q l)) : room.Closes env q w w₁ := by
  rwa [Closes, sessionsWhere_congr h] at hclose

/-- What is closed in two steps is counted once. -/
theorem Closes.trans {f : XID → User XID → User XID} (h : room.Closes env p w w₁)
    (h' : ((room.mapUsers f).endSessions p).Closes env q w₁ w₂) :
    room.Closes env (fun l ↦ p l ∨ q l) w w₂ := by
  have hall := Change.trans h h' (Finset.disjoint_empty_left _)
  have hdead : room.sessionsWhere p ∪ ((room.mapUsers f).endSessions p).sessionsWhere q =
      room.sessionsWhere fun l ↦ p l ∨ q l := sessionsWhere_endSessions p q
  have hcard : (room.sessionsWhere fun l ↦ p l ∨ q l).card = (room.sessionsWhere p).card +
      (((room.mapUsers f).endSessions p).sessionsWhere q).card := by
    rw [← hdead]
    exact Finset.card_union_of_disjoint (disjoint_sessionsWhere p q)
  have hcount : ∀ a b : ℕ, ({ sessionClosed := a } : Metrics) + { sessionClosed := b } =
      { sessionClosed := a + b } := by
    intro a b
    simp [Metrics.add_def]
  rw [hdead, hcount, ← hcard, Finset.union_empty, List.append_nil] at hall
  exact hall

end Closes

end Room

theorem keyed_mapUsers {f : XID → User XID → User XID} {room : Room XID} (h : room.Keyed)
    (hf : ∀ k u, (f k u).id = u.id ∧ (f k u).write = u.write) : (room.mapUsers f).Keyed := by
  intro k u hu
  obtain ⟨v, hv, rfl⟩ := Room.mapUsers_lookup.mp hu
  rw [(hf k v).1, (hf k v).2]
  exact h k v hv

namespace OwnerAction

theorem closeSessions_spec (env : Env XID) (p : RoomSession XID → Prop) [DecidablePred p]
    (room : Room XID) (w : World XID) :
    ∃ w', closeSessions env p (room, w) = (room.endSessions p, w') ∧ room.Closes env p w w' := by
  obtain ⟨msgs, w', hended, hrange, hchange⟩ := Room.rangeSessions_close env room p (fun _ _ ↦ [])
    (fun id session s ↦ if p session then Room.closeSession env id s else s)
    (fun r w id l _ _ _ ↦ by simp [World.send]) w
  rw [hended.silent] at hchange
  exact ⟨w', hrange, hchange⟩

/-! ## The loops over the members -/

theorem enable_eq {o k : XID} {u : User XID} (hid : u.id = k) {room : Room XID} {w : World XID} :
    enable o k u (room, w) =
      (room.mapUsers fun k' u ↦ if k' = k ∧ k ≠ o then { u with canShare := true } else u, w) := by
  unfold enable
  by_cases hk : k = o
  · rw [if_neg (not_not.mpr (hid.trans hk)), Room.mapUsers_self]
    simp [hk]
  · rw [if_pos (fun heq ↦ hk (hid.symm.trans heq)), Room.modifyUser_eq]
    simp only [hk, ne_eq, not_false_eq_true, and_true]

theorem foldl_enable {o : XID} (ks : List XID) {room : Room XID} (hkeyed : room.Keyed)
    (w : World XID) :
    ks.foldl (fun s k ↦ match s.1.users.lookup k with
      | none => s
      | some user => enable o k user s) (room, w) =
    (room.mapUsers fun k u ↦ if k ∈ ks ∧ k ≠ o then { u with canShare := true } else u, w) := by
  induction ks generalizing room with
  | nil =>
      rw [List.foldl_nil, Room.mapUsers_self]
      simp
  | cons k ks ih =>
      rw [List.foldl_cons]
      cases hu : room.users.lookup k with
      | none =>
          simp only
          rw [ih hkeyed, Room.mapUsers_congr]
          intro k' u hu'
          have hne : k' ≠ k := by
            rintro rfl
            rw [hu] at hu'
            cases hu'
          simp [hne]
      | some u =>
          have hkeyed' : (room.mapUsers fun k' u ↦ if k' = k ∧ k ≠ o then
              { u with canShare := true } else u).Keyed := by
            apply keyed_mapUsers hkeyed
            intro k' u'
            split <;> exact ⟨rfl, rfl⟩
          simp only
          rw [enable_eq (hkeyed k u hu).1, ih hkeyed', Room.mapUsers_mapUsers, Room.mapUsers_congr]
          intro k' u' _
          by_cases hk : k' = k
          · subst hk
            by_cases ho : k' = o <;> by_cases hks : k' ∈ ks <;> simp [ho, hks]
          · simp [hk]

theorem enableAll_eq {o : XID} {room : Room XID} (hkeyed : room.Keyed) (w : World XID) :
    enableAll env o (room, w) = ((RoomOp.permitAll o).apply room, w.draw 1) := by
  have hloop := foldl_enable (o := o) ((env.range w.tick).visit room.users.keys) hkeyed (w.draw 1)
  have hquiet : ∀ id l, room.sessions.lookup id = some l → ¬ (RoomOp.permitAll o).Ends l :=
    fun _ _ _ h ↦ h
  have hall : (RoomOp.permitAll o).apply room = room.mapUsers fun k u ↦
      if k ∈ (env.range w.tick).visit room.users.keys ∧ k ≠ o then { u with canShare := true }
      else u := by
    rw [RoomOp.apply_quiet hquiet]
    apply Room.mapUsers_congr
    intro k u hu
    have hmem : k ∈ (env.range w.tick).visit room.users.keys :=
      (RangeOrder.mem_visit _).mpr (GoMap.mem_keys_of_lookup hu)
    simp only [RoomOp.update, hmem, true_and]
  rw [hall]
  exact hloop

/-- The room after the members `ks` lost the permission. -/
def forbidSome (ks : List XID) (o : XID) (room : Room XID) : Room XID :=
  (room.mapUsers fun k u ↦ if k ∈ ks ∧ k ≠ o then { u with canShare := false, streaming := false }
    else u).endSessions fun l ↦ l.host ∈ ks ∧ l.host ≠ o

theorem forbidSome_sound {r : String} {room : Room XID} (h : room.Sound r) (ks : List XID)
    (o : XID) : (forbidSome ks o room).Sound r := by
  refine h.rewrite ?_ ?_ ?_ ?_
  · intro k u
    split <;> exact ⟨rfl, rfl⟩
  · intro k u
    split <;> rfl
  · intro k u hu hs
    split at hs
    · cases hs
    · next hk =>
        rw [if_neg hk]
        exact ⟨hs, h.permitted k u hu hs⟩
  · intro l u hu hs hl
    rw [if_neg hl]
    exact hs

theorem forbidSome_cons (k : XID) (ks : List XID) (o : XID) (room : Room XID) :
    forbidSome ks o (forbidSome [k] o room) = forbidSome (k :: ks) o room := by
  have hcomm : ∀ (r : Room XID) (f : XID → User XID → User XID) (p : RoomSession XID → Prop)
      [DecidablePred p], (r.endSessions p).mapUsers f = (r.mapUsers f).endSessions p :=
    fun _ _ _ _ ↦ rfl
  unfold forbidSome
  rw [hcomm, Room.endSessions_endSessions, Room.mapUsers_mapUsers]
  have husers : room.mapUsers (fun k' u ↦ if k' ∈ ks ∧ k' ≠ o then
      { (if k' ∈ [k] ∧ k' ≠ o then { u with canShare := false, streaming := false } else u) with
        canShare := false, streaming := false }
      else if k' ∈ [k] ∧ k' ≠ o then { u with canShare := false, streaming := false } else u) =
      room.mapUsers fun k' u ↦ if k' ∈ k :: ks ∧ k' ≠ o then
        { u with canShare := false, streaming := false } else u := by
    apply Room.mapUsers_congr
    intro k' u _
    by_cases hk : k' = k
    · subst hk
      by_cases ho : k' = o <;> by_cases hks : k' ∈ ks <;> simp [ho, hks]
    · simp [hk]
  rw [husers]
  apply Room.endSessions_congr
  intro id l _
  simp only [List.mem_cons, List.not_mem_nil, or_false]
  tauto

/-- One turn of the loop in `disable_all`. -/
theorem disable_spec (env : Env XID) {o k : XID} {r : String} {room : Room XID}
    (hsound : room.Sound r) {u : User XID} (hu : room.users.lookup k = some u) (w : World XID) :
    ∃ w', disable env o k u (room, w) = (forbidSome [k] o room, w') ∧
      room.Closes env (fun l ↦ l.host ∈ [k] ∧ l.host ≠ o) w w' := by
  have hid := (hsound.keyed k u hu).1
  -- where nobody's session ends, the room is only rewritten
  have hquiet (hnone : ∀ id l, room.sessions.lookup id = some l → ¬ (l.host ∈ [k] ∧ l.host ≠ o))
      (f : XID → User XID → User XID) (hf : ∀ k' v, room.users.lookup k' = some v →
        f k' v = if k' ∈ [k] ∧ k' ≠ o then { v with canShare := false, streaming := false } else v)
      (hrun : disable env o k u (room, w) = (room.mapUsers f, w)) :
      ∃ w', disable env o k u (room, w) = (forbidSome [k] o room, w') ∧
        room.Closes env (fun l ↦ l.host ∈ [k] ∧ l.host ≠ o) w w' := by
    refine ⟨w, ?_, Room.closes_self hnone w⟩
    rw [hrun, forbidSome, Room.mapUsers_congr hf, Room.endSessions_of_forall]
    exact hnone
  by_cases hk : k = o
  · refine hquiet (fun id l _ h ↦ h.2 ((List.mem_singleton.mp h.1).trans hk)) (fun _ u ↦ u) ?_ ?_
    · intro k' v _
      rw [if_neg fun h ↦ h.2 ((List.mem_singleton.mp h.1).trans hk)]
    · rw [Room.mapUsers_self fun _ _ _ ↦ rfl]
      exact if_neg (not_not.mpr (hid.trans hk))
  have hne : u.id ≠ o := fun heq ↦ hk (hid.symm.trans heq)
  by_cases hs : u.streaming
  · obtain ⟨w', hclose, hchange⟩ := closeSessions_spec env (fun l ↦ l.host = k)
      ((room.modifyUser k fun u ↦ { u with canShare := false }).modifyUser k
        fun u ↦ { u with streaming := false }) w
    have hp : ∀ l : RoomSession XID, l.host = k ↔ l.host ∈ [k] ∧ l.host ≠ o := by
      intro l
      rw [List.mem_singleton]
      exact ⟨fun h ↦ ⟨h, h ▸ hk⟩, fun h ↦ h.1⟩
    have hclosed : room.Closes env (fun l ↦ l.host = k) w w' := hchange
    refine ⟨w', ?_, hclosed.congr fun _ l _ ↦ hp l⟩
    simp only [disable, if_pos hne, hs, if_true, hclose]
    rw [Room.modifyUser_eq, Room.modifyUser_eq, Room.mapUsers_mapUsers, forbidSome]
    have husers : room.mapUsers (fun k' u ↦ if k' = k then
        { (if k' = k then { u with canShare := false } else u) with streaming := false }
        else if k' = k then { u with canShare := false } else u) =
        room.mapUsers fun k' u ↦ if k' ∈ [k] ∧ k' ≠ o then
          { u with canShare := false, streaming := false } else u := by
      apply Room.mapUsers_congr
      intro k' v _
      by_cases hk' : k' = k
      · simp [hk', hk]
      · simp [hk']
    rw [husers, Room.endSessions_congr fun _ l _ ↦ hp l]
  · refine hquiet ?_ (fun k' v ↦ if k' = k then { v with canShare := false } else v) ?_ ?_
    · -- the host of a session is on the air
      rintro id l hl ⟨hhost, -⟩
      obtain ⟨v, hv, hstreaming⟩ := hsound.hosted id l hl
      rw [List.mem_singleton.mp hhost, hu] at hv
      exact hs (Option.some.inj hv ▸ hstreaming)
    · intro k' v hv
      by_cases hk' : k' = k
      · subst hk'
        rw [hu] at hv
        obtain rfl := Option.some.inj hv
        have hoff : u.streaming = false := by simpa using hs
        simp [hk, hoff]
      · simp [hk']
    · simp only [disable, if_pos hne, hs]
      exact congrArg (·, w) (Room.modifyUser_eq _ _ _)

theorem foldl_disable (env : Env XID) {o : XID} {r : String} (ks : List XID) {room : Room XID}
    (hsound : room.Sound r) (w : World XID) :
    ∃ w', ks.foldl (fun s k ↦ match s.1.users.lookup k with
        | none => s
        | some user => disable env o k user s) (room, w) = (forbidSome ks o room, w') ∧
      room.Closes env (fun l ↦ l.host ∈ ks ∧ l.host ≠ o) w w' := by
  induction ks generalizing room w with
  | nil =>
      have hnone : ∀ id l, room.sessions.lookup id = some l →
          ¬ (l.host ∈ ([] : List XID) ∧ l.host ≠ o) := by simp
      have hself : forbidSome [] o room = room := by
        rw [forbidSome, Room.mapUsers_self (by simp), Room.endSessions_of_forall hnone]
      refine ⟨w, ?_, Room.closes_self hnone w⟩
      rw [hself, List.foldl_nil]
  | cons k ks ih =>
      obtain ⟨w₁, hfirst, hchange⟩ : ∃ w₁, (match room.users.lookup k with
          | none => (room, w)
          | some user => disable env o k user (room, w)) = (forbidSome [k] o room, w₁) ∧
          room.Closes env (fun l ↦ l.host ∈ [k] ∧ l.host ≠ o) w w₁ := by
        cases hu : room.users.lookup k with
        | none =>
            have habsent : ∀ id l, room.sessions.lookup id = some l →
                ¬ (l.host ∈ [k] ∧ l.host ≠ o) := by
              rintro id l hl ⟨hhost, -⟩
              obtain ⟨v, hv, -⟩ := hsound.hosted id l hl
              rw [List.mem_singleton.mp hhost, hu] at hv
              cases hv
            have hself : forbidSome [k] o room = room := by
              rw [forbidSome, Room.mapUsers_self, Room.endSessions_of_forall habsent]
              intro k' u hu'
              rw [if_neg]
              rintro ⟨hk', -⟩
              rw [List.mem_singleton.mp hk', hu] at hu'
              cases hu'
            rw [hself]
            exact ⟨w, rfl, Room.closes_self habsent w⟩
        | some u => exact disable_spec env hsound hu w
      obtain ⟨w', hrest, hchange'⟩ := ih (forbidSome_sound hsound [k] o) w₁
      have hall : room.Closes env
          (fun l ↦ (l.host ∈ [k] ∧ l.host ≠ o) ∨ (l.host ∈ ks ∧ l.host ≠ o)) w w' :=
        hchange.trans hchange'
      refine ⟨w', ?_, hall.congr fun id l _ ↦ ?_⟩
      · rw [List.foldl_cons]
        simp only
        rw [hfirst, hrest, forbidSome_cons]
      · simp only [List.mem_cons, List.not_mem_nil, or_false]
        tauto

theorem disableAll_spec (env : Env XID) {o : XID} {r : String} {room : Room XID}
    (hsound : room.Sound r) (w : World XID) :
    ∃ w', disableAll env o (room, w) = ((RoomOp.forbidAll o).apply room, w') ∧
      room.Closes env (RoomOp.forbidAll o).Ends w w' := by
  set ks := (env.range w.tick).visit room.users.keys with hks
  have hvisit : ∀ k u, room.users.lookup k = some u → k ∈ ks := fun k u hu ↦
    (RangeOrder.mem_visit _).mpr (GoMap.mem_keys_of_lookup hu)
  -- every host is among the members
  have hp : ∀ id l, room.sessions.lookup id = some l →
      ((l.host ∈ ks ∧ l.host ≠ o) ↔ (RoomOp.forbidAll o).Ends l) := by
    intro id l hl
    obtain ⟨u, hu, -⟩ := hsound.hosted id l hl
    exact ⟨fun h ↦ h.2, fun h ↦ ⟨hvisit _ u hu, h⟩⟩
  obtain ⟨w', hloop, hchange⟩ := foldl_disable env (o := o) ks hsound (w.draw 1)
  have happly : forbidSome ks o room = (RoomOp.forbidAll o).apply room := by
    have husers : room.mapUsers (fun k u ↦ if k ∈ ks ∧ k ≠ o then
        { u with canShare := false, streaming := false } else u) =
        room.mapUsers (RoomOp.forbidAll o).update := by
      apply Room.mapUsers_congr
      intro k u hu
      simp only [RoomOp.update, hvisit k u hu, true_and]
    rw [forbidSome, husers]
    exact Room.endSessions_congr hp
  rw [happly] at hloop
  refine ⟨w', hloop, ?_⟩
  simpa using (change_draw env room.mode 1 w).before (hchange.congr hp)

/-! ## The handler -/

variable {s : Rooms XID} {c : ClientInfo XID} {r : String} {room : Room XID}

theorem stopShare_spec (env : Env XID) (t : XID) (room : Room XID) (w : World XID) :
    ∃ w', stopShare env t (room, w) = ((RoomOp.stopStream t).apply room, w') ∧
      room.Closes env (RoomOp.stopStream t).Ends w w' := by
  obtain ⟨w', hclose, hchange⟩ := closeSessions_spec env (fun l ↦ l.host = t)
    (room.modifyUser t fun u ↦ { u with streaming := false }) w
  refine ⟨w', ?_, hchange⟩
  rw [stopShare, hclose, Room.modifyUser_eq]
  rfl

theorem toggle_spec (env : Env XID) {t : XID} {target : User XID} (hsound : room.Sound r)
    (htarget : room.users.lookup t = some target) (w : World XID) :
    ∃ w', toggleSharePermission env t target (room, w) = ((RoomOp.toggle t).apply room, w') ∧
      room.Closes env (RoomOp.toggle t).Ends w w' := by
  by_cases hs : target.streaming
  · -- whoever is on the air has the permission
    have hcan := hsound.permitted t target htarget hs
    obtain ⟨w', hstop, hchange⟩ := stopShare_spec env t
      (room.modifyUser t fun u ↦ { u with canShare := !u.canShare }) w
    refine ⟨w', ?_, hchange⟩
    have husers : (room.mapUsers fun k u ↦ if k = t then { u with canShare := !u.canShare }
        else u).mapUsers (RoomOp.stopStream t).update = room.mapUsers (RoomOp.toggle t).update := by
      rw [Room.mapUsers_mapUsers, Room.mapUsers_congr]
      intro k u _
      by_cases hk : k = t <;> simp [RoomOp.update, hk]
    have happly : (RoomOp.stopStream t).apply
        (room.modifyUser t fun u ↦ { u with canShare := !u.canShare }) =
        (RoomOp.toggle t).apply room := by
      rw [Room.modifyUser_eq, RoomOp.apply, husers]
      rfl
    simp only [toggleSharePermission, hcan, hs, and_self, if_true, hstop, happly]
  · have hquiet : ∀ id l, room.sessions.lookup id = some l → ¬ (RoomOp.toggle t).Ends l := by
      rintro id l hl rfl
      obtain ⟨u, hu, hstreaming⟩ := hsound.hosted id l hl
      rw [htarget] at hu
      exact hs (Option.some.inj hu ▸ hstreaming)
    have happly : room.modifyUser t (fun u ↦ { u with canShare := !u.canShare }) =
        (RoomOp.toggle t).apply room := by
      rw [RoomOp.apply_quiet hquiet, Room.modifyUser_eq, Room.mapUsers_congr]
      intro k u hu
      by_cases hk : k = t
      · subst hk
        rw [htarget] at hu
        obtain rfl := Option.some.inj hu
        have hoff : target.streaming = false := by simpa using hs
        simp [RoomOp.update, hoff]
      · simp [RoomOp.update, hk]
    have hand : ¬ (target.canShare ∧ target.streaming) := fun h ↦ hs h.2
    refine ⟨w, ?_, Room.closes_self hquiet w⟩
    simp only [toggleSharePermission, if_neg hand, happly]

/-- `kick` and `ban`, with the ban list written. -/
theorem remove_spec (env : Env XID) {s : Rooms XID} {r : String} {room : Room XID}
    (hsound : room.Sound r) {t : XID} {target : User XID}
    (htarget : room.users.lookup t = some target) (reason : String) :
    ∃ (told : List (XID × Message XID)) (w : World XID),
      remove env t target reason r room s =
        ⟨s.rooms.insert r (room.remove t), s.connected.erase t, w⟩ ∧
      (room.remove t).Announces told ∧
      Change env room.mode (room.sessionsWhere (Touches t)) ∅
        { usersLeft := 1, sessionClosed := (room.sessionsWhere (Touches t)).card }
        ((t, .closeWriter closeNormalClosure reason) :: told) s.world w := by
  obtain ⟨w, hclose, hchange⟩ := closeSessions_spec env
    (fun l ↦ l.host = t ∨ l.client = t) { room with users := room.users.erase t } s.world
  have hloop : closeSessions env (fun l ↦ l.host = t ∨ l.client = t)
      ({ room with users := room.users.erase t }, s.world) = (room.remove t, w) := hclose
  have hbye : target.writeTimeout (.closeWriter closeNormalClosure reason) w =
      w.writeTimeout t (.closeWriter closeNormalClosure reason) := by
    rw [User.writeTimeout, (hsound.keyed t target htarget).2]
  obtain ⟨told, htold, hnotify⟩ := Room.notifyInfoChanged_spec env (hsound.keyed_remove t)
    room.mode (w.writeTimeout t (.closeWriter closeNormalClosure reason))
  have hchange' : room.Closes env (Touches t) s.world w := hchange
  have hall := ((hchange'.after (change_writeTimeout env room.mode t
    (.closeWriter closeNormalClosure reason) w)).after hnotify).after
    (change_count env room.mode { usersLeft := 1 } _)
  have hcount : ({ sessionClosed := (room.sessionsWhere (Touches t)).card } : Metrics) + 0 + 0 +
      { usersLeft := 1 } =
      { usersLeft := 1, sessionClosed := (room.sessionsWhere (Touches t)).card } := by
    simp [Metrics.add_def]
  rw [List.append_nil, List.nil_append, List.singleton_append, hcount] at hall
  refine ⟨told, _, ?_, htold, hall⟩
  simp only [remove, hloop, hbye]
  rfl

theorem remove_effect (hwf : s.WF env) (hin : s.In c.id r room) (howner : room.OwnedBy c.id)
    {a : OwnerAction} {t : XID} (ht : a.Targets env c.id t) {target : User XID}
    (htarget : room.users.lookup t = some target) {room' : Room XID}
    (hban : a.action = "kick" ∧ room' = room ∨
      a.action = "ban" ∧ room' = room.banAddr target.addr) (reason : String) :
    Effect env c s (.ownerAction a) (remove env t target reason r room' s) := by
  have hsound := hwf.sound r room hin.lookup
  have hsound' : room'.Sound r := by
    rcases hban with ⟨-, rfl⟩ | ⟨-, rfl⟩
    · exact hsound
    · exact hsound.banAddr _
  have husers : room'.users = room.users := by
    rcases hban with ⟨-, rfl⟩ | ⟨-, rfl⟩ <;> rfl
  obtain ⟨told, w, hrun, htold, hchange⟩ :=
    remove_spec env (s := s) hsound' (husers.symm ▸ htarget) reason
  have hmode : room'.mode = room.mode := by
    rcases hban with ⟨-, rfl⟩ | ⟨-, rfl⟩ <;> rfl
  have hdead : room'.sessionsWhere (Touches t) = room.sessionsWhere (Touches t) := by
    rcases hban with ⟨-, rfl⟩ | ⟨-, rfl⟩ <;> rfl
  rw [hmode, hdead] at hchange
  rw [hrun]
  exact .remove hin howner ht htarget hban htold hchange

end OwnerAction

section OnTarget

variable {s : Rooms XID} {c : ClientInfo XID} {r : String} {room : Room XID} {t : XID}
  {target : User XID}

/-- The `switch e.Action` of an owner's action on another member. -/
def OwnerAction.onTarget (env : Env XID) (a : OwnerAction) (t : XID) (target : User XID)
    (r : String) (room : Room XID) (s : Rooms XID) : Outcome XID :=
  if a.action = "stop_share" then
    if target.streaming then
      let (room, w) := stopShare env t (room, s.world)
      .ok (s.store r (room, room.notifyInfoChanged env w))
    else .ok s
  else if a.action = "toggle_share_permission" then
    let (room, w) := toggleSharePermission env t target (room, s.world)
    .ok (s.store r (room, room.notifyInfoChanged env w))
  else if a.action = "kick" then .ok (remove env t target "kickedByOwner" r room s)
  else if a.action = "ban" then
    .ok (remove env t target "bannedByOwner" r (room.banAddr target.addr) s)
  else .error ("unknown action: " ++ a.action) s

theorem OwnerAction.execute_on {a : OwnerAction} (h : s.currentRoom c = .ok (r, room))
    (howner : (room.users.lookup c.id).any fun u ↦ u.owner) (henable : a.action ≠ "enable_all")
    (hdisable : a.action ≠ "disable_all") (ht : a.Targets env c.id t)
    (htarget : room.users.lookup t = some target) :
    a.execute env s c = a.onTarget env t target r room s := by
  obtain ⟨hempty, hid, hself⟩ := ht
  simp only [OwnerAction.execute, h, if_neg (not_not.mpr howner), if_neg henable, if_neg hdisable,
    if_neg hempty, hid, htarget, if_neg hself]
  rfl

theorem OwnerAction.onTarget_settles (hwf : s.WF env) (hc : c.id ∈ s.connected.keys)
    (hin : s.In c.id r room) (howned : room.OwnedBy c.id) {a : OwnerAction}
    (ht : a.Targets env c.id t) (htarget : room.users.lookup t = some target) :
    Settles env c s (.ownerAction a) (a.onTarget env t target r room s) := by
  have hsound := hwf.sound r room hin.lookup
  unfold OwnerAction.onTarget
  split
  · next ha =>
      split
      · obtain ⟨w, hrun, hchange⟩ := OwnerAction.stopShare_spec env t room s.world
        simp only [hrun]
        exact effect_update hwf hin (.ownerStop ha howned ht) (Room.ended_silent _ room) hchange
      · exact .idle (Change.refl env "" s.world)
  · split
    · next ha =>
        obtain ⟨w, hrun, hchange⟩ := OwnerAction.toggle_spec env hsound htarget s.world
        simp only [hrun]
        exact effect_update hwf hin (.ownerToggle ha howned ht) (Room.ended_silent _ room) hchange
    · split
      · next ha => exact remove_effect hwf hin howned ht htarget (Or.inl ⟨ha, rfl⟩) _
      · split
        · next ha => exact remove_effect hwf hin howned ht htarget (Or.inr ⟨ha, rfl⟩) _
        · exact settles_error_self hwf hc _

end OnTarget

theorem OwnerAction.settles {s : Rooms XID} {c : ClientInfo XID} (hwf : s.WF env)
    (hc : c.id ∈ s.connected.keys) (a : OwnerAction) :
    Settles env c s (.ownerAction a) (a.execute env s c) := by
  cases h : s.currentRoom c with
  | error err =>
      simp only [OwnerAction.execute, h]
      exact settles_error_self hwf hc err
  | ok p =>
      obtain ⟨r, room⟩ := p
      have hin := in_of_currentRoom h
      have hsound := hwf.sound r room hin.lookup
      by_cases howner : (room.users.lookup c.id).any fun u ↦ u.owner
      swap
      · simp only [OwnerAction.execute, h, if_pos howner]
        exact settles_error_self hwf hc _
      have howned := Room.ownedBy_iff_any.mpr howner
      have hnot : ¬ ¬ (room.users.lookup c.id).any fun u ↦ u.owner := not_not.mpr howner
      by_cases henable : a.action = "enable_all"
      · simp only [OwnerAction.execute, h, if_neg hnot, if_pos henable,
          OwnerAction.enableAll_eq hsound.keyed]
        exact effect_update_quiet hwf hin (.ownerEnable henable howned) (fun _ _ _ h ↦ h)
          (change_draw env "" 1 s.world)
      by_cases hdisable : a.action = "disable_all"
      · obtain ⟨w, hrun, hchange⟩ := OwnerAction.disableAll_spec env (o := c.id) hsound s.world
        simp only [OwnerAction.execute, h, if_neg hnot, if_neg henable, if_pos hdisable, hrun]
        exact effect_update hwf hin (.ownerDisable hdisable howned) (Room.ended_silent _ room)
          hchange
      by_cases hempty : a.targetUserID = ""
      · simp only [OwnerAction.execute, h, if_neg hnot, if_neg henable, if_neg hdisable,
          if_pos hempty]
        exact settles_error_self hwf hc _
      cases hid : env.xid.fromString a.targetUserID with
      | none =>
          simp only [OwnerAction.execute, h, if_neg hnot, if_neg henable, if_neg hdisable,
            if_neg hempty, hid]
          exact settles_error_self hwf hc _
      | some t =>
          cases htarget : room.users.lookup t with
          | none =>
              simp only [OwnerAction.execute, h, if_neg hnot, if_neg henable, if_neg hdisable,
                if_neg hempty, hid, htarget]
              exact settles_error_self hwf hc _
          | some target =>
              by_cases hself : t = c.id
              · simp only [OwnerAction.execute, h, if_neg hnot, if_neg henable, if_neg hdisable,
                  if_neg hempty, hid, htarget, if_pos hself]
                exact settles_error_self hwf hc _
              have ht : a.Targets env c.id t := ⟨hempty, hid, hself⟩
              rw [OwnerAction.execute_on h howner henable hdisable ht htarget]
              exact OwnerAction.onTarget_settles hwf hc hin howned ht htarget

/-- What the action of the owner `o` makes of the room, for the actions that take somebody off
the air. -/
inductive OwnerAction.Acts (env : Env XID) (a : OwnerAction) (o : XID) (room : Room XID) :
    Room XID → Prop
  | disableAll (ha : a.action = "disable_all") : Acts env a o room ((RoomOp.forbidAll o).apply room)
  | stopShare {t : XID} {u : User XID} (ha : a.action = "stop_share") (ht : a.Targets env o t)
      (hu : room.users.lookup t = some u) (hs : u.streaming) :
      Acts env a o room ((RoomOp.stopStream t).apply room)
  | toggle {t : XID} {u : User XID} (ha : a.action = "toggle_share_permission")
      (ht : a.Targets env o t) (hu : room.users.lookup t = some u) :
      Acts env a o room ((RoomOp.toggle t).apply room)
  | kick {t : XID} {u : User XID} (ha : a.action = "kick") (ht : a.Targets env o t)
      (hu : room.users.lookup t = some u) : Acts env a o room (room.remove t)
  | ban {t : XID} {u : User XID} (ha : a.action = "ban") (ht : a.Targets env o t)
      (hu : room.users.lookup t = some u) : Acts env a o room ((room.banAddr u.addr).remove t)

theorem OwnerAction.acts_ok {s : Rooms XID} {c : ClientInfo XID} {r : String}
    {room room' : Room XID} (hwf : s.WF env) (hin : s.In c.id r room)
    (howned : room.OwnedBy c.id) {a : OwnerAction} (h : a.Acts env c.id room room') :
    ∃ s', a.execute env s c = .ok s' ∧ s'.rooms = s.rooms.insert r room' := by
  have hsound := hwf.sound r room hin.lookup
  have hcurrent := currentRoom_of_in hin
  have howner := Room.ownedBy_iff_any.mp howned
  have hclose (t : XID) (room₁ : Room XID) : ∃ w, OwnerAction.closeSessions env
      (fun l ↦ l.host = t ∨ l.client = t) ({ room₁ with users := room₁.users.erase t }, s.world) =
        (room₁.remove t, w) := by
    obtain ⟨w, hclose, -⟩ := OwnerAction.closeSessions_spec env
      (fun l ↦ l.host = t ∨ l.client = t) { room₁ with users := room₁.users.erase t } s.world
    exact ⟨w, hclose⟩
  cases h with
  | disableAll ha =>
      obtain ⟨w, hrun, -⟩ := OwnerAction.disableAll_spec env (o := c.id) hsound s.world
      have hfirst : ¬ a.action = "enable_all" := by
        rw [ha]
        decide
      simp only [OwnerAction.execute, hcurrent, if_neg (not_not.mpr howner), if_neg hfirst,
        if_pos ha, hrun]
      exact ⟨_, rfl, rfl⟩
  | @stopShare t u ha ht hu hs =>
      obtain ⟨w, hrun, -⟩ := OwnerAction.stopShare_spec env t room s.world
      rw [OwnerAction.execute_on hcurrent howner (by rw [ha]; decide) (by rw [ha]; decide) ht hu]
      simp only [OwnerAction.onTarget, if_pos ha, if_pos hs, hrun]
      exact ⟨_, rfl, rfl⟩
  | @toggle t u ha ht hu =>
      obtain ⟨w, hrun, -⟩ := OwnerAction.toggle_spec env hsound hu s.world
      rw [OwnerAction.execute_on hcurrent howner (by rw [ha]; decide) (by rw [ha]; decide) ht hu]
      have hstop : ¬ a.action = "stop_share" := by
        rw [ha]
        decide
      simp only [OwnerAction.onTarget, if_neg hstop, if_pos ha, hrun]
      exact ⟨_, rfl, rfl⟩
  | @kick t u ha ht hu =>
      obtain ⟨w, hrun⟩ := hclose t room
      rw [OwnerAction.execute_on hcurrent howner (by rw [ha]; decide) (by rw [ha]; decide) ht hu]
      simp only [OwnerAction.onTarget, OwnerAction.remove, ha, hrun]
      exact ⟨_, rfl, rfl⟩
  | @ban t u ha ht hu =>
      obtain ⟨w, hrun⟩ := hclose t (room.banAddr u.addr)
      rw [OwnerAction.execute_on hcurrent howner (by rw [ha]; decide) (by rw [ha]; decide) ht hu]
      simp only [OwnerAction.onTarget, OwnerAction.remove, ha, hrun]
      exact ⟨_, rfl, rfl⟩

/-! ## Acceptance -/

/-- The `switch e.Action` has a case for the action on another member. -/
def OwnerAction.Known (a : OwnerAction) : Prop :=
  a.action = "stop_share" ∨ a.action = "toggle_share_permission" ∨ a.action = "kick" ∨
    a.action = "ban"

/-- What the handler asks for. -/
def OwnerAction.Accepted (env : Env XID) (a : OwnerAction) (o : XID) (room : Room XID) : Prop :=
  room.OwnedBy o ∧ (a.action = "enable_all" ∨ a.action = "disable_all" ∨
    a.Known ∧ ∃ t ∈ room.users.keys, a.Targets env o t)

/-- The client `c` keeps its entry and its record in the room under `r`. -/
structure Kept (c : XID) (r : String) (room : Room XID) (s s' : Rooms XID) : Prop where
  connected : s'.connected.lookup c = s.connected.lookup c
  record : ∃ room', s'.rooms.lookup r = some room' ∧
    room'.users.lookup c = room.users.lookup c

section Acceptance

variable {s : Rooms XID} {c : ClientInfo XID} {r : String} {room : Room XID}

theorem Kept.refl (hin : s.In c.id r room) : Kept c.id r room s s :=
  ⟨rfl, room, hin.lookup, rfl⟩

theorem kept_store {room' : Room XID} {w : World XID}
    (hrecord : room'.users.lookup c.id = room.users.lookup c.id) :
    Kept c.id r room s (s.store r (room', w)) :=
  ⟨rfl, room', GoMap.lookup_insert_self _ _ _, hrecord⟩

theorem apply_record {op : RoomOp XID} {k : XID} (h : ∀ u, op.update k u = u) :
    (op.apply room).users.lookup k = room.users.lookup k := by
  apply Option.ext
  intro u
  rw [RoomOp.apply_lookup]
  simp [h]

theorem OwnerAction.kept_remove {a : OwnerAction} {t : XID} (ht : a.Targets env c.id t)
    (target : User XID) (reason : String) {room' : Room XID} (husers : room'.users = room.users) :
    Kept c.id r room s (remove env t target reason r room' s) := by
  have hne : c.id ≠ t := ht.2.2.symm
  obtain ⟨w, hclose, -⟩ := closeSessions_spec env (fun l ↦ l.host = t ∨ l.client = t)
    { room' with users := room'.users.erase t } s.world
  simp only [remove, hclose]
  refine ⟨GoMap.lookup_erase_of_ne hne, _, GoMap.lookup_insert_self _ _ _, ?_⟩
  rw [Room.endSessions_users, husers]
  exact GoMap.lookup_erase_of_ne hne

theorem OwnerAction.execute_accepted (hwf : s.WF env) (hin : s.In c.id r room) {a : OwnerAction}
    (h : a.Accepted env c.id room) :
    ∃ s', a.execute env s c = .ok s' ∧ Kept c.id r room s s' := by
  have hsound := hwf.sound r room hin.lookup
  have hcurrent := currentRoom_of_in hin
  obtain ⟨howned, haction⟩ := h
  have howner := Room.ownedBy_iff_any.mp howned
  have hnot := not_not.mpr howner
  by_cases henable : a.action = "enable_all"
  · simp only [OwnerAction.execute, hcurrent, if_neg hnot, if_pos henable,
      OwnerAction.enableAll_eq hsound.keyed]
    exact ⟨_, rfl, kept_store (apply_record fun u ↦ if_neg (not_not.mpr rfl))⟩
  by_cases hdisable : a.action = "disable_all"
  · obtain ⟨w, hrun, -⟩ := OwnerAction.disableAll_spec env (o := c.id) hsound s.world
    simp only [OwnerAction.execute, hcurrent, if_neg hnot, if_neg henable, if_pos hdisable, hrun]
    exact ⟨_, rfl, kept_store (apply_record fun u ↦ if_neg (not_not.mpr rfl))⟩
  obtain ⟨hknown, t, hmem, ht⟩ := (haction.resolve_left henable).resolve_left hdisable
  obtain ⟨target, htarget⟩ := GoMap.mem_keys.mp hmem
  have hne : ¬ c.id = t := ht.2.2.symm
  rw [OwnerAction.execute_on hcurrent howner henable hdisable ht htarget]
  unfold OwnerAction.onTarget
  by_cases hstop : a.action = "stop_share"
  · rw [if_pos hstop]
    split
    · obtain ⟨w, hrun, -⟩ := OwnerAction.stopShare_spec env t room s.world
      simp only [hrun]
      exact ⟨_, rfl, kept_store (apply_record fun u ↦ if_neg hne)⟩
    · exact ⟨s, rfl, .refl hin⟩
  by_cases htoggle : a.action = "toggle_share_permission"
  · obtain ⟨w, hrun, -⟩ := OwnerAction.toggle_spec env hsound htarget s.world
    simp only [if_neg hstop, if_pos htoggle, hrun]
    exact ⟨_, rfl, kept_store (apply_record fun u ↦ if_neg hne)⟩
  rw [if_neg hstop, if_neg htoggle]
  by_cases hkick : a.action = "kick"
  · rw [if_pos hkick]
    exact ⟨_, rfl, OwnerAction.kept_remove ht target _ rfl⟩
  · have hban := ((hknown.resolve_left hstop).resolve_left htoggle).resolve_left hkick
    rw [if_neg hkick, if_pos hban]
    exact ⟨_, rfl, OwnerAction.kept_remove ht target _ rfl⟩

theorem OwnerAction.execute_refused (hin : s.In c.id r room) {a : OwnerAction}
    (h : ¬ a.Accepted env c.id room) : ∃ err, a.execute env s c = .error err s := by
  have hcurrent := currentRoom_of_in hin
  by_cases howner : (room.users.lookup c.id).any fun u ↦ u.owner
  swap
  · simp only [OwnerAction.execute, hcurrent, if_pos howner]
    exact ⟨_, rfl⟩
  have howned := Room.ownedBy_iff_any.mpr howner
  have hnot := not_not.mpr howner
  have henable : ¬ a.action = "enable_all" := fun ha ↦ h ⟨howned, Or.inl ha⟩
  have hdisable : ¬ a.action = "disable_all" := fun ha ↦ h ⟨howned, Or.inr (Or.inl ha)⟩
  by_cases hempty : a.targetUserID = ""
  · simp only [OwnerAction.execute, hcurrent, if_neg hnot, if_neg henable, if_neg hdisable,
      if_pos hempty]
    exact ⟨_, rfl⟩
  cases hid : env.xid.fromString a.targetUserID with
  | none =>
      simp only [OwnerAction.execute, hcurrent, if_neg hnot, if_neg henable, if_neg hdisable,
        if_neg hempty, hid]
      exact ⟨_, rfl⟩
  | some t =>
      cases htarget : room.users.lookup t with
      | none =>
          simp only [OwnerAction.execute, hcurrent, if_neg hnot, if_neg henable, if_neg hdisable,
            if_neg hempty, hid, htarget]
          exact ⟨_, rfl⟩
      | some target =>
          by_cases hself : t = c.id
          · simp only [OwnerAction.execute, hcurrent, if_neg hnot, if_neg henable,
              if_neg hdisable, if_neg hempty, hid, htarget, if_pos hself]
            exact ⟨_, rfl⟩
          have ht : a.Targets env c.id t := ⟨hempty, hid, hself⟩
          have hunknown : ¬ a.Known := fun hknown ↦
            h ⟨howned, Or.inr (Or.inr ⟨hknown, t, GoMap.mem_keys_of_lookup htarget, ht⟩)⟩
          obtain ⟨hstop, htoggle, hkick, hban⟩ : a.action ≠ "stop_share" ∧
              a.action ≠ "toggle_share_permission" ∧ a.action ≠ "kick" ∧ a.action ≠ "ban" := by
            simpa only [OwnerAction.Known, not_or] using hunknown
          rw [OwnerAction.execute_on hcurrent howner henable hdisable ht htarget,
            OwnerAction.onTarget, if_neg hstop, if_neg htoggle, if_neg hkick, if_neg hban]
          exact ⟨_, rfl⟩

end Acceptance

end Screego
