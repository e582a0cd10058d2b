import Screego.Spec.Effect

/-!
# Sound rooms

What holds of every room that exists, whatever its members do: who may be on
the air, whom the sessions connect, and who owns it.  A message changes a room
by one `Step`, and every step leaves a sound room.
-/

namespace Screego

open Outgoing World

variable {XID : Type} [DecidableEq XID]

namespace Room

structure Sound (r : String) (room : Room XID) : Prop where
  id_eq : room.id = r
  keyed : room.Keyed
  nonempty : room.users.keys.Nonempty
  hosted : ∀ id s, room.sessions.lookup id = some s →
    ∃ u, room.users.lookup s.host = some u ∧ u.streaming
  viewed : ∀ id s, room.sessions.lookup id = some s →
    s.client ∈ room.users.keys ∧ s.client ≠ s.host
  streamer_unique : ∀ k u k' u', room.users.lookup k = some u →
    room.users.lookup k' = some u' → u.streaming → u'.streaming → k = k'
  permitted : ∀ k u, room.users.lookup k = some u → u.streaming → u.canShare
  owned : r ≠ "" → ∃ o, room.OwnedBy o
  owner_unique : ∀ o o', room.OwnedBy o → room.OwnedBy o' → o = o'
  quiet : r = "" → ∀ k u, room.users.lookup k = some u → ¬ u.streaming

theorem OwnedBy.mem {o : XID} {room : Room XID} (h : room.OwnedBy o) : o ∈ room.users.keys := by
  obtain ⟨u, hu, -⟩ := h
  exact GoMap.mem_keys_of_lookup hu

/-- The check of `OwnerAction.Execute`. -/
theorem ownedBy_iff_any {o : XID} {room : Room XID} :
    room.OwnedBy o ↔ (room.users.lookup o).any fun u ↦ u.owner := by
  rw [Option.any_eq_true]
  rfl

theorem Sound.ends_mem {r : String} {room : Room XID} (h : room.Sound r) {id : XID}
    {l : RoomSession XID} (hl : room.sessions.lookup id = some l) :
    l.host ∈ room.users.keys ∧ l.client ∈ room.users.keys := by
  obtain ⟨u, hu, -⟩ := h.hosted id l hl
  exact ⟨GoMap.mem_keys_of_lookup hu, (h.viewed id l hl).1⟩

/-! ## Steps -/

/-- One message of `c` turns the room under `r` into another one. -/
inductive Step (env : Env XID) (c : ClientInfo XID) (w : World XID) (e : Event XID) (r : String)
    (room : Room XID) : Room XID → Prop
  | enter {name : String} {os : List (OpenedSession XID)} (hnamed : e.named = some r)
      (hban : room.bannedIPs.lookup c.addr.toString ≠ some true)
      (hfresh : r ≠ "" → c.id ∉ room.users.keys)
      (hos : room.Opened env w (fun l ↦ l.client = c.id ∧ l.host ≠ c.id ∧
        ∃ u, room.users.lookup l.host = some u ∧ u.streaming) os)
      (hnew : ∀ o ∈ os, o.id ∉ room.sessions.keys) :
      Step env c w e r room ((room.enter (c.newUser name false)).openSessions os)
  | update {op : RoomOp XID} (hr : r ≠ "") (hmem : c.id ∈ room.users.keys)
      (hop : op.IssuedBy env c.id room e) : Step env c w e r room (op.apply room)
  | share {u : User XID} {os : List (OpenedSession XID)} (he : e = .startShare) (hr : r ≠ "")
      (huser : room.users.lookup c.id = some u) (hcan : u.canShare)
      (hfree : ∀ k u, room.users.lookup k = some u → u.streaming → k = c.id)
      (hip : ∃ v4 v6, env.turnIPProvider w.tick = .ok (v4, v6))
      (hos : room.Opened env w (fun l ↦ l.host = c.id ∧ l.client ≠ c.id ∧
        l.client ∈ room.users.keys) os)
      (hnew : ∀ o ∈ os, o.id ∉ room.sessions.keys) :
      Step env c w e r room ((room.startStream c.id).openSessions os)
  | remove {t : XID} {target : User XID} {room' : Room XID} (hr : r ≠ "")
      (howner : room.OwnedBy c.id) (hne : t ≠ c.id) (htarget : room.users.lookup t = some target)
      (hban : room' = room ∨ room' = room.banAddr target.addr) :
      Step env c w e r room (room'.remove t)
  | left {room' : Room XID} (hr : r ≠ "") (hleft : room.LeftBy c.id room') :
      Step env c w e r room room'

/-! ## Operations keep rooms sound -/

variable {r : String} {room room' : Room XID}

/-- Opening sessions between a member on the air and other members. -/
theorem Sound.openSessions (h : room.Sound r) {os : List (OpenedSession XID)}
    (hids : (os.map OpenedSession.id).Nodup)
    (hos : ∀ o ∈ os, (∃ u, room.users.lookup o.session.host = some u ∧ u.streaming) ∧
      o.session.client ∈ room.users.keys ∧ o.session.client ≠ o.session.host) :
    (room.openSessions os).Sound r where
  id_eq := h.id_eq
  keyed := h.keyed
  nonempty := h.nonempty
  hosted := by
    intro id s hs
    rcases (openSessions_lookup hids).mp hs with ⟨o, ho, -, rfl⟩ | ⟨-, hs⟩
    · exact (hos o ho).1
    · exact h.hosted id s hs
  viewed := by
    intro id s hs
    rcases (openSessions_lookup hids).mp hs with ⟨o, ho, -, rfl⟩ | ⟨-, hs⟩
    · exact (hos o ho).2
    · exact h.viewed id s hs
  streamer_unique := h.streamer_unique
  permitted := h.permitted
  owned := h.owned
  owner_unique := h.owner_unique
  quiet := h.quiet

theorem Sound.banAddr (h : room.Sound r) (addr : IP) : (room.banAddr addr).Sound r :=
  ⟨h.id_eq, h.keyed, h.nonempty, h.hosted, h.viewed, h.streamer_unique, h.permitted, h.owned,
    h.owner_unique, h.quiet⟩

theorem rewrite_lookup {f : XID → User XID → User XID} {p : RoomSession XID → Prop}
    [DecidablePred p] {k : XID} {u : User XID} :
    ((room.mapUsers f).endSessions p).users.lookup k = some u ↔
      ∃ v, room.users.lookup k = some v ∧ f k v = u := by
  rw [endSessions_users, mapUsers_lookup]

/-- Rewriting the records of a room and ending sessions. -/
theorem Sound.rewrite (h : room.Sound r) {f : XID → User XID → User XID}
    {p : RoomSession XID → Prop} [DecidablePred p]
    (hid : ∀ k u, (f k u).id = u.id ∧ (f k u).write = u.write)
    (howner : ∀ k u, (f k u).owner = u.owner)
    (hstream : ∀ k u, room.users.lookup k = some u → (f k u).streaming →
      u.streaming ∧ (f k u).canShare)
    (hkept : ∀ s u, room.users.lookup s.host = some u → u.streaming → ¬ p s →
      (f s.host u).streaming) :
    ((room.mapUsers f).endSessions p).Sound r where
  id_eq := h.id_eq
  keyed := by
    intro k u hu
    obtain ⟨v, hv, rfl⟩ := rewrite_lookup.mp hu
    rw [(hid k v).1, (hid k v).2]
    exact h.keyed k v hv
  nonempty := by
    obtain ⟨k, hk⟩ := h.nonempty
    obtain ⟨u, hu⟩ := GoMap.mem_keys.mp hk
    exact ⟨k, GoMap.mem_keys_of_lookup (rewrite_lookup.mpr ⟨u, hu, rfl⟩)⟩
  hosted := by
    intro id s hs
    obtain ⟨hs, hp⟩ := endSessions_lookup.mp hs
    obtain ⟨u, hu, hstreaming⟩ := h.hosted id s hs
    exact ⟨f s.host u, rewrite_lookup.mpr ⟨u, hu, rfl⟩, hkept s u hu hstreaming hp⟩
  viewed := by
    intro id s hs
    obtain ⟨hs, -⟩ := endSessions_lookup.mp hs
    obtain ⟨hmem, hne⟩ := h.viewed id s hs
    obtain ⟨u, hu⟩ := GoMap.mem_keys.mp hmem
    exact ⟨GoMap.mem_keys_of_lookup (rewrite_lookup.mpr ⟨u, hu, rfl⟩), hne⟩
  streamer_unique := by
    intro k u k' u' hu hu' hs hs'
    obtain ⟨v, hv, rfl⟩ := rewrite_lookup.mp hu
    obtain ⟨v', hv', rfl⟩ := rewrite_lookup.mp hu'
    exact h.streamer_unique k v k' v' hv hv' (hstream k v hv hs).1 (hstream k' v' hv' hs').1
  permitted := by
    intro k u hu hs
    obtain ⟨v, hv, rfl⟩ := rewrite_lookup.mp hu
    exact (hstream k v hv hs).2
  owned := by
    intro hr
    obtain ⟨o, u, hu, ho⟩ := h.owned hr
    exact ⟨o, f o u, rewrite_lookup.mpr ⟨u, hu, rfl⟩, (howner o u).trans ho⟩
  owner_unique := by
    rintro o o' ⟨u, hu, ho⟩ ⟨u', hu', ho'⟩
    obtain ⟨v, hv, rfl⟩ := rewrite_lookup.mp hu
    obtain ⟨v', hv', rfl⟩ := rewrite_lookup.mp hu'
    exact h.owner_unique o o' ⟨v, hv, (howner o v).symm.trans ho⟩
      ⟨v', hv', (howner o' v').symm.trans ho'⟩
  quiet := by
    intro hr k u hu hs
    obtain ⟨v, hv, rfl⟩ := rewrite_lookup.mp hu
    exact h.quiet hr k v hv (hstream k v hv hs).1

theorem startStream_lookup {t k : XID} {u : User XID} :
    (room.startStream t).users.lookup k = some u ↔ ∃ v, room.users.lookup k = some v ∧
      (if k = t then { v with streaming := true } else v) = u := by
  rw [startStream, mapUsers_lookup]

/-- A permitted member goes on the air while nobody else is. -/
theorem Sound.startStream (h : room.Sound r) {t : XID} {user : User XID} (hr : r ≠ "")
    (huser : room.users.lookup t = some user) (hcan : user.canShare)
    (hfree : ∀ k u, room.users.lookup k = some u → u.streaming → k = t) :
    (room.startStream t).Sound r := by
  have honly : ∀ k u, (room.startStream t).users.lookup k = some u → u.streaming → k = t := by
    intro k u hu hs
    obtain ⟨v, hv, rfl⟩ := startStream_lookup.mp hu
    by_cases hk : k = t
    · exact hk
    · rw [if_neg hk] at hs
      exact hfree k v hv hs
  refine ⟨h.id_eq, ?_, ?_, ?_, ?_, ?_, ?_, ?_, ?_, fun h0 ↦ absurd h0 hr⟩
  · intro k u hu
    obtain ⟨v, hv, rfl⟩ := startStream_lookup.mp hu
    have hkey := h.keyed k v hv
    split <;> exact hkey
  · exact ⟨t, GoMap.mem_keys_of_lookup (startStream_lookup.mpr ⟨user, huser, rfl⟩)⟩
  · intro id s hs
    obtain ⟨u, hu, hstreaming⟩ := h.hosted id s hs
    refine ⟨_, startStream_lookup.mpr ⟨u, hu, rfl⟩, ?_⟩
    split
    · rfl
    · exact hstreaming
  · intro id s hs
    obtain ⟨hmem, hne⟩ := h.viewed id s hs
    obtain ⟨u, hu⟩ := GoMap.mem_keys.mp hmem
    exact ⟨GoMap.mem_keys_of_lookup (startStream_lookup.mpr ⟨u, hu, rfl⟩), hne⟩
  · intro k u k' u' hu hu' hs hs'
    exact (honly k u hu hs).trans (honly k' u' hu' hs').symm
  · intro k u hu hs
    obtain rfl := honly k u hu hs
    obtain ⟨v, hv, rfl⟩ := startStream_lookup.mp hu
    rw [huser] at hv
    obtain rfl := Option.some.inj hv
    rw [if_pos rfl]
    exact hcan
  · intro _
    obtain ⟨o, u, hu, ho⟩ := h.owned hr
    refine ⟨o, _, startStream_lookup.mpr ⟨u, hu, rfl⟩, ?_⟩
    split <;> exact ho
  · rintro o o' ⟨u, hu, ho⟩ ⟨u', hu', ho'⟩
    obtain ⟨v, hv, rfl⟩ := startStream_lookup.mp hu
    obtain ⟨v', hv', rfl⟩ := startStream_lookup.mp hu'
    refine h.owner_unique o o' ⟨v, hv, ?_⟩ ⟨v', hv', ?_⟩
    · split at ho <;> exact ho
    · split at ho' <;> exact ho'

/-- No session of a room is about somebody who can still enter it. -/
theorem Sound.not_touches (h : room.Sound r) {c : XID} (hfresh : r ≠ "" → c ∉ room.users.keys)
    {id : XID} {s : RoomSession XID} (hs : room.sessions.lookup id = some s) :
    ¬ Touches c s := by
  obtain ⟨u, hu, hstreaming⟩ := h.hosted id s hs
  by_cases hr : r = ""
  · exact absurd hstreaming (h.quiet hr _ _ hu)
  · rintro (rfl | rfl)
    · exact hfresh hr (GoMap.mem_keys_of_lookup hu)
    · exact hfresh hr (h.viewed id s hs).1

theorem Sound.enter (h : room.Sound r) (c : ClientInfo XID) (name : String)
    (hfresh : r ≠ "" → c.id ∉ room.users.keys) :
    (room.enter (c.newUser name false)).Sound r := by
  have hnew : (c.newUser name false).id = c.id := rfl
  -- who is on the air or owns the room was there before
  have hold : ∀ k u, (room.enter (c.newUser name false)).users.lookup k = some u →
      u.streaming ∨ u.owner → room.users.lookup k = some u := by
    intro k u hu hflag
    rcases enter_lookup.mp hu with ⟨-, rfl⟩ | ⟨-, hu⟩
    · simp [ClientInfo.newUser] at hflag
    · exact hu
  have hkept : ∀ k u, k ≠ c.id → room.users.lookup k = some u →
      (room.enter (c.newUser name false)).users.lookup k = some u :=
    fun k u hne hu ↦ enter_lookup.mpr (Or.inr ⟨hne, hu⟩)
  refine ⟨h.id_eq, ?_, ?_, ?_, ?_, ?_, ?_, ?_, ?_, ?_⟩
  · intro k u hu
    rcases enter_lookup.mp hu with ⟨rfl, rfl⟩ | ⟨-, hu⟩
    · exact ⟨rfl, rfl⟩
    · exact h.keyed k u hu
  · exact ⟨c.id, GoMap.mem_keys_of_lookup (enter_lookup.mpr (Or.inl ⟨rfl, rfl⟩))⟩
  · intro id s hs
    obtain ⟨u, hu, hstreaming⟩ := h.hosted id s hs
    have hne : s.host ≠ c.id := fun heq ↦ h.not_touches hfresh hs (Or.inl heq)
    exact ⟨u, hkept _ u hne hu, hstreaming⟩
  · intro id s hs
    obtain ⟨hmem, hne⟩ := h.viewed id s hs
    obtain ⟨u, hu⟩ := GoMap.mem_keys.mp hmem
    have hclient : s.client ≠ c.id := fun heq ↦ h.not_touches hfresh hs (Or.inr heq)
    exact ⟨GoMap.mem_keys_of_lookup (hkept _ u hclient hu), hne⟩
  · intro k u k' u' hu hu' hs hs'
    exact h.streamer_unique k u k' u' (hold k u hu (Or.inl hs)) (hold k' u' hu' (Or.inl hs')) hs hs'
  · intro k u hu hs
    exact h.permitted k u (hold k u hu (Or.inl hs)) hs
  · intro hr
    obtain ⟨o, u, hu, ho⟩ := h.owned hr
    have hne : o ≠ c.id := fun heq ↦ hfresh hr (heq ▸ GoMap.mem_keys_of_lookup hu)
    exact ⟨o, u, hkept o u hne hu, ho⟩
  · rintro o o' ⟨u, hu, ho⟩ ⟨u', hu', ho'⟩
    exact h.owner_unique o o' ⟨u, hold o u hu (Or.inr ho), ho⟩
      ⟨u', hold o' u' hu' (Or.inr ho'), ho'⟩
  · intro hr k u hu hs
    exact h.quiet hr k u (hold k u hu (Or.inl hs)) hs

theorem Sound.remove (h : room.Sound r) {t o : XID} (howner : room.OwnedBy o) (hne : o ≠ t) :
    (room.remove t).Sound r := by
  obtain ⟨ou, hou, ho⟩ := howner
  refine ⟨h.id_eq, ?_, ?_, ?_, ?_, ?_, ?_, ?_, ?_, ?_⟩
  · intro k u hu
    exact h.keyed k u (remove_lookup.mp hu).2
  · exact ⟨o, GoMap.mem_keys_of_lookup (remove_lookup.mpr ⟨hne, hou⟩)⟩
  · intro id s hs
    obtain ⟨hs, htouch⟩ := remove_sessions_lookup.mp hs
    obtain ⟨u, hu, hstreaming⟩ := h.hosted id s hs
    exact ⟨u, remove_lookup.mpr ⟨fun heq ↦ htouch (Or.inl heq), hu⟩, hstreaming⟩
  · intro id s hs
    obtain ⟨hs, htouch⟩ := remove_sessions_lookup.mp hs
    obtain ⟨hmem, hdiff⟩ := h.viewed id s hs
    obtain ⟨u, hu⟩ := GoMap.mem_keys.mp hmem
    exact ⟨GoMap.mem_keys_of_lookup (remove_lookup.mpr ⟨fun heq ↦ htouch (Or.inr heq), hu⟩), hdiff⟩
  · intro k u k' u' hu hu'
    exact h.streamer_unique k u k' u' (remove_lookup.mp hu).2 (remove_lookup.mp hu').2
  · intro k u hu
    exact h.permitted k u (remove_lookup.mp hu).2
  · intro _
    exact ⟨o, ou, remove_lookup.mpr ⟨hne, hou⟩, ho⟩
  · rintro k k' ⟨u, hu, hk⟩ ⟨u', hu', hk'⟩
    exact h.owner_unique k k' ⟨u, (remove_lookup.mp hu).2, hk⟩ ⟨u', (remove_lookup.mp hu').2, hk'⟩
  · intro hr k u hu
    exact h.quiet hr k u (remove_lookup.mp hu).2

theorem promote_lookup {t k : XID} {u : User XID} :
    (room.promote t).users.lookup k = some u ↔ ∃ v, room.users.lookup k = some v ∧
      (if k = t then { v with owner := true } else v) = u := by
  rw [promote, mapUsers_lookup]

theorem Sound.succeed (h : room.Sound r) {c next : XID} (howner : room.OwnedBy c)
    (hnext : next ∈ room.users.keys) (hne : next ≠ c) :
    ((room.remove c).promote next).Sound r := by
  obtain ⟨nu, hnu⟩ := GoMap.mem_keys.mp hnext
  -- a record of the new room comes from the same member's record, with the owner flag changed
  have hold : ∀ k u, ((room.remove c).promote next).users.lookup k = some u →
      ∃ v, room.users.lookup k = some v ∧ k ≠ c ∧
        u = { v with owner := if k = next then true else v.owner } := by
    intro k u hu
    obtain ⟨v, hv, rfl⟩ := promote_lookup.mp hu
    obtain ⟨hkc, hv⟩ := remove_lookup.mp hv
    refine ⟨v, hv, hkc, ?_⟩
    split <;> rfl
  have hkept : ∀ k u, k ≠ c → room.users.lookup k = some u →
      ∃ v, ((room.remove c).promote next).users.lookup k = some v ∧ v.streaming = u.streaming := by
    intro k u hkc hu
    refine ⟨_, promote_lookup.mpr ⟨u, remove_lookup.mpr ⟨hkc, hu⟩, rfl⟩, ?_⟩
    split <;> rfl
  have honly : ∀ o, ((room.remove c).promote next).OwnedBy o → o = next := by
    rintro o ⟨u, hu, ho⟩
    obtain ⟨v, hv, hoc, rfl⟩ := hold o u hu
    by_contra hon
    rw [if_neg hon] at ho
    exact hoc (h.owner_unique o c ⟨v, hv, ho⟩ howner)
  refine ⟨h.id_eq, ?_, ?_, ?_, ?_, ?_, ?_, ?_, ?_, ?_⟩
  · intro k u hu
    obtain ⟨v, hv, -, rfl⟩ := hold k u hu
    exact h.keyed k v hv
  · obtain ⟨v, hv, -⟩ := hkept next nu hne hnu
    exact ⟨next, GoMap.mem_keys_of_lookup hv⟩
  · intro id s hs
    obtain ⟨hs, htouch⟩ := remove_sessions_lookup.mp hs
    obtain ⟨u, hu, hstreaming⟩ := h.hosted id s hs
    obtain ⟨v, hv, heq⟩ := hkept s.host u (fun heq ↦ htouch (Or.inl heq)) hu
    exact ⟨v, hv, heq.trans hstreaming⟩
  · intro id s hs
    obtain ⟨hs, htouch⟩ := remove_sessions_lookup.mp hs
    obtain ⟨hmem, hdiff⟩ := h.viewed id s hs
    obtain ⟨u, hu⟩ := GoMap.mem_keys.mp hmem
    obtain ⟨v, hv, -⟩ := hkept s.client u (fun heq ↦ htouch (Or.inr heq)) hu
    exact ⟨GoMap.mem_keys_of_lookup hv, hdiff⟩
  · intro k u k' u' hu hu' hs hs'
    obtain ⟨v, hv, -, rfl⟩ := hold k u hu
    obtain ⟨v', hv', -, rfl⟩ := hold k' u' hu'
    exact h.streamer_unique k v k' v' hv hv' hs hs'
  · intro k u hu hs
    obtain ⟨v, hv, -, rfl⟩ := hold k u hu
    exact h.permitted k v hv hs
  · intro _
    refine ⟨next, _, promote_lookup.mpr ⟨nu, remove_lookup.mpr ⟨hne, hnu⟩, rfl⟩, ?_⟩
    rw [if_pos rfl]
  · intro o o' ho ho'
    exact (honly o ho).trans (honly o' ho').symm
  · intro hr k u hu hs
    obtain ⟨v, hv, -, rfl⟩ := hold k u hu
    exact h.quiet hr k v hv hs

theorem create_lookup {e : Create} {c : ClientInfo XID} {name : String} {createdAt : ℤ} {k : XID}
    {u : User XID} (hu : (e.room c name createdAt).users.lookup k = some u) :
    k = c.id ∧ u = c.newUser name true := by
  by_cases hk : k = c.id
  · subst hk
    rw [Create.room, GoMap.lookup_insert_self] at hu
    exact ⟨rfl, (Option.some.inj hu).symm⟩
  · rw [Create.room, GoMap.lookup_insert_of_ne hk, GoMap.lookup_empty] at hu
    cases hu

theorem sound_create (e : Create) (c : ClientInfo XID) (name : String) (createdAt : ℤ) :
    (e.room c name createdAt).Sound e.id := by
  have honly : ∀ k u, (e.room c name createdAt).users.lookup k = some u →
      k = c.id ∧ u = c.newUser name true := fun k u hu ↦ create_lookup hu
  have hnone : ∀ id s, (e.room c name createdAt).sessions.lookup id ≠ some s := by
    intro id s hs
    rw [Create.room, GoMap.lookup_empty] at hs
    cases hs
  have hself : (e.room c name createdAt).users.lookup c.id = some (c.newUser name true) :=
    GoMap.lookup_insert_self _ _ _
  refine ⟨rfl, ?_, ⟨c.id, GoMap.mem_keys_of_lookup hself⟩, fun id s hs ↦ absurd hs (hnone id s),
    fun id s hs ↦ absurd hs (hnone id s), ?_, ?_, fun _ ↦ ⟨c.id, _, hself, rfl⟩, ?_, ?_⟩
  · intro k u hu
    obtain ⟨rfl, rfl⟩ := honly k u hu
    exact ⟨rfl, rfl⟩
  · intro k u k' u' hu hu' _ _
    exact (honly k u hu).1.trans (honly k' u' hu').1.symm
  · intro k u hu hs
    rw [(honly k u hu).2] at hs
    cases hs
  · rintro o o' ⟨u, hu, -⟩ ⟨u', hu', -⟩
    exact (honly o u hu).1.trans (honly o' u' hu').1.symm
  · intro _ k u hu hs
    rw [(honly k u hu).2] at hs
    cases hs

end Room

namespace RoomOp

@[simp] theorem update_id (op : RoomOp XID) (k : XID) (u : User XID) :
    (op.update k u).id = u.id := by
  cases op <;> simp only [update] <;> split <;> rfl

@[simp] theorem update_write (op : RoomOp XID) (k : XID) (u : User XID) :
    (op.update k u).write = u.write := by
  cases op <;> simp only [update] <;> split <;> rfl

@[simp] theorem update_owner (op : RoomOp XID) (k : XID) (u : User XID) :
    (op.update k u).owner = u.owner := by
  cases op <;> simp only [update] <;> split <;> rfl

/-- No operation puts a member on the air, and none takes the permission of one who stays there. -/
theorem update_streaming {op : RoomOp XID} {k : XID} {u : User XID}
    (h : (op.update k u).streaming) (hpermitted : u.streaming → u.canShare) :
    u.streaming ∧ (op.update k u).canShare := by
  revert h
  cases op <;> simp only [update] <;> split <;> simp_all

/-- A member on the air stays there as long as its sessions do. -/
theorem update_streaming_of_not_ends {op : RoomOp XID} {s : RoomSession XID} {u : User XID}
    (hs : ¬ op.Ends s) (hu : u.streaming) : (op.update s.host u).streaming := by
  revert hs
  cases op <;> simp only [update, Ends] <;> intro hs <;> split <;> simp_all

theorem apply_lookup {op : RoomOp XID} {room : Room XID} {k : XID} {u : User XID} :
    (op.apply room).users.lookup k = some u ↔
      ∃ v, room.users.lookup k = some v ∧ op.update k v = u := by
  rw [apply, Room.rewrite_lookup]

theorem mem_keys_apply {op : RoomOp XID} {room : Room XID} {k : XID} (h : k ∈ room.users.keys) :
    k ∈ (op.apply room).users.keys := by
  obtain ⟨u, hu⟩ := GoMap.mem_keys.mp h
  exact GoMap.mem_keys_of_lookup (apply_lookup.mpr ⟨u, hu, rfl⟩)

theorem ownedBy_apply {op : RoomOp XID} {room : Room XID} {o : XID} (h : room.OwnedBy o) :
    (op.apply room).OwnedBy o := by
  obtain ⟨u, hu, ho⟩ := h
  exact ⟨op.update o u, apply_lookup.mpr ⟨u, hu, rfl⟩, (op.update_owner o u).trans ho⟩

theorem apply_sessions_lookup {op : RoomOp XID} {room : Room XID} {id : XID}
    {l : RoomSession XID} : (op.apply room).sessions.lookup id = some l ↔
      room.sessions.lookup id = some l ∧ ¬ op.Ends l :=
  Room.endSessions_lookup

theorem apply_sound {r : String} {room : Room XID} (h : room.Sound r) (op : RoomOp XID) :
    (op.apply room).Sound r :=
  h.rewrite (fun k u ↦ ⟨op.update_id k u, op.update_write k u⟩) op.update_owner
    (fun k u hu hs ↦ update_streaming hs (h.permitted k u hu))
    fun _ _ _ hs hp ↦ update_streaming_of_not_ends hp hs

end RoomOp

/-! ## Steps keep rooms sound -/

namespace Room

variable {env : Env XID} {c : ClientInfo XID} {w : World XID} {e : Event XID} {r : String}
  {room room' : Room XID}

theorem LeftBy.sound (hleft : room.LeftBy c.id room') (h : room.Sound r) (hr : r ≠ "") :
    room'.Sound r := by
  cases hleft with
  | member huser howner _ _ =>
      obtain ⟨o, ou, hou, ho⟩ := h.owned hr
      have hne : o ≠ c.id := by
        rintro rfl
        rw [huser] at hou
        exact howner (Option.some.inj hou ▸ ho)
      exact h.remove ⟨ou, hou, ho⟩ hne
  | owner howner hnext hne => exact h.succeed howner hnext hne

theorem Step.sound (hstep : Step env c w e r room room') (h : room.Sound r) : room'.Sound r := by
  cases hstep with
  | @enter name os hnamed hban hfresh hos hnew =>
      refine (h.enter c name hfresh).openSessions hos.nodup_ids ?_
      intro o ho
      obtain ⟨hclient, hhost, u, hu, hstreaming⟩ :=
        (hos.mem_iff _).mp (List.mem_map.mpr ⟨o, ho, rfl⟩)
      refine ⟨⟨u, enter_lookup.mpr (Or.inr ⟨hhost, hu⟩), hstreaming⟩, ?_, ?_⟩
      · rw [hclient]
        exact GoMap.mem_keys_of_lookup (enter_lookup.mpr (Or.inl ⟨rfl, rfl⟩))
      · rw [hclient]
        exact hhost.symm
  | update hr hmem hop => exact RoomOp.apply_sound h _
  | share he hr huser hcan hfree hip hos hnew =>
      refine (h.startStream hr huser hcan hfree).openSessions hos.nodup_ids ?_
      intro o ho
      obtain ⟨hhost, hclient, hmem⟩ := (hos.mem_iff _).mp (List.mem_map.mpr ⟨o, ho, rfl⟩)
      obtain ⟨v, hv⟩ := GoMap.mem_keys.mp hmem
      rw [hhost]
      refine ⟨⟨_, startStream_lookup.mpr ⟨_, huser, rfl⟩, ?_⟩, ?_, hclient⟩
      · rw [if_pos rfl]
      · exact GoMap.mem_keys_of_lookup (startStream_lookup.mpr ⟨v, hv, rfl⟩)
  | remove hr howner hne htarget hban =>
      rcases hban with rfl | rfl
      · exact h.remove howner hne.symm
      · exact (h.banAddr _).remove howner hne.symm
  | left hr hleft => exact hleft.sound h hr

end Room

end Screego
