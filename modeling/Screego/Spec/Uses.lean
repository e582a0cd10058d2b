import Mathlib.Logic.Relation
import Screego.Spec.Session
import Screego.Ws.Start

/-!
# What the handlers do to the world

A handler reaches the TURN server, the counters and the write channels by a few
operations only, in whatever order its loops run.  So what each of them keeps is
kept by the main loop.
-/

namespace Screego

open Outgoing World

variable {XID : Type} [DecidableEq XID] (env : Env XID)

/-- One operation on the world.  Whoever is told of a session is told by `newSession`. -/
inductive World.Use : World XID → World XID → Prop
  | write (w : World XID) (ch : XID) {msg : Message XID} (hmsg : msg.kind ≠ .session) :
      Use w (w.writeTimeout ch msg)
  | draw (w : World XID) (n : ℕ) : Use w (w.draw n)
  | count (w : World XID) (d : Metrics) : Use w (w.count d)
  | disallow (w : World XID) (username : String) : Use w (w.disallow username)
  | answer (w : World XID) (n : ℕ) : Use w { w with health := w.health ++ [n] }
  | newSession {room room' : Room XID} {host client : XID} {v4 v6 : IP} {w w' : World XID}
      (h : room.newSession env host client v4 v6 w = some (room', w')) : Use w w'

/-- The world `w'` comes from `w` by operations of the handlers. -/
abbrev World.Uses : World XID → World XID → Prop := Relation.ReflTransGen (World.Use env)

variable {env}

namespace World

theorem uses_write (w : World XID) (ch : XID) {msg : Message XID} (hmsg : msg.kind ≠ .session) :
    Uses env w (w.writeTimeout ch msg) :=
  .single (.write w ch hmsg)

theorem uses_draw (w : World XID) (n : ℕ) : Uses env w (w.draw n) := .single (.draw w n)

theorem uses_count (w : World XID) (d : Metrics) : Uses env w (w.count d) := .single (.count w d)

/-- A loop uses the world by the operations of its body. -/
theorem uses_foldl {α σ : Type} (world : σ → World XID) {f : σ → α → σ}
    (hf : ∀ s a, Uses env (world s) (world (f s a))) (s : σ) (l : List α) :
    Uses env (world s) (world (l.foldl f s)) := by
  induction l generalizing s with
  | nil => exact .refl
  | cons a l ih => exact (hf s a).trans (ih (f s a))

theorem uses_foldlM {α σ : Type} (world : σ → World XID) {f : σ → α → Option σ}
    (hf : ∀ s a s', f s a = some s' → Uses env (world s) (world s')) {s s' : σ} {l : List α}
    (h : l.foldlM f s = some s') : Uses env (world s) (world s') := by
  induction l generalizing s with
  | nil =>
      obtain rfl := Option.some.inj h
      exact .refl
  | cons a l ih =>
      rw [List.foldlM_cons, Option.bind_eq_bind, Option.bind_eq_some_iff] at h
      obtain ⟨s₁, hfirst, hrest⟩ := h
      exact (hf s a s₁ hfirst).trans (ih hrest)

end World

namespace Room

theorem uses_closeSession (id : XID) (s : Room XID × World XID) :
    Uses env s.2 (closeSession env id s).2 := by
  unfold closeSession
  refine .trans ?_ (uses_count _ _)
  split
  · exact .tail (.single (.disallow _ _)) (.disallow _ _)
  · exact .refl

theorem uses_notifyInfoChanged (room : Room XID) (w : World XID) :
    Uses env w (room.notifyInfoChanged env w) := by
  unfold notifyInfoChanged
  refine (uses_draw w 1).trans (uses_foldl (fun w : World XID ↦ w) (fun w k ↦ ?_) _ _)
  split
  · exact .refl
  · exact (uses_draw w 1).trans (uses_write _ _ (by rintro ⟨⟩))

theorem uses_rangeSessions
    {body : XID → RoomSession XID → Room XID × World XID → Room XID × World XID}
    (hbody : ∀ id session s, Uses env s.2 (body id session s).2) (s : Room XID × World XID) :
    Uses env s.2 (rangeSessions env body s).2 := by
  refine (uses_draw s.2 1).trans (uses_foldl Prod.snd (fun s id ↦ ?_) (s.1, s.2.draw 1) _)
  split
  · exact .refl
  · exact hbody _ _ s

theorem uses_rangeUsers {body : XID → User XID → Room XID × World XID → Room XID × World XID}
    (hbody : ∀ k user s, Uses env s.2 (body k user s).2) (s : Room XID × World XID) :
    Uses env s.2 (rangeUsers env body s).2 := by
  refine (uses_draw s.2 1).trans (uses_foldl Prod.snd (fun s k ↦ ?_) (s.1, s.2.draw 1) _)
  split
  · exact .refl
  · exact hbody _ _ s

theorem uses_rangeUsersM
    {body : XID → User XID → Room XID × World XID → Option (Room XID × World XID)}
    (hbody : ∀ k user s s', body k user s = some s' → Uses env s.2 s'.2)
    {s s' : Room XID × World XID} (h : rangeUsersM env body s = some s') : Uses env s.2 s'.2 := by
  refine (uses_draw s.2 1).trans
    (uses_foldlM Prod.snd (fun s k s' hs' ↦ ?_) (s := (s.1, s.2.draw 1)) h)
  split at hs'
  · obtain rfl := Option.some.inj hs'
    exact .refl
  · exact hbody _ _ s s' hs'

theorem uses_newSession {room : Room XID} {host client : XID} {v4 v6 : IP} {w : World XID}
    {s' : Room XID × World XID} (h : room.newSession env host client v4 v6 w = some s') :
    Uses env w s'.2 :=
  .single (.newSession h)

end Room

/-! ## Handlers -/

section Handlers

variable {s : Rooms XID} {c : ClientInfo XID} {roomID : String}

/-- What holds of the world that a handler leaves, if it does not panic. -/
def Outcome.Leaves (P : World XID → Prop) : Outcome XID → Prop
  | .ok s => P s.world
  | .error _ s => P s.world
  | .panicked => True

theorem uses_closeRoom (s : Rooms XID) (roomID : String) :
    Uses env s.world (s.closeRoom env roomID).world := by
  unfold Rooms.closeRoom
  split
  · exact .refl
  · next room _ =>
      have hclosed : Uses env _ _ := Room.uses_rangeSessions
        (fun id _ s ↦ Room.uses_closeSession id s)
        (room, s.world.count { usersLeft := room.users.keys.card })
      exact (uses_count s.world { usersLeft := room.users.keys.card }).trans
        (hclosed.trans (uses_count _ { roomsClosed := 1 }))

theorem uses_tell (room : Room XID) (k id : XID) (w : World XID) :
    Uses env w (match room.users.lookup k with
      | some u => u.writeTimeout (.endShare id) w
      | none => w) := by
  split
  · exact uses_write _ _ (by rintro ⟨⟩)
  · exact .refl

theorem uses_endSession (current id : XID) (session : RoomSession XID)
    (s : Room XID × World XID) :
    Uses env s.2 (Disconnected.endSession env current id session s).2 := by
  unfold Disconnected.endSession
  dsimp only
  generalize hfirst : (if session.client = current then _ else s) = s₁
  have huses : Uses env s.2 s₁.2 := by
    rw [← hfirst]
    split
    · exact (uses_tell s.1 session.host id s.2).trans (Room.uses_closeSession id (s.1, _))
    · exact .refl
  split
  · exact huses.trans ((uses_tell s₁.1 session.client id s₁.2).trans
      (Room.uses_closeSession id (s₁.1, _)))
  · exact huses

theorem uses_executeNoError (d : Disconnected) (s : Rooms XID) (c : ClientInfo XID) :
    Uses env s.world (d.executeNoError env s c).world := by
  unfold Disconnected.executeNoError
  dsimp only
  have hbye : Uses env s.world (s.world.writeTimeout c.write (.closeWriter d.code d.reason)) :=
    uses_write _ _ (by rintro ⟨⟩)
  split
  · exact hbye
  split
  · exact hbye
  next room _ =>
  split
  · exact hbye
  next user _ =>
  have hended := hbye.trans ((uses_count _ { usersLeft := 1 }).trans
    (Room.uses_rangeSessions (uses_endSession c.id)
      ({ room with users := room.users.erase c.id }, _)))
  split
  · split
    · exact hended.trans ((uses_draw _ 1).trans (Room.uses_notifyInfoChanged _ _))
    · exact hended.trans (uses_closeRoom (Rooms.store _ _ (_, _)) _)
  · split
    · exact hended.trans (uses_closeRoom (Rooms.store _ _ (_, _)) _)
    · exact hended.trans (Room.uses_notifyInfoChanged _ _)

theorem leaves_dissolve (s : Rooms XID) (c : ClientInfo XID) :
    (Dissolve.execute env s c).Leaves (Uses env s.world) := by
  unfold Dissolve.execute
  dsimp only
  split
  · exact .refl
  split
  · exact .refl
  next room _ =>
  split
  · exact .refl
  split
  · exact .refl
  · refine (uses_draw s.world 1).trans (.trans ?_ (uses_closeRoom _ _))
    refine uses_foldl Rooms.world (fun s k ↦ ?_)
      ({ s with world := s.world.draw 1 } : Rooms XID) _
    unfold Dissolve.part
    split
    · exact .refl
    · exact uses_write _ _ (by rintro ⟨⟩)

theorem uses_userName (env : Env XID) (c : ClientInfo XID) (userName : String) (w : World XID) :
    Uses env w (c.userName env userName w).2 := by
  unfold ClientInfo.userName
  dsimp only
  by_cases hname : (if c.authenticated then c.authenticatedUser else userName) = ""
  · rw [if_pos hname]
    exact uses_draw w 2
  · rw [if_neg hname]

theorem leaves_join (j : Join) (s : Rooms XID) (c : ClientInfo XID) :
    (j.execute env s c).Leaves (Uses env s.world) := by
  unfold Join.execute
  split
  · exact .refl
  split
  · exact .refl
  next room _ =>
  split
  · exact .refl
  dsimp only
  have hentered := (uses_userName env c j.userName s.world).trans
    ((Room.uses_notifyInfoChanged { room with
      users := room.users.insert c.id (c.newUser (c.userName env j.userName s.world).1 false) }
      _).trans (uses_count _ { usersJoined := 1 }))
  split
  · exact hentered.trans (uses_draw _ 1)
  · next v4 v6 _ =>
    split
    · exact trivial
    · next s' hrange =>
      refine (hentered.trans (uses_draw _ 1)).trans (Room.uses_rangeUsersM ?_ hrange)
      intro k user s s' hbody
      split at hbody
      · obtain rfl := Option.some.inj hbody
        exact .refl
      · exact Room.uses_newSession hbody

theorem leaves_create (e : Create) (s : Rooms XID) (c : ClientInfo XID) :
    (e.execute env s c).Leaves (Uses env s.world) := by
  unfold Create.execute
  split
  · exact .refl
  split
  · split
    · exact leaves_join ⟨e.id, e.userName⟩ s c
    · exact .refl
  dsimp only
  have hname := uses_userName env c e.userName s.world
  split
  · exact hname
  · exact hname.trans ((uses_draw _ 1).trans
      ((Room.uses_notifyInfoChanged _ _).trans (uses_count _ _)))

theorem leaves_name (e : Name) (s : Rooms XID) (c : ClientInfo XID) :
    (e.execute env s c).Leaves (Uses env s.world) := by
  unfold Name.execute
  split
  · exact .refl
  split
  · exact trivial
  · exact Room.uses_notifyInfoChanged _ _

theorem leaves_startShare (s : Rooms XID) (c : ClientInfo XID) :
    (StartShare.execute env s c).Leaves (Uses env s.world) := by
  unfold StartShare.execute
  split
  · exact .refl
  split
  · exact .refl
  split
  · exact .refl
  split
  · exact trivial
  dsimp only
  split
  · exact uses_draw _ 1
  · next v4 v6 _ =>
    split
    · exact trivial
    · next room w hrange =>
      refine (uses_draw s.world 1).trans (.trans ?_ (Room.uses_notifyInfoChanged room w))
      refine Room.uses_rangeUsersM ?_ hrange
      intro k user s s' hbody
      split at hbody
      · obtain rfl := Option.some.inj hbody
        exact .refl
      · exact Room.uses_newSession hbody

theorem leaves_stopShare (s : Rooms XID) (c : ClientInfo XID) :
    (StopShare.execute env s c).Leaves (Uses env s.world) := by
  unfold StopShare.execute
  split
  · exact .refl
  next room _ =>
  split
  · exact trivial
  refine .trans ?_ (Room.uses_notifyInfoChanged _ _)
  refine Room.uses_rangeSessions (fun id session s ↦ ?_)
    (room.modifyUser c.id fun u ↦ { u with streaming := false }, s.world)
  unfold StopShare.endSession
  split
  · exact (uses_tell s.1 session.client id s.2).trans (Room.uses_closeSession id (s.1, _))
  · exact .refl

theorem leaves_relay (sender recipient : RoomSession XID → XID)
    {msg : P2PMessage XID → Message XID} (hmsg : ∀ m, (msg m).kind ≠ .session)
    (e : P2PMessage XID) (s : Rooms XID) (c : ClientInfo XID) :
    (relay env sender recipient msg e s c).Leaves (Uses env s.world) := by
  unfold relay
  split
  · exact .refl
  split
  · exact .refl
  split
  · exact .refl
  split
  · exact trivial
  · exact uses_write _ _ (hmsg e)

theorem uses_closeSessions (p : RoomSession XID → Prop) [DecidablePred p] (room : Room XID)
    (w : World XID) : Uses env w (OwnerAction.closeSessions env p (room, w)).2 := by
  refine Room.uses_rangeSessions (fun id session s ↦ ?_) (room, w)
  split
  · exact Room.uses_closeSession id s
  · exact .refl

theorem uses_enableAll (current : XID) (s : Room XID × World XID) :
    Uses env s.2 (OwnerAction.enableAll env current s).2 := by
  refine Room.uses_rangeUsers (fun k user s ↦ ?_) s
  unfold OwnerAction.enable
  split <;> exact .refl

theorem uses_disableAll (current : XID) (s : Room XID × World XID) :
    Uses env s.2 (OwnerAction.disableAll env current s).2 := by
  refine Room.uses_rangeUsers (fun k user s ↦ ?_) s
  unfold OwnerAction.disable
  split
  · dsimp only
    split
    · exact uses_closeSessions (fun session ↦ session.host = k) _ s.2
    · exact .refl
  · exact .refl

theorem uses_toggle (targetID : XID) (targetUser : User XID) (s : Room XID × World XID) :
    Uses env s.2 (OwnerAction.toggleSharePermission env targetID targetUser s).2 := by
  unfold OwnerAction.toggleSharePermission
  dsimp only
  split
  · exact uses_closeSessions (fun session ↦ session.host = targetID) _ s.2
  · exact .refl

theorem uses_remove (targetID : XID) (targetUser : User XID) (reason roomID : String)
    (room : Room XID) (s : Rooms XID) :
    Uses env s.world (OwnerAction.remove env targetID targetUser reason roomID room s).world := by
  have hclosed : Uses env s.world _ := uses_closeSessions
    (fun session ↦ session.host = targetID ∨ session.client = targetID)
    { room with users := room.users.erase targetID } s.world
  have hbye : (Message.closeWriter closeNormalClosure reason : Message XID).kind ≠ .session := by
    rintro ⟨⟩
  refine hclosed.trans (.trans (uses_write _ targetUser.write hbye) ?_)
  exact (Room.uses_notifyInfoChanged _ _).trans (uses_count _ { usersLeft := 1 })

theorem leaves_ownerAction (a : OwnerAction) (s : Rooms XID) (c : ClientInfo XID) :
    (a.execute env s c).Leaves (Uses env s.world) := by
  unfold OwnerAction.execute
  split
  · exact .refl
  next roomID room _ =>
  split
  · exact .refl
  split
  · exact (uses_enableAll c.id (room, s.world)).trans (Room.uses_notifyInfoChanged _ _)
  split
  · exact (uses_disableAll c.id (room, s.world)).trans (Room.uses_notifyInfoChanged _ _)
  split
  · exact .refl
  split
  · exact .refl
  next targetID _ =>
  split
  · exact .refl
  next targetUser _ =>
  split
  · exact .refl
  split
  · split
    · exact (uses_closeSessions (fun session ↦ session.host = targetID) _ s.world).trans
        (Room.uses_notifyInfoChanged _ _)
    · exact .refl
  split
  · exact (uses_toggle targetID targetUser (room, s.world)).trans
      (Room.uses_notifyInfoChanged _ _)
  split
  · exact uses_remove targetID targetUser _ roomID room s
  split
  · exact uses_remove targetID targetUser _ roomID _ s
  · exact .refl

theorem leaves_execute (env : Env XID) (e : Event XID) (s : Rooms XID) (c : ClientInfo XID) :
    (e.execute env s c).Leaves (Uses env s.world) := by
  cases e with
  | connected => exact .refl
  | health => exact .single (.answer _ _)
  | disconnected d => exact uses_executeNoError d s c
  | create e => exact leaves_create e s c
  | join j => exact leaves_join j s c
  | name e => exact leaves_name e s c
  | startShare => exact leaves_startShare s c
  | stopShare => exact leaves_stopShare s c
  | ownerAction a => exact leaves_ownerAction a s c
  | exit => exact uses_executeNoError _ s c
  | dissolve => exact leaves_dissolve s c
  | hostOffer m => exact leaves_relay _ _ (fun _ ↦ by rintro ⟨⟩) m s c
  | hostICE m => exact leaves_relay _ _ (fun _ ↦ by rintro ⟨⟩) m s c
  | clientAnswer m => exact leaves_relay _ _ (fun _ ↦ by rintro ⟨⟩) m s c
  | clientICE m => exact leaves_relay _ _ (fun _ ↦ by rintro ⟨⟩) m s c

theorem uses_start {msg : ClientMessage XID} {s s' : Rooms XID} (h : s.start env msg = some s') :
    Uses env s.world s'.world := by
  unfold Rooms.start at h
  split at h
  · obtain rfl := Option.some.inj h
    exact .refl
  have hleaves := leaves_execute env msg.incoming s msg.info
  split at h
  · next hrun =>
      obtain rfl := Option.some.inj h
      rw [hrun] at hleaves
      exact hleaves
  · next hrun =>
      obtain rfl := Option.some.inj h
      rw [hrun] at hleaves
      exact hleaves.trans (uses_executeNoError _ _ msg.info)
  · cases h

end Handlers

/-- Every step of the server uses the world by these operations. -/
theorem uses_step {server : Turn.Server} {s t : System XID} {a : Action XID}
    (h : (machine env server).step s a t) : Uses env s.rooms.world t.rooms.world := by
  have hnext := h.2
  cases a with
  | dial authenticated authenticatedUser addr =>
      obtain rfl := Option.some.inj hnext
      exact uses_draw _ 1
  | _ =>
      simp only [System.next, Option.bind_eq_bind, Option.bind_eq_some_iff, Option.pure_def,
        Option.some.injEq] at hnext
      obtain ⟨s', hstart, rfl⟩ := hnext
      exact uses_start hstart

/-- What each operation keeps holds of the world in every reachable state. -/
theorem reachable_world {server : Turn.Server} {P : World XID → Prop} {t : System XID}
    (h : (machine env server).Reachable t) (hinit : P (newRooms server : Rooms XID).world)
    (huse : ∀ {w w'}, P w → World.Use env w w' → P w') : P t.rooms.world := by
  have huses : ∀ {w w'}, Uses env w w' → P w → P w' := by
    intro w w' huses hP
    induction huses with
    | refl => exact hP
    | tail _ hlast ih => exact huse ih hlast
  exact h.invariant (I := fun t ↦ P t.rooms.world) hinit fun _ hP hstep ↦
    huses (uses_step hstep) hP

end Screego
