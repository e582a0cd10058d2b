import Screego.Spec.Departure
import Screego.Properties.Membership

/-!
# Failed events

Handlers write to the maps before they know whether they succeed, and `Start`
undoes what is left by disconnecting the client.  The result is one that a plain
`Disconnected` leads to as well; which one depends on the member that the
iteration makes the next owner.
-/

namespace Screego

open Outgoing World Rooms

variable {XID : Type} [DecidableEq XID] {env : Env XID} {server : Turn.Server}

def Outcome.isError : Outcome XID → Bool
  | .ok _ => false
  | .error _ _ => true
  | .panicked => false

omit [DecidableEq XID] in
theorem Outcome.isError_iff {o : Outcome XID} : o.isError ↔ ∃ err s, o = .error err s := by
  cases o <;> simp [isError]

/-- The two maps and the accepted usernames are the same. -/
structure SameTables (s s' : Rooms XID) : Prop where
  connected : s.connected = s'.connected
  rooms : s.rooms = s'.rooms
  lookup : ∀ name, s.world.turnServer.entry name = s'.world.turnServer.entry name

/-- A plain `Disconnected` of `c` in `s` can lead to `s'`: it does in some order of iteration. -/
def LikeDisconnected (env : Env XID) (c : ClientInfo XID) (s s' : Rooms XID) : Prop :=
  ∃ range : ℕ → RangeOrder XID, ∀ d : Disconnected, ∃ s'',
    s.start { env with range := range } ⟨c, false, .disconnected d⟩ = some s'' ∧ SameTables s'' s'

section Leaving

variable {s s' s'' : Rooms XID} {c : ClientInfo XID} {r : String} {room room' : Room XID}

/-- The iteration order does not matter for what a change says. -/
theorem World.Change.reorder {range : ℕ → RangeOrder XID} {mode : ConnectionMode}
    {dead born : Finset XID} {m : Metrics} {msgs : List (XID × Message XID)} {w w' : World XID}
    (h : Change { env with range := range } mode dead born m msgs w w') :
    Change env mode dead born m msgs w w' :=
  ⟨h.out, h.metrics, h.tick, h.born_new, h.internal, h.granted, h.withdrawn, h.kept⟩

theorem Left.reorder {range : ℕ → RangeOrder XID} {k : XID}
    (h : Left { env with range := range } k s r room s') : Left env k s r room s' := by
  cases h with
  | stay hleft hended htold hworld => exact .stay hleft hended htold hworld.reorder
  | last honly hworld => exact .last honly hworld.reorder

theorem World.Change.entry_unique {mode : ConnectionMode} {dead : Finset XID} {m m' : Metrics}
    {msgs msgs' : List (XID × Message XID)} {w w₁ w₂ : World XID}
    (h : Change env mode dead ∅ m msgs w w₁) (h' : Change env mode dead ∅ m' msgs' w w₂)
    (name : String) : w₁.turnServer.entry name = w₂.turnServer.entry name := by
  by_cases hname : mode = connectionTURN ∧ ∃ id ∈ dead, IsNameOf env id name
  · obtain ⟨hmode, id, hid, hname⟩ := hname
    rw [h.withdrawn hmode id hid (Finset.notMem_empty id) name hname,
      h'.withdrawn hmode id hid (Finset.notMem_empty id) name hname]
  · have hother : mode = connectionTURN → ∀ id ∈ dead ∪ ∅, ¬ IsNameOf env id name := by
      intro hmode id hid hname'
      rw [Finset.union_empty] at hid
      exact hname ⟨hmode, id, hid, hname'⟩
    rw [h.kept name hother, h'.kept name hother]

/-- Two clients cannot both be the only one to leave: either everybody stays behind or nobody. -/
theorem Left.lookup_eq {k : XID} (h : Left env k s r room s') (h' : Left env k s r room s'') :
    s'.connected = s''.connected ∧
      ∀ name, s'.world.turnServer.entry name = s''.world.turnServer.entry name := by
  cases h with
  | stay hleft _ _ hworld =>
      cases h' with
      | stay _ _ _ hworld' => exact ⟨rfl, hworld.entry_unique hworld'⟩
      | last honly _ => exact absurd honly hleft.other
  | last honly hworld =>
      cases h' with
      | stay hleft _ _ _ => exact absurd honly hleft.other
      | last _ hworld' => exact ⟨rfl, hworld.entry_unique hworld'⟩

/-- Whatever the departure of a member can come to, some order of iteration leads there. -/
theorem executeNoError_reaches (hwf : s.WF env) (hin : s.In c.id r room)
    (h : Left env c.id s r room s') :
    ∃ range : ℕ → RangeOrder XID, ∀ d : Disconnected,
      SameTables (d.executeNoError { env with range := range } s c) s' := by
  have hwf' : ∀ range : ℕ → RangeOrder XID, s.WF { env with range := range } := fun range ↦
    ⟨hwf.sound, hwf.linked, hwf.minted, hwf.apart⟩
  have hleft : ∀ (range : ℕ → RangeOrder XID) (d : Disconnected),
      Left env c.id s r room (d.executeNoError { env with range := range } s c) :=
    fun range d ↦ (executeNoError_left (hwf' range) hin d).reorder
  have hsame : ∀ (range : ℕ → RangeOrder XID) (d : Disconnected),
      (d.executeNoError { env with range := range } s c).rooms = s'.rooms →
      SameTables (d.executeNoError { env with range := range } s c) s' := by
    intro range d hrooms
    obtain ⟨hconnected, hlookup⟩ := (hleft range d).lookup_eq h
    exact ⟨hconnected, hrooms, hlookup⟩
  cases h with
  | @stay room' _ _ _ _ _ hleave _ _ _ =>
      cases hleave with
      | member huser hnot hother hne =>
          refine ⟨env.range, fun d ↦ hsame env.range d ?_⟩
          have hrun := hleft env.range d
          generalize d.executeNoError { env with range := env.range } s c = s₁ at hrun
          cases hrun with
          | stay hleave' _ _ _ =>
              cases hleave' with
              | member _ _ _ _ => rfl
              | owner howner _ _ =>
                  obtain ⟨u, hu, ho⟩ := howner
                  rw [huser] at hu
                  exact absurd (Option.some.inj hu ▸ ho) hnot
          | last honly _ =>
              exact absurd honly (Room.LeftBy.member huser hnot hother hne).other
      | @owner next howner hnext hne =>
          refine ⟨fun n ↦ (env.range n).startingAt next, fun d ↦ hsame _ d ?_⟩
          have hmem : next ∈ (room.remove c.id).users.keys := by
            rw [Room.remove_keys]
            exact Finset.mem_erase.mpr ⟨hne, hnext⟩
          exact executeNoError_promotes (hwf' _) hin howner
            ((env.range _).head_startingAt hmem) d
  | last honly _ =>
      refine ⟨env.range, fun d ↦ hsame env.range d ?_⟩
      have hrun := hleft env.range d
      generalize d.executeNoError { env with range := env.range } s c = s₁ at hrun
      cases hrun with
      | stay hleave _ _ _ => exact absurd honly hleave.other
      | last _ _ => rfl

end Leaving

section Failing

variable {s s' : Rooms XID} {c : ClientInfo XID} {e : Event XID}

/-- How a client can disappear from the connected map, unless there is a room with the empty id. -/
inductive Gone (env : Env XID) (c : ClientInfo XID) (s : Rooms XID) (e : Event XID) :
    Rooms XID → Prop
  | left {r : String} {room : Room XID} {s' : Rooms XID} (hin : s.In c.id r room)
      (hleft : Left env c.id s r room s') : Gone env c s e s'
  | nowhere {m : Metrics} {msgs : List (XID × Message XID)} {w : World XID}
      (hout : s.connected.lookup c.id = some "") (hworld : Change env "" ∅ ∅ m msgs s.world w) :
      Gone env c s e ⟨s.rooms, s.connected.erase c.id, w⟩
  | dissolved {r : String} {room : Room XID} {s' : Rooms XID} (he : e = .dissolve)
      (hin : s.In c.id r room) (howner : room.OwnedBy c.id) : Gone env c s e s'

theorem Effect.gone (h : Effect env c s e s') (hc : c.id ∈ s.connected.keys)
    (hgone : c.id ∉ s'.connected.keys) (hnone : s.rooms.lookup "" = none) : Gone env c s e s' := by
  have hinsert {r : String} (h : c.id ∉ (s.connected.insert c.id r).keys) : False := by
    rw [GoMap.keys_insert, Finset.mem_insert, not_or] at h
    exact h.1 rfl
  cases h with
  | idle _ => exact absurd hc hgone
  | connect => exact (hinsert hgone).elim
  | relay _ _ _ _ _ => exact absurd hc hgone
  | create _ _ _ _ _ => exact (hinsert hgone).elim
  | join _ _ _ _ _ _ _ => exact (hinsert hgone).elim
  | joinFailed _ hout _ _ _ _ _ hworld => exact .nowhere hout hworld
  | haunt _ _ hroom _ _ _ =>
      rw [hnone] at hroom
      cases hroom
  | update _ _ _ _ _ => exact absurd hc hgone
  | share _ _ _ _ _ _ _ _ => exact absurd hc hgone
  | remove _ _ ht _ _ _ _ =>
      rw [GoMap.keys_erase] at hgone
      exact absurd (Finset.mem_erase.mpr ⟨ht.2.2.symm, hc⟩) hgone
  | leave hin hleft => exact .left hin hleft
  | leaveNowhere hout hworld => exact .nowhere hout hworld
  | dissolve hin howner _ _ _ => exact .dissolved rfl hin howner

theorem start_disconnected (hc : c.id ∈ s.connected.keys) (d : Disconnected) :
    s.start env ⟨c, false, .disconnected d⟩ = some (d.executeNoError env s c) :=
  start_ok hc rfl

end Failing

/-- A message that fails takes its sender out of the connected map. -/
theorem gone_of_error {s t : System XID} {info : ClientInfo XID} {e : Event XID} {err : String}
    {s₁ : Rooms XID} (h : (machine env server).step s (.receive info e) t)
    (hconn : info.id ∈ s.rooms.connected.keys)
    (hfail : e.execute env s.rooms info = .error err s₁) :
    info.id ∉ t.rooms.connected.keys := by
  rw [step_of_error h hconn hfail, executeNoError_connected, GoMap.keys_erase]
  exact Finset.notMem_erase _ _

theorem failed_is_disconnect {s t : System XID} {l : List (System XID × Action XID)}
    {info : ClientInfo XID} {e : Event XID} {err : String} {s₁ : Rooms XID}
    (h : (machine env server).Run (machine env server).init l s)
    (hnames : ∀ p ∈ l, p.2.creates ≠ some "") (hconn : info.id ∈ s.rooms.connected.keys)
    (hfail : e.execute env s.rooms info = .error err s₁)
    (hstep : (machine env server).step s (.receive info e) t) :
    LikeDisconnected env info s.rooms t.rooms := by
  have hwf := reachable_wf ⟨l, h⟩
  have hgone := gone_of_error hstep hconn hfail
  have heffect : Effect env info s.rooms e t.rooms := step_effect hwf hstep
  have hcase := heffect.gone hconn hgone (run_lookup_empty h hnames)
  generalize t.rooms = s' at hcase
  cases hcase with
  | left hin hleft =>
      obtain ⟨range, hsame⟩ := executeNoError_reaches hwf.rooms hin hleft
      exact ⟨range, fun d ↦ ⟨_, start_disconnected hconn d, hsame d⟩⟩
  | @nowhere m msgs w hout hworld =>
      refine ⟨env.range, fun d ↦ ⟨_, start_disconnected hconn d, ?_⟩⟩
      rw [executeNoError_nowhere hout]
      refine ⟨rfl, rfl, fun name ↦ ?_⟩
      rw [hworld.kept name (by simp)]
      rfl
  | dissolved he hin howner =>
      subst he
      obtain ⟨_, _, -, -, hok, -⟩ := dissolve_ok hwf.rooms hin howner
      have hfail' : Dissolve.execute env s.rooms info = .error err s₁ := hfail
      rw [hok] at hfail'
      cases hfail'

/-- The address provider is down. -/
def Env.unreachable : Env ℕ := { Env.sample authModeNone with
  turnIPProvider := fun _ ↦ .error "no address" }

/-- The first client has opened a room, which does not need an address. -/
def opening : List (Action ℕ) :=
  arrivals ++ [.receive (guest 0) (.create ⟨"lobby", "local", false, "", false⟩)]

/-- The second client is added to the room before its `join` fails. -/
theorem failed_is_disconnect_opening : LikeDisconnected Env.unreachable (guest 1)
    (System.after Env.unreachable (.internal ⟨∅⟩) opening).rooms
    (System.after Env.unreachable (.internal ⟨∅⟩)
      (opening ++ [.receive (guest 1) (.join ⟨"lobby", ""⟩)])).rooms := by
  have hfail : ∃ err s₁, Event.execute Env.unreachable (.join ⟨"lobby", ""⟩)
      (System.after Env.unreachable (.internal ⟨∅⟩) opening).rooms (guest 1) =
        .error err s₁ := by
    exact Outcome.isError_iff.mp (by decide +kernel)
  obtain ⟨err, s₁, hfail⟩ := hfail
  exact failed_is_disconnect (System.run_history _ _ opening) (by decide +kernel)
    (by decide +kernel) hfail (System.step_after _ (by decide +kernel) (by decide +kernel))

end Screego
