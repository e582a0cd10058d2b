import Mathlib.Algebra.Group.Basic
import Mathlib.Data.Finset.Lattice.Basic
import Screego.Ws.Room

/-!
# What an operation does to the world

`World.Change` says all that a method of the main loop does outside the two
maps: the messages it hands over, the draws it makes, what it counts, and which
TURN usernames it withdraws and grants.  Changes compose, so a loop is described
by induction from its body.
-/

namespace Screego

open Outgoing

variable {XID : Type} {env : Env XID}

/-! ## Usernames of a session -/

/-- The two usernames made from a session id. -/
def IsNameOf (env : Env XID) (id : XID) (name : String) : Prop :=
  name = Room.hostName env id ∨ name = Room.clientName env id

theorem hostName_injective : Function.Injective (Room.hostName env) := by
  intro a b h
  exact env.xid.toString_injective ((String.append_left_inj _).mp h)

theorem clientName_injective : Function.Injective (Room.clientName env) := by
  intro a b h
  exact env.xid.toString_injective ((String.append_left_inj _).mp h)

theorem hostName_ne_clientName (env : Env XID) (a b : XID) :
    Room.hostName env a ≠ Room.clientName env b := by
  intro h
  have hlist := congrArg String.toList h
  simp only [Room.hostName, Room.clientName, String.toList_append] at hlist
  have hlast := congrArg (fun l ↦ l.reverse.take 4) hlist
  simp at hlast

theorem IsNameOf.unique {a b : XID} {name : String} (ha : IsNameOf env a name)
    (hb : IsNameOf env b name) : a = b := by
  rcases ha with rfl | rfl <;> rcases hb with hb | hb
  · exact hostName_injective hb
  · exact (hostName_ne_clientName env a b hb).elim
  · exact (hostName_ne_clientName env b a hb.symm).elim
  · exact clientName_injective hb

/-! ## Changes -/

variable [DecidableEq XID]

namespace World

/-- Between `w` and `w'` the messages `msgs` were handed over and `d` was counted.  The sessions
`dead` of a room of the given mode ended, and the sessions `born` of it started. -/
structure Change (env : Env XID) (mode : ConnectionMode) (dead born : Finset XID) (d : Metrics)
    (msgs : List (XID × Message XID)) (w w' : World XID) : Prop where
  out : w'.out = w.out ++ msgs
  metrics : w'.metrics = w.metrics + d
  tick : w.tick ≤ w'.tick
  born_new : ∀ id ∈ born, ∃ n, w.tick ≤ n ∧ n < w'.tick ∧ id = env.xid.new n
  internal : w'.turnServer.IsInternal ↔ w.turnServer.IsInternal
  granted : w.turnServer.IsInternal → mode = connectionTURN → ∀ id ∈ born, ∀ name,
    IsNameOf env id name → (w'.turnServer.entry name).isSome
  withdrawn : mode = connectionTURN → ∀ id ∈ dead, id ∉ born → ∀ name, IsNameOf env id name →
    w'.turnServer.entry name = none
  kept : ∀ name, (mode = connectionTURN → ∀ id ∈ dead ∪ born, ¬ IsNameOf env id name) →
    w'.turnServer.entry name = w.turnServer.entry name

/-- What was handed over after `w`. -/
def since (w w' : World XID) : List (XID × Message XID) := w'.out.drop w.out.length

variable {mode : ConnectionMode} {dead born dead' born' : Finset XID} {d d' : Metrics}
  {msgs msgs' : List (XID × Message XID)} {w w' w'' : World XID}

omit [DecidableEq XID] in
theorem since_self (w : World XID) : w.since w = [] := by
  rw [World.since, List.drop_length]

omit [DecidableEq XID] in
theorem since_trans {w w' w'' : World XID} (h : w.out <+: w'.out) (h' : w'.out <+: w''.out) :
    w.since w'' = w.since w' ++ w'.since w'' := by
  obtain ⟨a, ha⟩ := h
  obtain ⟨b, hb⟩ := h'
  rw [World.since, World.since, World.since, ← hb, List.drop_left, ← ha, List.append_assoc,
    List.drop_left, List.drop_left]

theorem Change.since (h : Change env mode dead born d msgs w w') : w.since w' = msgs := by
  rw [World.since, h.out, List.drop_left]

theorem Change.of_turnServer_eq (hout : w'.out = w.out ++ msgs)
    (hmetrics : w'.metrics = w.metrics + d) (htick : w.tick ≤ w'.tick)
    (hturn : w'.turnServer = w.turnServer) : Change env mode ∅ ∅ d msgs w w' where
  out := hout
  metrics := hmetrics
  tick := htick
  born_new := by simp
  internal := by rw [hturn]
  granted := by simp
  withdrawn := by simp
  kept := fun _ _ ↦ by rw [hturn]

theorem Change.refl (env : Env XID) (mode : ConnectionMode) (w : World XID) :
    Change env mode ∅ ∅ 0 [] w w :=
  .of_turnServer_eq (by simp) (by simp) le_rfl rfl

theorem change_writeTimeout (env : Env XID) (mode : ConnectionMode) (ch : XID) (msg : Message XID)
    (w : World XID) :
    Change env mode ∅ ∅ 0 [(ch, msg)] w (w.writeTimeout ch msg) :=
  .of_turnServer_eq rfl (by simp [writeTimeout]) le_rfl rfl

theorem change_send (env : Env XID) (mode : ConnectionMode) (msgs : List (XID × Message XID))
    (w : World XID) :
    Change env mode ∅ ∅ 0 msgs w (w.send msgs) :=
  .of_turnServer_eq rfl (by simp [send]) le_rfl rfl

theorem change_draw (env : Env XID) (mode : ConnectionMode) (n : ℕ) (w : World XID) :
    Change env mode ∅ ∅ 0 [] w (w.draw n) :=
  .of_turnServer_eq (by simp [draw]) (by simp [draw]) (Nat.le_add_right _ _) rfl

theorem change_count (env : Env XID) (mode : ConnectionMode) (d : Metrics) (w : World XID) :
    Change env mode ∅ ∅ d [] w (w.count d) :=
  .of_turnServer_eq (by simp [count]) rfl le_rfl rfl

/-- Changes compose, as long as no session starts in the first and ends in the second. -/
theorem Change.trans (h : Change env mode dead born d msgs w w')
    (h' : Change env mode dead' born' d' msgs' w' w'') (hdisj : Disjoint born dead') :
    Change env mode (dead ∪ dead') (born ∪ born') (d + d') (msgs ++ msgs') w w'' where
  out := by rw [h'.out, h.out, List.append_assoc]
  metrics := by rw [h'.metrics, h.metrics, add_assoc]
  tick := h.tick.trans h'.tick
  born_new := by
    intro id hid
    rcases Finset.mem_union.mp hid with hid | hid
    · obtain ⟨n, hlo, hhi, hn⟩ := h.born_new id hid
      exact ⟨n, hlo, hhi.trans_le h'.tick, hn⟩
    · obtain ⟨n, hlo, hhi, hn⟩ := h'.born_new id hid
      exact ⟨n, h.tick.trans hlo, hhi, hn⟩
  internal := h'.internal.trans h.internal
  granted := by
    intro hint hmode id hid name hname
    by_cases hid' : id ∈ born'
    · exact h'.granted (h.internal.mpr hint) hmode id hid' name hname
    · have hborn : id ∈ born := (Finset.mem_union.mp hid).resolve_right hid'
      rw [h'.kept name]
      · exact h.granted hint hmode id hborn name hname
      · intro _ id' hmem hname'
        obtain rfl := hname'.unique hname
        rcases Finset.mem_union.mp hmem with hmem | hmem
        · exact (Finset.disjoint_left.mp hdisj hborn hmem).elim
        · exact (hid' hmem).elim
  withdrawn := by
    intro hmode id hid hnot name hname
    rw [Finset.mem_union, not_or] at hnot
    by_cases hid' : id ∈ dead'
    · exact h'.withdrawn hmode id hid' hnot.2 name hname
    · rw [h'.kept name]
      · exact h.withdrawn hmode id ((Finset.mem_union.mp hid).resolve_right hid') hnot.1 name hname
      · intro _ id' hmem hname'
        obtain rfl := hname'.unique hname
        exact (Finset.mem_union.mp hmem).elim hid' hnot.2
  kept := by
    intro name hname
    rw [h'.kept name, h.kept name]
    · intro hmode id hid
      apply hname hmode
      rcases Finset.mem_union.mp hid with hid | hid <;> simp [hid]
    · intro hmode id hid
      apply hname hmode
      rcases Finset.mem_union.mp hid with hid | hid <;> simp [hid]

theorem Change.before (h : Change env mode ∅ ∅ d msgs w w')
    (h' : Change env mode dead born d' msgs' w' w'') :
    Change env mode dead born (d + d') (msgs ++ msgs') w w'' := by
  simpa using h.trans h' (Finset.disjoint_empty_left _)

theorem Change.after (h : Change env mode dead born d msgs w w')
    (h' : Change env mode ∅ ∅ d' msgs' w' w'') :
    Change env mode dead born (d + d') (msgs ++ msgs') w w'' := by
  simpa using h.trans h' (Finset.disjoint_empty_right _)

theorem Change.mode_irrel (h : Change env mode ∅ ∅ d msgs w w') (mode' : ConnectionMode) :
    Change env mode' ∅ ∅ d msgs w w' where
  out := h.out
  metrics := h.metrics
  tick := h.tick
  born_new := h.born_new
  internal := h.internal
  granted := by simp
  withdrawn := by simp
  kept := fun name _ ↦ h.kept name (by simp)

end World

end Screego
