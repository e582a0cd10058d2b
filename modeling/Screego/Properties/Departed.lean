import Screego.Spec.Refinement

/-!
# Clients that are gone

A client that left the connected map never comes back, for ids are not reused
and `Connected` is posted once for each of them.  Its reader and its writer may
still post frames and `Disconnected` messages: the main loop passes over all of
them.
-/

namespace Screego

open Outgoing World Rooms

variable {XID : Type} [DecidableEq XID] {env : Env XID} {server : Turn.Server}

/-- The client `k` was connected once and is not any more. -/
structure Departed (s : System XID) (k : XID) : Prop where
  known : k ∈ s.clients.map ClientInfo.id
  gone : k ∉ s.rooms.connected.keys

section Step

variable {s t : System XID} {a : Action XID} {k : XID}

theorem departed_of_step (hwf : s.WF env) (h : (machine env server).step s a t)
    (hk : k ∈ s.rooms.connected.keys) (hgone : k ∉ t.rooms.connected.keys) : Departed t k := by
  obtain ⟨c, hc, rfl⟩ := hwf.known k hk
  exact ⟨List.mem_map.mpr ⟨c, step_clients h hc, rfl⟩, hgone⟩

theorem Departed.step (hdeparted : Departed s k) (hwf : s.WF env)
    (h : (machine env server).step s a t) : Departed t k := by
  have hdialing := not_dialing hwf hdeparted.known
  refine ⟨?_, fun hk ↦ ?_⟩
  · obtain ⟨c, hc, hid⟩ := List.mem_map.mp hdeparted.known
    exact List.mem_map.mpr ⟨c, step_clients h hc, hid⟩
  · rcases (step_effect hwf h).connected_keys hk with hold | ⟨hevent, hself⟩
    · exact hdeparted.gone hold
    · obtain ⟨info, rfl⟩ := connect_of_event h hevent
      exact hdialing info h.1 hself.symm

theorem step_ignored {info : ClientInfo XID} {event : Event XID}
    (hgone : info.id ∉ s.rooms.connected.keys)
    (h : (machine env server).step s (.receive info event) t) : t = s :=
  step_of_start h (start_ignores hgone event)

theorem Departed.ignored (hdeparted : Departed s k) {info : ClientInfo XID} {event : Event XID}
    (hid : info.id = k) (h : (machine env server).step s (.receive info event) t) : t = s :=
  step_ignored (hid ▸ hdeparted.gone) h

end Step

/-- After a client left the connected map, it stays out of it, no `Connected` is posted for it,
and none of its messages changes anything or tells anybody anything. -/
structure Inert (env : Env XID) (server : Turn.Server) (k : XID)
    (l : List (System XID × Action XID)) (u : System XID) : Prop where
  gone : k ∉ u.rooms.connected.keys
  never_back : ∀ p ∈ l, k ∉ p.1.rooms.connected.keys ∧ ∀ info, p.2 = .connect info → info.id ≠ k
  ignored : ∀ p ∈ l, ∀ info event v, p.2 = .receive info event → info.id = k →
    (machine env server).step p.1 p.2 v → v = p.1
  ignores : ∀ info event, info.id = k →
    u.rooms.start env ⟨info, false, event⟩ = some u.rooms

theorem departed_inert {s t u : System XID} {a : Action XID} {k : XID}
    {l : List (System XID × Action XID)} (h : (machine env server).Reachable s)
    (hstep : (machine env server).step s a t) (hk : k ∈ s.rooms.connected.keys)
    (hgone : k ∉ t.rooms.connected.keys) (hrun : (machine env server).Run t l u) :
    Inert env server k l u := by
  have ht := h.step hstep
  have hdeparted := departed_of_step (reachable_wf h) hstep hk hgone
  have hkeeps : ∀ {v w b}, (machine env server).Reachable v → Departed v k →
      (machine env server).step v b w → Departed w k :=
    fun hv hI hst ↦ hI.step (reachable_wf hv) hst
  have hlast := hrun.preserves (I := fun v ↦ Departed v k) ht hdeparted hkeeps
  have hall : ∀ p ∈ l, Departed p.1 k := fun p hp ↦
    hrun.preserves_of_mem (I := fun v ↦ Departed v k) ht hdeparted hkeeps hp
  refine ⟨hlast.gone, ?_, ?_, ?_⟩
  · rintro ⟨v, b⟩ hp
    refine ⟨(hall _ hp).gone, ?_⟩
    rintro info rfl
    have hwf := reachable_wf (hrun.reachable_of_mem ht hp)
    obtain ⟨_, _, hst, -⟩ := hrun.after_of_mem hp
    exact not_dialing hwf (hall _ hp).known info hst.1
  · rintro ⟨v, b⟩ hp info event w rfl hid hst
    exact (hall _ hp).ignored hid hst
  · intro info event hid
    exact start_ignores (hid ▸ hlast.gone) event

/-- The reader of the kicked client still had a `share` in its backlog. -/
theorem departed_inert_expulsion : Inert (Env.sample authModeNone) (.internal ⟨∅⟩) 1
    [(System.after (Env.sample authModeNone) (.internal ⟨∅⟩) (meeting "turn" ++ [expulsion]),
      .receive (guest 1) .startShare)]
    (System.after (Env.sample authModeNone) (.internal ⟨∅⟩)
      (meeting "turn" ++ [expulsion] ++ [.receive (guest 1) .startShare])) := by
  have hkick : (machine (Env.sample authModeNone) (.internal ⟨∅⟩)).step
      (System.after (Env.sample authModeNone) (.internal ⟨∅⟩) (meeting "turn")) expulsion
      (System.after (Env.sample authModeNone) (.internal ⟨∅⟩) (meeting "turn" ++ [expulsion])) :=
    System.step_after _ (by decide +kernel) (by decide +kernel)
  have hshare : (machine (Env.sample authModeNone) (.internal ⟨∅⟩)).step
      (System.after (Env.sample authModeNone) (.internal ⟨∅⟩) (meeting "turn" ++ [expulsion]))
      (.receive (guest 1) .startShare) (System.after (Env.sample authModeNone) (.internal ⟨∅⟩)
        (meeting "turn" ++ [expulsion] ++ [.receive (guest 1) .startShare])) :=
    System.step_after _ (by decide +kernel) (by decide +kernel)
  exact departed_inert (System.reachable_after _ _ _) hkick (by decide +kernel)
    (by decide +kernel) (.cons hshare .nil)

end Screego
