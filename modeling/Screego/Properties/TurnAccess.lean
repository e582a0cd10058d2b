import Screego.Spec.Founding
import Screego.Spec.Ledger
import Screego.Spec.Serving

/-!
# Who gets TURN credentials

Credentials are made for the sessions of rooms in the mode `turn`.  The check of
`create` is about the modes that are not `stun` and not `local`, which are more,
and a room keeps its mode, so a login stands behind every pair of credentials
unless the server runs without logins.
-/

namespace Screego

open Outgoing World Rooms

variable {XID : Type} [DecidableEq XID] {env : Env XID} {server : Turn.Server}

/-! ## Calls of `Credentials` -/

section Credentials

omit [DecidableEq XID] in
theorem credentials_username_ne (env : Env XID) (w : World XID) {name : String} (hname : name ≠ "")
    (addr : IP) : (w.credentials env name addr).1 ≠ "" := by
  unfold World.credentials Turn.Server.credentials
  cases w.turnServer with
  | internal _ => exact hname
  | external _ => exact fun h ↦ hname (String.append_eq_empty_iff.mp h).2

omit [DecidableEq XID] in
/-- The ICE servers of a session name a user exactly if `Credentials` was called for them. -/
theorem OpenedSession.Made.username_ne {mode : ConnectionMode} {v4 v6 : IP} {o : OpenedSession XID}
    (h : o.Made env mode v4 v6) {srv : ICEServer} (hsrv : srv ∈ o.iceHost ∨ srv ∈ o.iceClient) :
    srv.username ≠ "" ↔ mode = connectionTURN := by
  by_cases hturn : mode = connectionTURN
  · refine iff_of_true ?_ hturn
    obtain ⟨w, addr, w', addr', hhost, hclient⟩ := h.turn hturn
    have hne (a b : String) (hb : b ≠ "") : a ++ b ≠ "" := fun h ↦
      hb (String.append_eq_empty_iff.mp h).2
    rcases hsrv with hsrv | hsrv
    · rw [hhost, List.mem_singleton] at hsrv
      rw [hsrv]
      exact credentials_username_ne env w (hne _ _ (by decide)) addr
    · rw [hclient, List.mem_singleton] at hsrv
      rw [hsrv]
      exact credentials_username_ne env w' (hne _ _ (by decide)) addr'
  · refine iff_of_false (not_not.mpr ?_) hturn
    by_cases hstun : mode = connectionSTUN
    · obtain ⟨hhost, hclient⟩ := h.stun hstun
      rw [hhost, hclient, or_self, List.mem_singleton] at hsrv
      rw [hsrv]
    · obtain ⟨hhost, hclient⟩ := h.other hstun hturn
      rw [hhost, hclient, or_self] at hsrv
      cases hsrv

end Credentials

/-! ## The login behind them -/

omit [DecidableEq XID] in
theorem Create.authenticated_of_turn {e : Create} {info : ClientInfo XID}
    (hmode : env.config.authMode = authModeTurn ∨ env.config.authMode = authModeAll)
    (hauth : e.authError env info = none) (hturn : e.mode = connectionTURN) :
    info.authenticated = true := by
  by_contra hlogin
  have hstun : e.mode ≠ connectionSTUN := by
    rw [hturn]
    decide
  have hlocal : e.mode ≠ connectionLocal := by
    rw [hturn]
    decide
  rcases hmode with hmode | hmode <;>
    simp [Create.authError, hmode, authModeNone, authModeAll, authModeTurn, hstun, hlocal,
      hlogin] at hauth

/-- A login stands behind the TURN credentials of the step. -/
structure TurnGated (env : Env XID) (l : List (System XID × Action XID)) (s : System XID)
    (a : Action XID) (t : System XID) : Prop where
  /-- Each session that gets credentials is in a room that a logged-in client created. -/
  credentials : ∀ k m id iceServers, (k, m) ∈ s.rooms.world.since t.rooms.world →
    m.HandsOut id iceServers → ∀ srv ∈ iceServers, srv.username ≠ "" →
    ∃ r room info e, t.rooms.rooms.lookup r = some room ∧ id ∈ room.sessions.keys ∧
      Founded env r info e (l ++ [(s, a)]) ∧ info.authenticated = true
  /-- Rooms keep their mode. -/
  mode : ∀ r room room', s.rooms.rooms.lookup r = some room →
    t.rooms.rooms.lookup r = some room' → room'.mode = room.mode
  /-- Whatever is created without a login, the rooms for TURN are those from before. -/
  create : ∀ info e, a = .receive info (.create e) → info.authenticated = false → ∀ r room',
    t.rooms.rooms.lookup r = some room' → room'.mode = connectionTURN →
    ∃ room, s.rooms.rooms.lookup r = some room ∧ room.Origin room'

theorem turn_gated (hmode : env.config.authMode = authModeTurn ∨ env.config.authMode = authModeAll)
    {l : List (System XID × Action XID)} {s t : System XID} {a : Action XID}
    (hrun : (machine env server).Run (machine env server).init l s)
    (h : (machine env server).step s a t) : TurnGated env l s a t where
  credentials := by
    intro k m id iceServers hm hout srv hsrv hne
    have hwf := reachable_wf ⟨l, hrun⟩
    have hkind : m.kind = .session := by
      obtain ⟨peer, rfl | rfl⟩ := hout <;> rfl
    obtain ⟨r, room, o, hserves, hmem, -⟩ := step_serves hwf h hm hkind
    obtain ⟨n, v4, v6, -, hmade⟩ := hserves.made
    obtain rfl := OpenedSession.id_of_mem hmem hout
    have hturn := (hmade.username_ne (OpenedSession.mem_iceServers hmem hout hsrv)).mp hne
    obtain ⟨info, e, hfounded⟩ := founded_of_lookup (hrun.snoc h) hserves.lookup
    have hcreated := (hfounded.origin (hrun.snoc h) hserves.lookup).1
    exact ⟨r, room, info, e, hserves.lookup, GoMap.mem_keys_of_lookup hserves.session, hfounded,
      Create.authenticated_of_turn hmode hfounded.authError (hcreated.symm.trans hturn)⟩
  mode := by
    intro r room room' hroom hroom'
    have hwf := reachable_wf ⟨l, hrun⟩
    rcases (step_effect hwf h).origin hwf.rooms hroom' with ⟨old, hold, horigin⟩ |
      ⟨_, _, _, -, -, -, hnone, -, -⟩
    · obtain rfl := Option.some.inj (hold.symm.trans hroom)
      exact horigin.mode
    · rw [hroom] at hnone
      cases hnone
  create := by
    rintro info e rfl hlogin r room' hroom' hturn
    have hwf := reachable_wf ⟨l, hrun⟩
    rcases (step_effect hwf h).origin hwf.rooms hroom' with hold |
      ⟨e', name, createdAt, hevent, -, -, -, hauth, rfl⟩
    · exact hold
    · have hauthenticated := Create.authenticated_of_turn hmode hauth hturn
      exact absurd (hlogin.symm.trans hauthenticated) (by decide)

/-- A client with a login. -/
def lodger : ClientInfo ℕ := ⟨0, true, "ada", [127, 0, 0, 1]⟩

/-- It opens a room for a guest. -/
def hosted : List (Action ℕ) :=
  [.dial true "ada" [127, 0, 0, 1], .dial false "" [127, 0, 0, 1], .connect lodger,
    .connect (guest 1), .receive lodger (.create ⟨"lobby", "turn", false, "", false⟩),
    .receive (guest 1) (.join ⟨"lobby", ""⟩)]

theorem turn_gated_hosted :
    TurnGated (Env.sample authModeTurn)
      (System.history (Env.sample authModeTurn) (.internal ⟨∅⟩) hosted).1
      (System.after (Env.sample authModeTurn) (.internal ⟨∅⟩) hosted) (.receive lodger .startShare)
      (System.after (Env.sample authModeTurn) (.internal ⟨∅⟩)
        (hosted ++ [.receive lodger .startShare])) ∧
    ∃ p ∈ (System.after (Env.sample authModeTurn) (.internal ⟨∅⟩)
        (hosted ++ [.receive lodger .startShare])).rooms.world.out,
      p.1 = 1 ∧ p.2.kind = .session := by
  have hstep : (machine (Env.sample authModeTurn) (.internal ⟨∅⟩)).step
      (System.after (Env.sample authModeTurn) (.internal ⟨∅⟩) hosted) (.receive lodger .startShare)
      (System.after (Env.sample authModeTurn) (.internal ⟨∅⟩)
        (hosted ++ [.receive lodger .startShare])) :=
    System.step_after _ (by decide +kernel) (by decide +kernel)
  exact ⟨turn_gated (Or.inl rfl) (System.run_history _ _ _) hstep, by decide +kernel⟩

end Screego
