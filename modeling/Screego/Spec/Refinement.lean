import Screego.Spec.OwnerActions

/-!
# Every step of the server is an effect

The main loop never panics in a well-formed state, and what it does is one
`Effect`.  Well-formedness is therefore an invariant of the whole server, and a
property of the rooms that every effect keeps holds in every reachable state.
-/

namespace Screego

open Outgoing World Rooms

variable {XID : Type} [DecidableEq XID] {env : Env XID}

section Loop

variable {s : Rooms XID} {c : ClientInfo XID}

theorem disconnected_settles (hwf : s.WF env) (hc : c.id ∈ s.connected.keys) {e : Event XID}
    (d : Disconnected) : Settles env c s e (d.execute env s c) :=
  executeNoError_effect hwf hc (Change.refl env "" s.world) d

theorem event_settles (hwf : s.WF env) (hc : c.id ∈ s.connected.keys) {e : Event XID}
    (he : e.FromClient) : Settles env c s e (e.execute env s c) := by
  cases e with
  | connected => cases he
  | health => cases he
  | disconnected d => exact disconnected_settles hwf hc d
  | create e => exact create_settles hwf hc e
  | join j => exact join_settles hwf hc j rfl
  | name n => exact name_settles hwf hc n
  | startShare => exact startShare_settles hwf hc
  | stopShare => exact stopShare_settles hwf hc
  | ownerAction a => exact a.settles hwf hc
  | exit => exact disconnected_settles hwf hc _
  | dissolve => exact dissolve_settles hwf hc
  | hostOffer m => exact relay_settles hwf hc rfl (Or.inr rfl)
  | hostICE m => exact relay_settles hwf hc rfl (Or.inr rfl)
  | clientAnswer m => exact relay_settles hwf hc rfl (Or.inl rfl)
  | clientICE m => exact relay_settles hwf hc rfl (Or.inl rfl)

/-- The main loop passes over every message of a client that is not connected. -/
theorem start_ignores (hgone : c.id ∉ s.connected.keys) (e : Event XID) :
    s.start env ⟨c, false, e⟩ = some s := by
  have hcheck : ¬ false = true ∧ c.id ∉ s.connected.keys := ⟨by decide, hgone⟩
  simp only [start, if_pos hcheck]

theorem start_ok (hc : c.id ∈ s.connected.keys) {e : Event XID} {s' : Rooms XID}
    (hrun : e.execute env s c = .ok s') : s.start env ⟨c, false, e⟩ = some s' := by
  have hcheck : ¬ (¬ false = true ∧ c.id ∉ s.connected.keys) := fun h ↦ h.2 hc
  simp only [start, if_neg hcheck, hrun]

theorem start_error (hc : c.id ∈ s.connected.keys) {e : Event XID} {err : String}
    {s₁ : Rooms XID} (hfail : e.execute env s c = .error err s₁) : s.start env ⟨c, false, e⟩ =
      some (Disconnected.executeNoError env ⟨closeNormalClosure, err⟩ s₁ c) := by
  have hcheck : ¬ (¬ false = true ∧ c.id ∉ s.connected.keys) := fun h ↦ h.2 hc
  simp only [start, if_neg hcheck, hfail]

theorem start_effect (hwf : s.WF env) (c : ClientInfo XID) {e : Event XID} (he : e.FromClient) :
    ∃ s', s.start env ⟨c, false, e⟩ = some s' ∧ Effect env c s e s' := by
  by_cases hc : c.id ∈ s.connected.keys
  · have hsettles := event_settles hwf hc he
    cases houtcome : e.execute env s c with
    | ok s' =>
        rw [houtcome] at hsettles
        exact ⟨s', start_ok hc houtcome, hsettles⟩
    | error err s₁ =>
        rw [houtcome] at hsettles
        exact ⟨_, start_error hc houtcome, hsettles⟩
    | panicked =>
        rw [houtcome] at hsettles
        exact hsettles.elim
  · exact ⟨s, start_ignores hc e, .idle (Change.refl env "" s.world)⟩

end Loop

/-! ## The server -/

/-- Whom an action of the system is about. -/
def Action.info (env : Env XID) : Action XID → ClientInfo XID
  | .dial _ _ _ => System.nobody env
  | .connect info => info
  | .receive info _ => info
  | .health => System.nobody env

/-- What the main loop is given; a client that dials is not its business. -/
def Action.event : Action XID → Event XID
  | .dial _ _ _ => .health
  | .connect _ => .connected
  | .receive _ event => event
  | .health => .health

omit [DecidableEq XID] in
/-- What a frame decodes to was received from a client. -/
theorem receive_of_event {a : Action XID} {e : Event XID} (h : a.event = e)
    (he : e.registered.isSome) : ∃ info, a = .receive info e := by
  subst h
  cases a with
  | receive info event => exact ⟨info, rfl⟩
  | dial _ _ _ => cases he
  | connect _ => cases he
  | health => cases he

namespace System

structure WF (env : Env XID) (s : System XID) : Prop where
  rooms : s.rooms.WF env
  minted : ∀ c ∈ s.dialing ++ s.clients, ∃ n < s.rooms.world.tick, c.id = env.xid.new n
  distinct : ((s.dialing ++ s.clients).map ClientInfo.id).Nodup
  known : ∀ k ∈ s.rooms.connected.keys, ∃ c ∈ s.clients, c.id = k

variable {s t : System XID} {a : Action XID}

theorem next_effect (hwf : s.WF env) (ha : s.Enabled a) :
    ∃ t, s.next env a = some t ∧ Effect env (a.info env) s.rooms a.event t.rooms := by
  cases a with
  | dial authenticated authenticatedUser addr =>
      exact ⟨_, rfl, .idle (change_draw env "" 1 s.rooms.world)⟩
  | connect info =>
      have hrun : s.rooms.start env ⟨info, true, .connected⟩ =
          some { s.rooms with connected := s.rooms.connected.insert info.id "" } := rfl
      exact ⟨_, by simp only [next, hrun]; rfl, .connect⟩
  | receive info event =>
      obtain ⟨s', hrun, heffect⟩ := start_effect hwf.rooms info ha.2
      exact ⟨{ s with rooms := s' }, by simp only [next, hrun]; rfl, heffect⟩
  | health =>
      let w : World XID := { s.rooms.world with
        health := s.rooms.world.health ++ [s.rooms.connected.keys.card] }
      have hrun : s.rooms.start env ⟨nobody env, true, .health⟩ =
          some ⟨s.rooms.rooms, s.rooms.connected, w⟩ := rfl
      have hworld : Change env "" ∅ ∅ 0 [] s.rooms.world w :=
        .of_turnServer_eq (by simp [w]) (by simp [w]) le_rfl rfl
      exact ⟨{ s with rooms := ⟨s.rooms.rooms, s.rooms.connected, w⟩ },
        by simp only [next, hrun]; rfl, .idle hworld⟩

end System

variable {s t : System XID} {a : Action XID} {server : Turn.Server}

theorem step_effect (hwf : s.WF env) (h : (machine env server).step s a t) :
    Effect env (a.info env) s.rooms a.event t.rooms := by
  obtain ⟨t', hnext, heffect⟩ := System.next_effect hwf h.1
  rw [h.2] at hnext
  exact Option.some.inj hnext ▸ heffect

theorem machine_deterministic {t' : System XID} (h : (machine env server).step s a t)
    (h' : (machine env server).step s a t') : t = t' :=
  Option.some.inj (h.2.symm.trans h'.2)

theorem step_out (hwf : s.WF env) (h : (machine env server).step s a t) :
    t.rooms.world.out = s.rooms.world.out ++ s.rooms.world.since t.rooms.world := by
  obtain ⟨_, _, _, _, _, hchange⟩ := (step_effect hwf h).change
  rw [hchange.since, hchange.out]

/-- A step that takes a message is one iteration of the main loop. -/
theorem step_of_start {info : ClientInfo XID} {e : Event XID} {s' : Rooms XID}
    (h : (machine env server).step s (.receive info e) t)
    (hstart : s.rooms.start env ⟨info, false, e⟩ = some s') : t = { s with rooms := s' } := by
  have hnext := h.2
  simp only [System.next, hstart, Option.bind_eq_bind, Option.bind_some, Option.pure_def,
    Option.some.injEq] at hnext
  exact hnext.symm

theorem step_of_execute {info : ClientInfo XID} {e : Event XID}
    {s' : Rooms XID} (h : (machine env server).step s (.receive info e) t)
    (hconn : info.id ∈ s.rooms.connected.keys) (hrun : e.execute env s.rooms info = .ok s') :
    t.rooms = s' := by
  rw [step_of_start h (start_ok hconn hrun)]

theorem step_of_error {info : ClientInfo XID} {e : Event XID} {err : String} {s₁ : Rooms XID}
    (h : (machine env server).step s (.receive info e) t)
    (hconn : info.id ∈ s.rooms.connected.keys)
    (hfail : e.execute env s.rooms info = .error err s₁) :
    t.rooms = Disconnected.executeNoError env ⟨closeNormalClosure, err⟩ s₁ info := by
  rw [step_of_start h (start_error hconn hfail)]

/-- Only `Connected` adds an entry to the connected map. -/
theorem Effect.connected_keys {s s' : Rooms XID} {c : ClientInfo XID} {e : Event XID}
    (h : Effect env c s e s') {k : XID} (hk : k ∈ s'.connected.keys) :
    k ∈ s.connected.keys ∨ (e = .connected ∧ k = c.id) := by
  have hinsert {r : String} (hout : s.connected.lookup c.id = some "")
      (hk : k ∈ (s.connected.insert c.id r).keys) : k ∈ s.connected.keys := by
    rw [GoMap.keys_insert, Finset.mem_insert] at hk
    rcases hk with rfl | hk
    · exact GoMap.mem_keys_of_lookup hout
    · exact hk
  have herase {t : XID} (hk : k ∈ (s.connected.erase t).keys) : k ∈ s.connected.keys := by
    rw [GoMap.keys_erase] at hk
    exact Finset.mem_of_mem_erase hk
  cases h with
  | idle _ => exact Or.inl hk
  | connect =>
      rw [GoMap.keys_insert, Finset.mem_insert] at hk
      rcases hk with hk | hk
      · exact Or.inr ⟨rfl, hk⟩
      · exact Or.inl hk
  | relay _ _ _ _ _ => exact Or.inl hk
  | create hout _ _ _ _ => exact Or.inl (hinsert hout hk)
  | join _ hout _ _ _ _ _ => exact Or.inl (hinsert hout hk)
  | joinFailed _ _ _ _ _ _ _ _ => exact Or.inl (herase hk)
  | haunt _ _ _ _ _ _ => exact Or.inl (herase hk)
  | update _ _ _ _ _ => exact Or.inl hk
  | share _ _ _ _ _ _ _ _ => exact Or.inl hk
  | remove _ _ _ _ _ _ _ => exact Or.inl (herase hk)
  | leave _ hleft =>
      cases hleft with
      | stay _ _ _ _ => exact Or.inl (herase hk)
      | last _ _ => exact Or.inl (herase hk)
  | leaveNowhere _ _ => exact Or.inl (herase hk)
  | dissolve _ _ _ _ _ =>
      obtain ⟨r, hr⟩ := GoMap.mem_keys.mp hk
      exact Or.inl (GoMap.mem_keys_of_lookup (GoMap.lookup_filter_eq_some.mp hr).1)

/-- What a step does to the clients: one more dials, or one of them connects. -/
theorem next_clients (h : s.next env a = some t) :
    (∃ c, a.event = .health ∧ c.id = env.xid.new s.rooms.world.tick ∧
      t.rooms.world.tick = s.rooms.world.tick + 1 ∧ t.dialing = c :: s.dialing ∧
      t.clients = s.clients) ∨
    (∃ c, a = .connect c ∧ t.dialing = s.dialing.erase c ∧ t.clients = c :: s.clients) ∨
    (a.event ≠ .connected ∧ t.dialing = s.dialing ∧ t.clients = s.clients) ∨
    ¬ s.Enabled a := by
  cases a with
  | dial authenticated authenticatedUser addr =>
      obtain rfl := Option.some.inj h
      exact Or.inl ⟨_, rfl, rfl, rfl, rfl, rfl⟩
  | connect info =>
      simp only [System.next, Option.bind_eq_bind, Option.bind_eq_some_iff, Option.pure_def,
        Option.some.injEq] at h
      obtain ⟨s', -, rfl⟩ := h
      exact Or.inr (Or.inl ⟨info, rfl, rfl, rfl⟩)
  | receive info event =>
      simp only [System.next, Option.bind_eq_bind, Option.bind_eq_some_iff, Option.pure_def,
        Option.some.injEq] at h
      obtain ⟨s', -, rfl⟩ := h
      by_cases hevent : event = .connected
      · subst hevent
        exact Or.inr (Or.inr (Or.inr fun henabled ↦ by cases henabled.2))
      · exact Or.inr (Or.inr (Or.inl ⟨hevent, rfl, rfl⟩))
  | health =>
      simp only [System.next, Option.bind_eq_bind, Option.bind_eq_some_iff, Option.pure_def,
        Option.some.injEq] at h
      obtain ⟨s', -, rfl⟩ := h
      exact Or.inr (Or.inr (Or.inl ⟨by simp [Action.event], rfl, rfl⟩))

theorem System.WF.step (hwf : s.WF env) (h : (machine env server).step s a t) : t.WF env := by
  have heffect := step_effect hwf h
  have htick := heffect.tick
  have hminted : ∀ c ∈ s.dialing ++ s.clients,
      ∃ n < t.rooms.world.tick, c.id = env.xid.new n := by
    intro c hc
    obtain ⟨n, hn, hid⟩ := hwf.minted c hc
    exact ⟨n, hn.trans_le htick, hid⟩
  rcases next_clients h.2 with ⟨c, ha, hid, hdraw, hdialing, hclients⟩ |
    ⟨c, rfl, hdialing, hclients⟩ | ⟨ha, hdialing, hclients⟩ | hnot
  · have hquiet : a.event ≠ .connected := by
      rw [ha]
      simp
    refine ⟨heffect.wf hwf.rooms fun h ↦ absurd h hquiet, ?_, ?_, ?_⟩
    · rw [hdialing, hclients]
      intro c' hc'
      rcases List.mem_cons.mp hc' with rfl | hc'
      · exact ⟨s.rooms.world.tick, by omega, hid⟩
      · exact hminted c' hc'
    · rw [hdialing, hclients, List.cons_append, List.map_cons, List.nodup_cons]
      refine ⟨?_, hwf.distinct⟩
      intro hmem
      obtain ⟨c', hc', heq⟩ := List.mem_map.mp hmem
      obtain ⟨n, hn, hid'⟩ := hwf.minted c' hc'
      have := env.xid.new_injective (hid'.symm.trans (heq.trans hid))
      omega
    · rw [hclients]
      intro k hk
      exact hwf.known k ((heffect.connected_keys hk).resolve_right fun h ↦ hquiet h.1)
  · have hmem : c ∈ s.dialing := h.1
    have hperm : (s.dialing.erase c ++ c :: s.clients).Perm (s.dialing ++ s.clients) :=
      List.perm_middle.trans ((List.perm_cons_erase hmem).symm.append_right s.clients)
    have hnew : c.id ∉ s.rooms.connected.keys := by
      intro hknown
      obtain ⟨c', hc', hid⟩ := hwf.known c.id hknown
      have hdistinct := hwf.distinct
      rw [List.map_append, List.nodup_append] at hdistinct
      exact hdistinct.2.2 c.id (List.mem_map.mpr ⟨c, hmem, rfl⟩) c.id
        (List.mem_map.mpr ⟨c', hc', hid⟩) rfl
    refine ⟨heffect.wf hwf.rooms fun _ ↦ hnew, ?_, ?_, ?_⟩
    · rw [hdialing, hclients]
      intro c' hc'
      exact hminted c' (hperm.mem_iff.mp hc')
    · rw [hdialing, hclients, (hperm.map ClientInfo.id).nodup_iff]
      exact hwf.distinct
    · rw [hclients]
      intro k hk
      rcases heffect.connected_keys hk with hold | ⟨-, rfl⟩
      · obtain ⟨c', hc', hid⟩ := hwf.known k hold
        exact ⟨c', List.mem_cons_of_mem _ hc', hid⟩
      · exact ⟨c, List.mem_cons_self, rfl⟩
  · refine ⟨heffect.wf hwf.rooms fun h ↦ absurd h ha, ?_, ?_, ?_⟩
    · rw [hdialing, hclients]
      exact hminted
    · rw [hdialing, hclients]
      exact hwf.distinct
    · rw [hclients]
      intro k hk
      exact hwf.known k ((heffect.connected_keys hk).resolve_right fun h ↦ ha h.1)
  · exact absurd h.1 hnot

theorem reachable_wf (h : (machine env server).Reachable t) : t.WF env := by
  refine h.invariant ?_ fun _ hwf hstep ↦ System.WF.step hwf hstep
  refine ⟨wf_newRooms server, ?_, List.nodup_nil, ?_⟩
  · simp [machine]
  · simp [machine, newRooms]

theorem run_out {u : System XID} {l : List (System XID × Action XID)}
    (hreach : (machine env server).Reachable t) (h : (machine env server).Run t l u) :
    t.rooms.world.out <+: u.rooms.world.out := by
  refine h.preserves (I := fun u ↦ t.rooms.world.out <+: u.rooms.world.out) hreach
    List.prefix_rfl ?_
  intro u v a hu hgrown hstep
  rw [step_out (reachable_wf hu) hstep]
  exact hgrown.trans (List.prefix_append _ _)

theorem run_since {u : System XID} {l : List (System XID × Action XID)}
    (hreach : (machine env server).Reachable t) (h : (machine env server).Run t l u)
    {q : XID × Message XID} (hq : q ∈ u.rooms.world.out) : q ∈ t.rooms.world.out ∨
      ∃ p ∈ l, ∃ s', (machine env server).step p.1 p.2 s' ∧
        q ∈ p.1.rooms.world.since s'.rooms.world := by
  induction h with
  | nil => exact Or.inl hq
  | @snoc l v u a hr hst ih =>
      rw [step_out (reachable_wf (hreach.run hr)) hst] at hq
      rcases List.mem_append.mp hq with hq | hq
      · rcases ih hq with hq | ⟨p, hp, hstep⟩
        · exact Or.inl hq
        · exact Or.inr ⟨p, List.mem_append_left _ hp, hstep⟩
      · exact Or.inr ⟨(v, a), List.mem_append_right _ (List.mem_singleton.mpr rfl), u, hst, hq⟩

theorem connect_of_event (h : (machine env server).step s a t) (he : a.event = .connected) :
    ∃ info, a = .connect info := by
  cases a with
  | connect info => exact ⟨info, rfl⟩
  | receive info event =>
      have hclient := h.1.2
      rw [show event = .connected from he] at hclient
      cases hclient
  | dial _ _ _ => cases he
  | health => cases he

/-- `Connected` writes nothing and puts the client into the connected map. -/
theorem connect_eq {info : ClientInfo XID} (h : (machine env server).step s (.connect info) t) :
    t = ⟨{ s.rooms with connected := s.rooms.connected.insert info.id "" },
      s.dialing.erase info, info :: s.clients⟩ := by
  have hnext := h.2
  simp only [System.next, start, Event.execute, Connected.execute, not_true_eq_false, false_and,
    if_false, Option.bind_eq_bind, Option.bind_some, Option.pure_def, Option.some.injEq] at hnext
  exact hnext.symm

/-- Apart from messages of clients nothing changes a room. -/
theorem step_rooms (h : (machine env server).step s a t) (ha : ¬ ∃ info e, a = .receive info e) :
    t.rooms.rooms = s.rooms.rooms := by
  cases a with
  | dial _ _ _ => rw [← Option.some.inj h.2]
  | connect info => rw [connect_eq h]
  | receive info e => exact absurd ⟨info, e, rfl⟩ ha
  | health =>
      have hnext := h.2
      simp only [System.next, start, Event.execute, Health.execute, not_true_eq_false, false_and,
        if_false, Option.bind_eq_bind, Option.bind_some, Option.pure_def,
        Option.some.injEq] at hnext
      rw [← hnext]

theorem step_clients (h : (machine env server).step s a t) {info : ClientInfo XID}
    (hinfo : info ∈ s.clients) : info ∈ t.clients := by
  rcases next_clients h.2 with ⟨_, -, -, -, -, hclients⟩ | ⟨_, -, -, hclients⟩ |
    ⟨-, -, hclients⟩ | hnot
  · rwa [hclients]
  · rw [hclients]
    exact List.mem_cons_of_mem _ hinfo
  · rwa [hclients]
  · exact absurd h.1 hnot

theorem step_clients_iff (h : (machine env server).step s a t) {k : XID}
    (hconnect : ¬ ∃ info, a = .connect info ∧ info.id = k) :
    k ∈ t.clients.map ClientInfo.id ↔ k ∈ s.clients.map ClientInfo.id := by
  rcases next_clients h.2 with ⟨_, -, -, -, -, heq⟩ | ⟨info, rfl, -, heq⟩ | ⟨-, -, heq⟩ | hnot
  · rw [heq]
  · have hne : k ≠ info.id := fun hid ↦ hconnect ⟨info, rfl, hid.symm⟩
    rw [heq, List.map_cons, List.mem_cons]
    exact or_iff_right hne
  · rw [heq]
  · exact absurd h.1 hnot

/-- A client whose reader runs does not dial. -/
theorem not_dialing (hwf : s.WF env) {k : XID} (hk : k ∈ s.clients.map ClientInfo.id) :
    ∀ c ∈ s.dialing, c.id ≠ k := by
  rintro c hc rfl
  have hdistinct := hwf.distinct
  rw [List.map_append, List.nodup_append] at hdistinct
  exact hdistinct.2.2 c.id (List.mem_map.mpr ⟨c, hc, rfl⟩) c.id hk rfl

/-- What every effect keeps holds in every reachable state. -/
theorem reachable_invariant {J : Rooms XID → Prop} (h : (machine env server).Reachable t)
    (hinit : J (newRooms server))
    (hstep : ∀ {s s' : Rooms XID} {c : ClientInfo XID} {e : Event XID},
      s.WF env → J s → Effect env c s e s' → J s') : J t.rooms :=
  h.invariant (I := fun t ↦ J t.rooms) hinit fun hreach hJ hst ↦
    hstep (reachable_wf hreach).rooms hJ (step_effect (reachable_wf hreach) hst)

end Screego
