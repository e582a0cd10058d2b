import Screego.Spec.Refinement

/-!
# The ledger of sessions

Everything that was ever announced about sessions is a list of opened sessions
with distinct ids, in the order of their announcements.  Open sessions are in
the list, with the ends and the mode they were opened with.
-/

namespace Screego

open Outgoing World Rooms

variable {XID : Type} [DecidableEq XID] {env : Env XID} {s s' : Rooms XID}

structure Ledger (env : Env XID) (s : Rooms XID) (os : List (OpenedSession XID)) : Prop where
  announced : only .session s.world.out = os.flatMap OpenedSession.messages
  nodup : (os.map OpenedSession.id).Nodup
  minted : ∀ o ∈ os, ∃ n < s.world.tick, o.id = env.xid.new n
  listed : ∀ {r mode id l}, Open s.rooms r mode id l → ∃ o ∈ os, o.id = id ∧ o.session = l
  names : s.world.turnServer.IsInternal → ∀ o ∈ os, ∃ mode, o.OwnNames env mode ∧
    ∀ r mode' l, Open s.rooms r mode' o.id l → mode' = mode

theorem ledger_newRooms (server : Turn.Server) : Ledger env (newRooms server : Rooms XID) [] where
  announced := rfl
  nodup := List.nodup_nil
  minted := by simp
  listed := by simp [newRooms, Open]
  names := by simp

theorem Rooms.WF.mode_unique (hwf : s.WF env) {r r' : String} {mode mode' : ConnectionMode}
    {id : XID} {l l' : RoomSession XID} (h : Open s.rooms r mode id l)
    (h' : Open s.rooms r' mode' id l') : mode = mode' := by
  obtain rfl := hwf.apart h h'
  obtain ⟨room, hroom, rfl, -⟩ := h
  obtain ⟨rfl, -⟩ := (open_of_lookup hroom).mp h'
  rfl

theorem Rooms.WF.session_unique (hwf : s.WF env) {r r' : String} {mode mode' : ConnectionMode}
    {id : XID} {l l' : RoomSession XID} (h : Open s.rooms r mode id l)
    (h' : Open s.rooms r' mode' id l') : l = l' := by
  obtain rfl := hwf.apart h h'
  obtain ⟨room, hroom, -, hl⟩ := h
  exact Option.some.inj (hl.symm.trans ((open_of_lookup hroom).mp h').2)

/-- The message gives one end of the session `id` the ICE servers. -/
def Outgoing.Message.HandsOut (id : XID) (iceServers : List ICEServer) (m : Message XID) : Prop :=
  ∃ peer, m = .hostSession id peer iceServers ∨ m = .clientSession id peer iceServers

omit [DecidableEq XID] in
theorem OpenedSession.id_of_mem {o : OpenedSession XID} {k id : XID} {m : Message XID}
    {iceServers : List ICEServer} (h : (k, m) ∈ o.messages) (hout : m.HandsOut id iceServers) :
    o.id = id := by
  obtain ⟨peer, hout⟩ := hout
  rcases OpenedSession.mem_messages.mp h with ⟨-, rfl⟩ | ⟨-, rfl⟩
  · rcases hout with heq | heq
    · exact (Message.hostSession.inj heq).1
    · cases heq
  · rcases hout with heq | heq
    · cases heq
    · exact (Message.clientSession.inj heq).1

omit [DecidableEq XID] in
/-- The servers that an announcement gives are those of one end of its session. -/
theorem OpenedSession.mem_iceServers {o : OpenedSession XID} {k id : XID} {m : Message XID}
    {iceServers : List ICEServer} (h : (k, m) ∈ o.messages) (hout : m.HandsOut id iceServers)
    {srv : ICEServer} (hsrv : srv ∈ iceServers) : srv ∈ o.iceHost ∨ srv ∈ o.iceClient := by
  obtain ⟨peer, hout⟩ := hout
  rcases OpenedSession.mem_messages.mp h with ⟨-, rfl⟩ | ⟨-, rfl⟩
  · rcases hout with heq | heq
    · exact Or.inl ((Message.hostSession.inj heq).2.2 ▸ hsrv)
    · cases heq
  · rcases hout with heq | heq
    · cases heq
    · exact Or.inr ((Message.clientSession.inj heq).2.2 ▸ hsrv)

theorem Turnover.out {r : String} {mode : ConnectionMode} {dead : Finset XID}
    {os : List (OpenedSession XID)} (h : Turnover env s s' r mode dead os) :
    s'.world.out = s.world.out ++ s.world.since s'.world := by
  obtain ⟨d, msgs, hchange⟩ := h.change
  rw [hchange.since, hchange.out]

theorem Ledger.append {r : String} {mode : ConnectionMode} {dead : Finset XID}
    {os new : List (OpenedSession XID)} (h : Ledger env s os) (hwf : s.WF env)
    (hturn : Turnover env s s' r mode dead new) : Ledger env s' (os ++ new) := by
  obtain ⟨d, msgs, hchange⟩ := hturn.change
  have hborn : ∀ o ∈ new, ∃ n, s.world.tick ≤ n ∧ n < s'.world.tick ∧ o.id = env.xid.new n :=
    fun o ho ↦ hchange.born_new o.id (List.mem_toFinset.mpr (List.mem_map.mpr ⟨o, ho, rfl⟩))
  -- an id of the list is older than the ids of the new sessions
  have hold : ∀ o ∈ os, ∀ o' ∈ new, o.id ≠ o'.id := by
    intro o ho o' ho' heq
    obtain ⟨m, hm, hid⟩ := h.minted o ho
    obtain ⟨n, hn, -, hid'⟩ := hborn o' ho'
    have := env.xid.new_injective (hid.symm.trans (heq.trans hid'))
    omega
  refine ⟨?_, ?_, ?_, ?_, ?_⟩
  · rw [hturn.out, only_append, h.announced, hturn.announced, List.flatMap_append]
  · rw [List.map_append, List.nodup_append]
    refine ⟨h.nodup, hturn.nodup_ids, ?_⟩
    intro id hid id' hid'
    obtain ⟨o, ho, rfl⟩ := List.mem_map.mp hid
    obtain ⟨o', ho', rfl⟩ := List.mem_map.mp hid'
    exact hold o ho o' ho'
  · intro o ho
    rcases List.mem_append.mp ho with ho | ho
    · obtain ⟨n, hn, hid⟩ := h.minted o ho
      exact ⟨n, hn.trans_le hchange.tick, hid⟩
    · obtain ⟨n, -, hn, hid⟩ := hborn o ho
      exact ⟨n, hn, hid⟩
  · intro r' mode' id l hopen
    rcases (hturn.open_iff r' mode' id l).mp hopen with ⟨hopen, -⟩ | ⟨-, -, o, ho, hid, hl⟩
    · obtain ⟨o, ho, hid, hl⟩ := h.listed hopen
      exact ⟨o, List.mem_append_left _ ho, hid, hl⟩
    · exact ⟨o, List.mem_append_right _ ho, hid, hl⟩
  · intro hint o ho
    have hint' := hchange.internal.mp hint
    rcases List.mem_append.mp ho with ho | ho
    · obtain ⟨m, hnames, hmode⟩ := h.names hint' o ho
      refine ⟨m, hnames, ?_⟩
      intro r' mode' l hopen
      rcases (hturn.open_iff r' mode' o.id l).mp hopen with ⟨hopen, -⟩ | ⟨-, -, o', ho', hid, -⟩
      · exact hmode r' mode' l hopen
      · exact absurd hid.symm (hold o ho o' ho')
    · refine ⟨mode, hturn.names hint' o ho, ?_⟩
      intro r' mode' l hopen
      rcases (hturn.open_iff r' mode' o.id l).mp hopen with ⟨hopen, -⟩ | ⟨-, hmode, -⟩
      · exact absurd hopen (hturn.born_unused hwf ho)
      · exact hmode

variable {server : Turn.Server} {t : System XID}

theorem reachable_ledger (h : (machine env server).Reachable t) :
    ∃ os, Ledger env t.rooms os := by
  refine reachable_invariant (J := fun s ↦ ∃ os, Ledger env s os) h
    ⟨[], ledger_newRooms server⟩ ?_
  intro s s' c e hwf ⟨os, hledger⟩ heffect
  obtain ⟨r, mode, dead, new, hturn⟩ := heffect.turnover hwf
  exact ⟨os ++ new, hledger.append hwf hturn⟩

/-! ## Reading the list -/

theorem Ledger.mem {os : List (OpenedSession XID)} (h : Ledger env s os) {k : XID}
    {m : Message XID} (hm : (k, m) ∈ s.world.out) (hsession : m.kind = .session) :
    ∃ o ∈ os, (k, m) ∈ o.messages := by
  have hmem : (k, m) ∈ only .session s.world.out := mem_only.mpr ⟨hm, hsession⟩
  rw [h.announced] at hmem
  exact List.mem_flatMap.mp hmem

/-- Both ends of an open session were told about it. -/
theorem Ledger.told {os : List (OpenedSession XID)} (h : Ledger env s os) {r : String}
    {mode : ConnectionMode} {id : XID} {l : RoomSession XID} (hopen : Open s.rooms r mode id l) :
    ∃ iceHost iceClient, (l.host, .hostSession id l.client iceHost) ∈ s.world.out ∧
      (l.client, .clientSession id l.host iceClient) ∈ s.world.out := by
  obtain ⟨o, ho, rfl, rfl⟩ := h.listed hopen
  have hout : ∀ k m, (k, m) ∈ o.messages → (k, m) ∈ s.world.out := by
    intro k m hm
    have hmem : (k, m) ∈ os.flatMap OpenedSession.messages := List.mem_flatMap.mpr ⟨o, ho, hm⟩
    rw [← h.announced] at hmem
    exact (mem_only.mp hmem).1
  exact ⟨_, _, hout _ _ (OpenedSession.mem_messages.mpr (Or.inl ⟨rfl, rfl⟩)),
    hout _ _ (OpenedSession.mem_messages.mpr (Or.inr ⟨rfl, rfl⟩))⟩

/-- A condition that only announcements of one session meet picks from the messages of that
session. -/
theorem Ledger.filter_eq {os : List (OpenedSession XID)} (h : Ledger env s os)
    {o : OpenedSession XID} (ho : o ∈ os) {p : XID × Message XID → Bool}
    (hp : ∀ k m, p (k, m) → ∃ iceServers, m.HandsOut o.id iceServers) :
    s.world.out.filter p = o.messages.filter p := by
  have hkind : ∀ q ∈ s.world.out, p q = (p q && decide (q.2.kind = .session)) := by
    intro q _
    cases hq : p q with
    | false => rfl
    | true =>
        obtain ⟨_, _, heq⟩ := hp q.1 q.2 hq
        rcases heq with heq | heq <;> rw [heq] <;> rfl
  have hother : ∀ os' : List (OpenedSession XID), o.id ∉ os'.map OpenedSession.id →
      (os'.flatMap OpenedSession.messages).filter p = [] := by
    intro os' hnot
    apply List.filter_eq_nil_iff.mpr
    intro q hq hpq
    obtain ⟨o', ho', hmem⟩ := List.mem_flatMap.mp hq
    obtain ⟨_, _, heq⟩ := hp q.1 q.2 hpq
    refine hnot (List.mem_map.mpr ⟨o', ho', ?_⟩)
    exact OpenedSession.id_of_mem hmem ⟨_, heq⟩
  have honly : s.world.out.filter p = (only .session s.world.out).filter p := by
    rw [only, List.filter_filter]
    exact List.filter_congr hkind
  obtain ⟨before, after, rfl⟩ := List.append_of_mem ho
  have hnodup := h.nodup
  rw [List.map_append, List.map_cons, List.nodup_append, List.nodup_cons] at hnodup
  obtain ⟨-, ⟨hafter, -⟩, hbefore⟩ := hnodup
  rw [honly, h.announced, List.flatMap_append, List.flatMap_cons, List.filter_append,
    List.filter_append, hother before fun hmem ↦ hbefore _ hmem _ List.mem_cons_self rfl,
    hother after hafter, List.nil_append, List.append_nil]

end Screego
