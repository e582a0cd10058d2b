import Screego.Spec.World

/-!
# Sessions: one call and whole loops

`newSession` and `closeSession` change the session map by one entry and the TURN
lookup by the two usernames of that entry.  The loops around them, whatever
order they run in, add a list of fresh sessions or drop exactly the sessions
that meet the condition in the loop body.
-/

namespace Screego

open Outgoing World

variable {XID : Type} {env : Env XID}

/-! ## Kinds of messages -/

inductive Kind where
  | view
  | session
  | relay
  | over
  | bye
  deriving DecidableEq

/-- What a message is about. -/
def Outgoing.Message.kind : Message XID → Kind
  | .room _ _ _ => .view
  | .hostSession _ _ _ => .session
  | .clientSession _ _ _ => .session
  | .hostICE _ => .relay
  | .clientICE _ => .relay
  | .clientAnswer _ => .relay
  | .hostOffer _ => .relay
  | .endShare _ => .over
  | .closeWriter _ _ => .bye

def OfKind (κ : Kind) (msgs : List (XID × Message XID)) : Prop := ∀ k m, (k, m) ∈ msgs → m.kind = κ

/-- The messages of one kind. -/
def only (κ : Kind) (msgs : List (XID × Message XID)) : List (XID × Message XID) :=
  msgs.filter fun p ↦ p.2.kind = κ

theorem mem_only {κ : Kind} {msgs : List (XID × Message XID)} {k : XID} {m : Message XID} :
    (k, m) ∈ only κ msgs ↔ (k, m) ∈ msgs ∧ m.kind = κ := by
  simp [only]

@[simp] theorem only_append (κ : Kind) (msgs msgs' : List (XID × Message XID)) :
    only κ (msgs ++ msgs') = only κ msgs ++ only κ msgs' :=
  List.filter_append msgs msgs'

theorem only_cons_of_ne {κ : Kind} {k : XID} {m : Message XID} (hne : m.kind ≠ κ)
    (msgs : List (XID × Message XID)) : only κ ((k, m) :: msgs) = only κ msgs :=
  List.filter_cons_of_neg (by simpa using hne)

theorem OfKind.only_self {κ : Kind} {msgs : List (XID × Message XID)} (h : OfKind κ msgs) :
    only κ msgs = msgs := by
  apply List.filter_eq_self.mpr
  intro p hp
  exact decide_eq_true (h p.1 p.2 hp)

theorem OfKind.only_ne {κ κ' : Kind} {msgs : List (XID × Message XID)} (h : OfKind κ msgs)
    (hne : κ ≠ κ') : only κ' msgs = [] := by
  apply List.filter_eq_nil_iff.mpr
  intro p hp
  rw [h p.1 p.2 hp]
  simpa using hne

/-! ## Opening -/

/-- A session together with the ICE servers announced to its two ends. -/
structure OpenedSession (XID : Type) where
  id : XID
  session : RoomSession XID
  iceHost : List ICEServer
  iceClient : List ICEServer

namespace OpenedSession

def entry (o : OpenedSession XID) : XID × RoomSession XID := (o.id, o.session)

def messages (o : OpenedSession XID) : List (XID × Message XID) :=
  [(o.session.host, .hostSession o.id o.session.client o.iceHost),
    (o.session.client, .clientSession o.id o.session.host o.iceClient)]

/-- The usernames in the announcement are those of the session, if there are any. -/
def OwnNames (env : Env XID) (mode : ConnectionMode) (o : OpenedSession XID) : Prop :=
  (∀ srv ∈ o.iceHost, srv.username = "" ∨
    (mode = connectionTURN ∧ srv.username = Room.hostName env o.id)) ∧
  ∀ srv ∈ o.iceClient, srv.username = "" ∨
    (mode = connectionTURN ∧ srv.username = Room.clientName env o.id)

/-- The ICE servers are those that `newSession` makes from the addresses. -/
def Made (env : Env XID) (mode : ConnectionMode) (v4 v6 : IP) (o : OpenedSession XID) : Prop :=
  ∃ host client w w',
    Room.iceServers env mode o.id host client v4 v6 w = (o.iceHost, o.iceClient, w')

theorem mem_messages {o : OpenedSession XID} {k : XID} {m : Message XID} :
    (k, m) ∈ o.messages ↔
      (k = o.session.host ∧ m = .hostSession o.id o.session.client o.iceHost) ∨
      (k = o.session.client ∧ m = .clientSession o.id o.session.host o.iceClient) := by
  simp [messages]

theorem ofKind_messages (os : List (OpenedSession XID)) :
    OfKind .session (os.flatMap messages) := by
  intro k m hm
  obtain ⟨o, -, hm⟩ := List.mem_flatMap.mp hm
  rcases mem_messages.mp hm with ⟨-, rfl⟩ | ⟨-, rfl⟩ <;> rfl

end OpenedSession

/-- What one call of `Credentials` does to the world. -/
structure Granted (name : String) (w : World XID) (r : String × String × World XID) : Prop where
  out : r.2.2.out = w.out
  metrics : r.2.2.metrics = w.metrics
  tick : w.tick ≤ r.2.2.tick
  internal : r.2.2.turnServer.IsInternal ↔ w.turnServer.IsInternal
  isSome : w.turnServer.IsInternal → (r.2.2.turnServer.entry name).isSome
  username : w.turnServer.IsInternal → r.1 = name
  kept : ∀ name', name' ≠ name → r.2.2.turnServer.entry name' = w.turnServer.entry name'

theorem granted_credentials (env : Env XID) (name : String) (addr : IP) (w : World XID) :
    Granted name w (w.credentials env name addr) where
  out := rfl
  metrics := rfl
  tick := (w.turnServer.lt_credentials_tick env w.tick name addr).le
  internal := w.turnServer.isInternal_credentials env w.tick name addr
  isSome := w.turnServer.entry_credentials_self env w.tick name addr
  username := w.turnServer.credentials_username env w.tick name addr
  kept := fun _ hne ↦ w.turnServer.entry_credentials_of_ne env w.tick name addr hne

/-- What the `switch` of `newSession` does to the world. -/
structure ICEGranted (env : Env XID) (mode : ConnectionMode) (id : XID) (w : World XID)
    (r : List ICEServer × List ICEServer × World XID) : Prop where
  out : r.2.2.out = w.out
  metrics : r.2.2.metrics = w.metrics
  tick : w.tick ≤ r.2.2.tick
  internal : r.2.2.turnServer.IsInternal ↔ w.turnServer.IsInternal
  granted : w.turnServer.IsInternal → mode = connectionTURN → ∀ name, IsNameOf env id name →
    (r.2.2.turnServer.entry name).isSome
  kept : ∀ name, (mode = connectionTURN → ¬ IsNameOf env id name) →
    r.2.2.turnServer.entry name = w.turnServer.entry name
  names : w.turnServer.IsInternal → ∀ s,
    OpenedSession.OwnNames env mode ⟨id, s, r.1, r.2.1⟩

theorem iceGranted_iceServers (env : Env XID) (mode : ConnectionMode) (id : XID)
    (host client : User XID) (v4 v6 : IP) (w : World XID) :
    ICEGranted env mode id w (Room.iceServers env mode id host client v4 v6 w) := by
  by_cases hlocal : mode = connectionLocal
  · subst hlocal
    exact ⟨rfl, rfl, le_rfl, Iff.rfl, fun _ h ↦ absurd h (by decide), fun _ _ ↦ rfl,
      fun _ _ ↦ ⟨by simp [Room.iceServers], by simp [Room.iceServers]⟩⟩
  by_cases hstun : mode = connectionSTUN
  · subst hstun
    exact ⟨rfl, rfl, le_rfl, Iff.rfl, fun _ h ↦ absurd h (by decide), fun _ _ ↦ rfl,
      fun _ _ ↦ ⟨by simp [Room.iceServers, connectionSTUN, connectionLocal],
        by simp [Room.iceServers, connectionSTUN, connectionLocal]⟩⟩
  by_cases hturn : mode = connectionTURN
  · have h₁ := granted_credentials env (Room.hostName env id) host.addr w
    have h₂ := granted_credentials env (Room.clientName env id) client.addr
      (w.credentials env (Room.hostName env id) host.addr).2.2
    have hne := hostName_ne_clientName env id id
    simp only [Room.iceServers, if_neg hlocal, if_neg hstun, if_pos hturn]
    refine ⟨h₂.out.trans h₁.out, h₂.metrics.trans h₁.metrics, h₁.tick.trans h₂.tick,
      h₂.internal.trans h₁.internal, ?_, ?_, ?_⟩
    · rintro hint - name (rfl | rfl)
      · rw [h₂.kept _ hne]
        exact h₁.isSome hint
      · exact h₂.isSome (h₁.internal.mpr hint)
    · intro name hname
      have hnot := hname hturn
      rw [IsNameOf, not_or] at hnot
      rw [h₂.kept _ hnot.2, h₁.kept _ hnot.1]
    · intro hint s
      refine ⟨?_, ?_⟩
      · intro srv hsrv
        rw [List.mem_singleton.mp hsrv]
        exact Or.inr ⟨hturn, h₁.username hint⟩
      · intro srv hsrv
        rw [List.mem_singleton.mp hsrv]
        exact Or.inr ⟨hturn, h₂.username (h₁.internal.mpr hint)⟩
  · simp only [Room.iceServers, if_neg hlocal, if_neg hstun, if_neg hturn]
    exact ⟨rfl, rfl, le_rfl, Iff.rfl, fun _ h ↦ absurd h hturn, fun _ _ ↦ rfl,
      fun _ _ ↦ ⟨by simp, by simp⟩⟩

variable [DecidableEq XID]

theorem newSession_spec {room : Room XID} {host client : XID} {hostUser clientUser : User XID}
    (hhost : room.users.lookup host = some hostUser)
    (hclient : room.users.lookup client = some clientUser)
    (hhostWrite : hostUser.write = host) (hclientWrite : clientUser.write = client)
    (env : Env XID) (v4 v6 : IP) (w : World XID) :
    ∃ (o : OpenedSession XID) (w' : World XID),
      o.id = env.xid.new w.tick ∧ o.session = ⟨host, client⟩ ∧
      room.newSession env host client v4 v6 w =
        some ({ room with sessions := room.sessions.insert o.id o.session }, w') ∧
      (w.turnServer.IsInternal → o.OwnNames env room.mode) ∧ o.Made env room.mode v4 v6 ∧
      w.tick < w'.tick ∧ Change env room.mode ∅ {o.id} { sessionCreated := 1 } o.messages w w' := by
  have h := iceGranted_iceServers env room.mode (env.xid.new w.tick) hostUser
    clientUser v4 v6 ((w.draw 1).count { sessionCreated := 1 })
  set r := Room.iceServers env room.mode (env.xid.new w.tick) hostUser clientUser v4 v6
    ((w.draw 1).count { sessionCreated := 1 }) with hr
  have htick : w.tick < r.2.2.tick := Nat.lt_of_lt_of_le (Nat.lt_succ_self _) h.tick
  let o : OpenedSession XID := ⟨env.xid.new w.tick, ⟨host, client⟩, r.1, r.2.1⟩
  let w' := clientUser.writeTimeout (.clientSession o.id host r.2.1)
    (hostUser.writeTimeout (.hostSession o.id client r.1) r.2.2)
  refine ⟨o, w', rfl, rfl, ?_, fun hint ↦ h.names hint _, ⟨_, _, _, _, rfl⟩, htick, ?_⟩
  · simp only [Room.newSession, hhost, hclient, Option.bind_eq_bind, Option.bind_some]
    rfl
  · refine ⟨?_, ?_, htick.le, ?_, h.internal, ?_, by simp, ?_⟩
    · simp [w', User.writeTimeout, World.writeTimeout, h.out, OpenedSession.messages, o,
        hhostWrite, hclientWrite, World.count, World.draw]
    · exact h.metrics
    · intro id hid
      exact ⟨w.tick, le_rfl, htick, Finset.mem_singleton.mp hid⟩
    · intro hint hmode id hid name hname
      rw [Finset.mem_singleton.mp hid] at hname
      exact h.granted hint hmode name hname
    · intro name hname
      exact h.kept name fun hmode ↦ hname hmode _ (by simp [o])

/-- A loop that opens a session for each key `k` with `link k`. -/
theorem foldlM_newSession (env : Env XID) (room : Room XID) (v4 v6 : IP)
    (link : XID → Option (RoomSession XID))
    (step : Room XID × World XID → XID → Option (Room XID × World XID))
    (hstep : ∀ r w k, r.users = room.users → r.mode = room.mode → step (r, w) k =
      match link k with
      | none => some (r, w)
      | some session => r.newSession env session.host session.client v4 v6 w)
    (hlink : ∀ k session, link k = some session →
      (∃ u, room.users.lookup session.host = some u ∧ u.write = session.host) ∧
      ∃ u, room.users.lookup session.client = some u ∧ u.write = session.client)
    (ks : List XID) (r : Room XID) (husers : r.users = room.users) (hmode : r.mode = room.mode)
    (w : World XID) :
    ∃ (os : List (OpenedSession XID)) (w' : World XID),
      ks.foldlM step (r, w) =
        some ({ r with sessions := r.sessions.insertAll (os.map OpenedSession.entry) }, w') ∧
      os.map OpenedSession.session = ks.filterMap link ∧
      (os.map OpenedSession.id).Nodup ∧
      (w.turnServer.IsInternal → ∀ o ∈ os, o.OwnNames env room.mode) ∧
      (∀ o ∈ os, o.Made env room.mode v4 v6) ∧
      Change env room.mode ∅ (os.map OpenedSession.id).toFinset
        { sessionCreated := os.length } (os.flatMap OpenedSession.messages) w w' := by
  induction ks generalizing r w with
  | nil => exact ⟨[], w, rfl, rfl, List.nodup_nil, by simp, by simp, Change.refl env room.mode w⟩
  | cons k ks ih =>
      rw [List.foldlM_cons, hstep r w k husers hmode]
      cases hk : link k with
      | none =>
          obtain ⟨os, w', hfold, hsessions, hrest⟩ := ih r husers hmode w
          exact ⟨os, w', hfold, by rw [hsessions, List.filterMap_cons_none hk], hrest⟩
      | some session =>
          obtain ⟨⟨hu, hhost, hhostWrite⟩, ⟨cu, hclient, hclientWrite⟩⟩ := hlink k session hk
          rw [← husers] at hhost hclient
          obtain ⟨o, w₁, hid, hsession, hnew, hnames, hmade, htick, hchange⟩ :=
            newSession_spec hhost hclient hhostWrite hclientWrite env v4 v6 w
          obtain ⟨os, w', hfold, hsessions, hnodup, hos, hmade', hchange'⟩ :=
            ih { r with sessions := r.sessions.insert o.id o.session } husers hmode w₁
          rw [hmode] at hchange hnames hmade
          refine ⟨o :: os, w', ?_, ?_, ?_, ?_, List.forall_mem_cons.mpr ⟨hmade, hmade'⟩, ?_⟩
          · simp only [hnew, Option.bind_eq_bind, Option.bind_some]
            exact hfold
          · rw [List.map_cons, hsession, hsessions, List.filterMap_cons_some hk]
          · rw [List.map_cons, List.nodup_cons]
            refine ⟨?_, hnodup⟩
            -- the later ids come from later draws
            intro hmem
            obtain ⟨n, hn, -, hon⟩ := hchange'.born_new o.id (List.mem_toFinset.mpr hmem)
            have heq := env.xid.new_injective (hid.symm.trans hon)
            omega
          · intro hint o' ho'
            rcases List.mem_cons.mp ho' with rfl | ho'
            · exact hnames hint
            · exact hos (hchange.internal.mpr hint) o' ho'
          · have hall := hchange.trans hchange' (Finset.disjoint_empty_right _)
            have hcount : ({ sessionCreated := 1 } : Metrics) + { sessionCreated := os.length } =
                { sessionCreated := (o :: os).length } := by
              simp [Metrics.add_def, Nat.add_comm]
            rw [hcount] at hall
            simpa [Finset.singleton_union] using hall

/-! ## Closing -/

theorem closeSession_change (env : Env XID) (room : Room XID) (id : XID) (w : World XID) :
    ∃ w', Room.closeSession env id (room, w) =
        ({ room with sessions := room.sessions.erase id }, w') ∧
      Change env room.mode {id} ∅ { sessionClosed := 1 } [] w w' := by
  by_cases hmode : room.mode = connectionTURN
  · refine ⟨_, rfl, ?_⟩
    simp only [if_pos hmode]
    refine ⟨by simp [World.disallow, World.count], rfl, le_rfl, by simp, ?_, by simp, ?_, ?_⟩
    · simp [World.disallow, World.count]
    · rintro - id' hid' - name (rfl | rfl)
      · rw [Finset.mem_singleton.mp hid']
        simp [World.disallow, World.count, Turn.Server.entry_disallow]
      · rw [Finset.mem_singleton.mp hid']
        simp [World.disallow, World.count, Turn.Server.entry_disallow]
    · intro name hname
      have hnot := hname hmode id (by simp)
      rw [IsNameOf, not_or] at hnot
      simp [World.disallow, World.count, Turn.Server.entry_disallow, hnot.1, hnot.2]
  · refine ⟨_, rfl, ?_⟩
    simp only [if_neg hmode]
    refine ⟨by simp [World.count], rfl, le_rfl, by simp, Iff.rfl, by simp, ?_, fun _ _ ↦ rfl⟩
    exact fun h ↦ absurd h hmode

section Closing

variable (p : RoomSession XID → Prop) [DecidablePred p]

/-- The sessions of `ids` that meet `p`. -/
def ending (sessions : GoMap XID (RoomSession XID)) (ids : List XID) : Finset XID :=
  (sessions.filter fun id s ↦ id ∈ ids ∧ p s).keys

/-- What is left of the sessions when those are closed. -/
def remaining (sessions : GoMap XID (RoomSession XID)) (ids : List XID) :
    GoMap XID (RoomSession XID) :=
  sessions.filter fun id s ↦ ¬ (id ∈ ids ∧ p s)

/-- What a loop says of each session it closes. -/
abbrev Notices (XID : Type) := XID → RoomSession XID → List (XID × Message XID)

/-- What is said about one id by a loop that tells `notices` of each session it closes. -/
def endNotice (notices : Notices XID)
    (sessions : GoMap XID (RoomSession XID)) (id : XID) : List (XID × Message XID) :=
  match sessions.lookup id with
  | some s => if p s then notices id s else []
  | none => []

variable {p}

@[simp] theorem mem_ending {sessions : GoMap XID (RoomSession XID)} {ids : List XID} {id : XID} :
    id ∈ ending p sessions ids ↔ ∃ s, sessions.lookup id = some s ∧ id ∈ ids ∧ p s := by
  simp [ending]

theorem remaining_cons_skip {sessions : GoMap XID (RoomSession XID)} {id : XID} {ids : List XID}
    (h : ∀ s, sessions.lookup id = some s → ¬ p s) :
    remaining p sessions (id :: ids) = remaining p sessions ids := by
  apply GoMap.ext
  intro k
  cases hk : sessions.lookup k with
  | none => simp [remaining, GoMap.lookup_filter, hk]
  | some s =>
      by_cases hid : k = id
      · subst hid
        simp [remaining, GoMap.lookup_filter, hk, h s hk]
      · simp [remaining, GoMap.lookup_filter, hk, hid]

theorem remaining_cons_close {sessions : GoMap XID (RoomSession XID)} {id : XID} {ids : List XID}
    {s : RoomSession XID} (hs : sessions.lookup id = some s) (hp : p s) :
    remaining p sessions (id :: ids) = remaining p (sessions.erase id) ids := by
  apply GoMap.ext
  intro k
  by_cases hid : k = id
  · subst hid
    simp [remaining, GoMap.lookup_filter, hs, hp]
  · simp [remaining, GoMap.lookup_filter, GoMap.lookup_erase_of_ne hid, hid]

theorem ending_cons_skip {sessions : GoMap XID (RoomSession XID)} {id : XID} {ids : List XID}
    (h : ∀ s, sessions.lookup id = some s → ¬ p s) :
    ending p sessions (id :: ids) = ending p sessions ids := by
  ext k
  rw [mem_ending, mem_ending]
  constructor
  · rintro ⟨s, hs, hmem, hp⟩
    refine ⟨s, hs, (List.mem_cons.mp hmem).resolve_left ?_, hp⟩
    rintro rfl
    exact h s hs hp
  · rintro ⟨s, hs, hmem, hp⟩
    exact ⟨s, hs, List.mem_cons_of_mem _ hmem, hp⟩

theorem ending_cons_close {sessions : GoMap XID (RoomSession XID)} {id : XID} {ids : List XID}
    {s : RoomSession XID} (hs : sessions.lookup id = some s) (hp : p s) :
    ending p sessions (id :: ids) = insert id (ending p (sessions.erase id) ids) := by
  ext k
  by_cases hid : k = id
  · subst hid
    simp [hs, hp]
  · simp [GoMap.lookup_erase_of_ne hid, hid]

theorem notMem_ending_erase {sessions : GoMap XID (RoomSession XID)} {id : XID} {ids : List XID} :
    id ∉ ending p (sessions.erase id) ids := by
  simp

theorem flatMap_endNotice_erase {notices : Notices XID}
    {sessions : GoMap XID (RoomSession XID)} {id : XID} {ids : List XID} (h : id ∉ ids) :
    ids.flatMap (endNotice p notices (sessions.erase id)) =
      ids.flatMap (endNotice p notices sessions) := by
  apply List.flatMap_congr
  intro k hk
  have hne : k ≠ id := fun heq ↦ h (heq ▸ hk)
  simp only [endNotice, GoMap.lookup_erase_of_ne hne]

/-- A loop that closes the sessions meeting `p`, each after telling `notices` of it. -/
theorem foldl_closeSession (env : Env XID) {room : Room XID}
    (notices : Notices XID)
    (step : Room XID × World XID → XID → Room XID × World XID)
    (hnone : ∀ r w id, r.sessions.lookup id = none → step (r, w) id = (r, w))
    (hsome : ∀ r w id s, r.users = room.users → r.mode = room.mode →
      r.sessions.lookup id = some s → room.sessions.lookup id = some s → step (r, w) id =
        if p s then Room.closeSession env id (r, w.send (notices id s)) else (r, w))
    (ids : List XID) (hids : ids.Nodup) (r : Room XID) (husers : r.users = room.users)
    (hmode : r.mode = room.mode)
    (hsub : ∀ id s, r.sessions.lookup id = some s → room.sessions.lookup id = some s)
    (w : World XID) :
    ∃ w', ids.foldl step (r, w) = ({ r with sessions := remaining p r.sessions ids }, w') ∧
      Change env room.mode (ending p r.sessions ids) ∅
        { sessionClosed := (ending p r.sessions ids).card }
        (ids.flatMap (endNotice p notices r.sessions)) w w' := by
  induction ids generalizing r w with
  | nil =>
      have hremaining : remaining p r.sessions [] = r.sessions := by
        apply GoMap.ext
        intro k
        cases hk : r.sessions.lookup k <;> simp [remaining, GoMap.lookup_filter, hk]
      have hending : ending p r.sessions [] = ∅ := by
        ext k
        simp
      rw [hremaining, hending]
      exact ⟨w, rfl, Change.refl env room.mode w⟩
  | cons id ids ih =>
      rw [List.nodup_cons] at hids
      rw [List.foldl_cons, List.flatMap_cons]
      -- an id that is not closed is passed over
      have hskip (hpass : step (r, w) id = (r, w))
          (hnot : ∀ s, r.sessions.lookup id = some s → ¬ p s)
          (hquiet : endNotice p notices r.sessions id = []) :
          ∃ w', ids.foldl step (step (r, w) id) =
              ({ r with sessions := remaining p r.sessions (id :: ids) }, w') ∧
            Change env room.mode (ending p r.sessions (id :: ids)) ∅
              { sessionClosed := (ending p r.sessions (id :: ids)).card }
              (endNotice p notices r.sessions id ++
                ids.flatMap (endNotice p notices r.sessions)) w w' := by
        rw [hpass, remaining_cons_skip hnot, ending_cons_skip hnot, hquiet, List.nil_append]
        exact ih hids.2 r husers hmode hsub w
      cases hs : r.sessions.lookup id with
      | none =>
          exact hskip (hnone r w id hs) (by simp [hs]) (by simp [endNotice, hs])
      | some s =>
          have hbody := hsome r w id s husers hmode hs (hsub id s hs)
          by_cases hp : p s
          · rw [if_pos hp] at hbody
            obtain ⟨w₁, hclose, hchange⟩ :=
              closeSession_change env r id (w.send (notices id s))
            obtain ⟨w', hfold, hchange'⟩ :=
              ih hids.2 { r with sessions := r.sessions.erase id } husers hmode
                (fun k s' h ↦ hsub k s' (GoMap.lookup_of_erase h)) w₁
            rw [hmode] at hchange
            have hall := ((change_send env room.mode (notices id s) w).before
              hchange).trans hchange' (Finset.disjoint_empty_left _)
            refine ⟨w', ?_, ?_⟩
            · rw [hbody, hclose, hfold, remaining_cons_close hs hp]
            · rw [ending_cons_close hs hp, Finset.card_insert_of_notMem notMem_ending_erase,
                Finset.insert_eq]
              have hnotice : endNotice p notices r.sessions id = notices id s := by
                simp [endNotice, hs, hp]
              rw [hnotice]
              simpa [flatMap_endNotice_erase hids.1, Metrics.add_def, Nat.add_comm] using hall
          · rw [if_neg hp] at hbody
            refine hskip hbody ?_ ?_
            · intro s' hs'
              rw [hs] at hs'
              exact Option.some.inj hs' ▸ hp
            · simp [endNotice, hs, hp]

end Closing

end Screego
