import Screego.Properties.Credentials
import Screego.Spec.Uses

/-!
# TURN passwords

What is handed out with a session opens the TURN server.  The internal server
has the key that belongs to the announced password, for as long as the session
is open, and no two passwords share a draw.  The external one is given nothing,
and can check the signature and the day after which it expires.
-/

namespace Screego

open Outgoing World Rooms

variable {XID : Type} [DecidableEq XID] {env : Env XID}

/-! ## What is handed out -/

/-- The credentials in a message, with the session that they are for. -/
def Outgoing.Message.offers : Message XID → List (XID × ICEServer)
  | .hostSession id _ iceServers => (iceServers.filter (·.username ≠ "")).map (id, ·)
  | .clientSession id _ iceServers => (iceServers.filter (·.username ≠ "")).map (id, ·)
  | _ => []

def World.offered (w : World XID) : List (XID × ICEServer) := w.out.flatMap (·.2.offers)

omit [DecidableEq XID] in
theorem offers_eq_nil {m : Message XID} (hm : m.kind ≠ .session) : m.offers = [] := by
  cases m with
  | hostSession _ _ _ => exact absurd rfl hm
  | clientSession _ _ _ => exact absurd rfl hm
  | _ => rfl

omit [DecidableEq XID] in
theorem offered_writeTimeout (w : World XID) (ch : XID) (m : Message XID) :
    (w.writeTimeout ch m).offered = w.offered ++ m.offers := by
  simp [World.offered, World.writeTimeout]

omit [DecidableEq XID] in
theorem username_ne {w : World XID} {p : XID × ICEServer} (hp : p ∈ w.offered) :
    p.2.username ≠ "" := by
  obtain ⟨⟨k, m⟩, -, hm⟩ := List.mem_flatMap.mp hp
  cases m with
  | hostSession id _ iceServers =>
      obtain ⟨srv, hsrv, rfl⟩ := List.mem_map.mp hm
      exact of_decide_eq_true (List.mem_filter.mp hsrv).2
  | clientSession id _ iceServers =>
      obtain ⟨srv, hsrv, rfl⟩ := List.mem_map.mp hm
      exact of_decide_eq_true (List.mem_filter.mp hsrv).2
  | _ => cases hm

variable {offers offers' : List (XID × ICEServer)} {server server' : Turn.Server} {tick tick' : ℕ}

/-! ## What every call of `Credentials` keeps -/

/-- A relation of what was handed out to the TURN server, which `Credentials` keeps as long as no
username comes back. -/
structure Issuing (env : Env XID) (P : List (XID × ICEServer) → Turn.Server → ℕ → Prop) :
    Prop where
  named : ∀ {offers server tick}, P offers server tick → ∀ p ∈ offers,
    (∃ n < tick, p.1 = env.xid.new n) ∧ (server.IsInternal → IsNameOf env p.1 p.2.username)
  mono : ∀ {offers offers' server tick tick'}, P offers server tick → offers' ⊆ offers →
    tick ≤ tick' → P offers' server tick'
  disallow : ∀ {offers server tick} (username), P offers server tick →
    P offers (server.disallow username) tick
  credentials : ∀ {offers server tick id name}, P offers server tick → IsNameOf env id name →
    (∃ n < tick, id = env.xid.new n) →
    (server.IsInternal → ∀ p ∈ offers, p.2.username ≠ name) → ∀ addr urls,
    P ((id, ⟨urls, (server.credentials env tick name addr).2.1,
        (server.credentials env tick name addr).1⟩) :: offers)
      (server.credentials env tick name addr).2.2.1
      (server.credentials env tick name addr).2.2.2

section Issuing

variable {P : List (XID × ICEServer) → Turn.Server → ℕ → Prop}

omit [DecidableEq XID] in
theorem Issuing.username_ne (hP : Issuing env P) (h : P offers server tick) {id : XID}
    {name : String} (hname : IsNameOf env id name) (hid : ∀ p ∈ offers, p.1 ≠ id) :
    server.IsInternal → ∀ p ∈ offers, p.2.username ≠ name := by
  intro hint p hp heq
  have hown := (hP.named h p hp).2 hint
  rw [heq] at hown
  exact hid p hp (hown.unique hname)

omit [DecidableEq XID] in
/-- The `switch` of `newSession`, for an id that no one has credentials of. -/
theorem Issuing.iceServers (hP : Issuing env P) {w : World XID} (h : P offers w.turnServer w.tick)
    {id : XID} (hid : ∃ n < w.tick, id = env.xid.new n) (hnew : ∀ p ∈ offers, p.1 ≠ id)
    (mode : ConnectionMode) (host client : User XID) (v4 v6 : IP) {k l : XID}
    {r : List ICEServer × List ICEServer × World XID}
    (hr : Room.iceServers env mode id host client v4 v6 w = r) :
    P (offers ++ (Message.hostSession id k r.1).offers ++
      (Message.clientSession id l r.2.1).offers) r.2.2.turnServer r.2.2.tick := by
  unfold Room.iceServers at hr
  split at hr
  · obtain rfl := hr
    exact hP.mono h (by simp [Message.offers]) le_rfl
  split at hr
  · obtain rfl := hr
    exact hP.mono h (by simp [Message.offers]) le_rfl
  split at hr
  · obtain rfl := hr
    have hhost : IsNameOf env id (Room.hostName env id) := Or.inl rfl
    have hclient : IsNameOf env id (Room.clientName env id) := Or.inr rfl
    have hfirst := hP.credentials h hhost hid (hP.username_ne h hhost hnew) host.addr
      (addresses env.config "turn" v4 v6 true)
    obtain ⟨n, hn, hid⟩ := hid
    have hsecond := hP.credentials hfirst hclient
      ⟨n, hn.trans (w.turnServer.lt_credentials_tick env w.tick _ host.addr), hid⟩
      (fun hint ↦ List.forall_mem_cons.mpr ⟨?_, hP.username_ne h hclient hnew
        ((w.turnServer.isInternal_credentials env w.tick _ host.addr).mp hint)⟩) client.addr
      (addresses env.config "turn" v4 v6 true)
    · refine hP.mono hsecond ?_ le_rfl
      have hsub (srv : ICEServer) : ([srv].filter (·.username ≠ "")).map (id, ·) ⊆ [(id, srv)] :=
        List.map_subset _ (List.filter_subset_self _)
      intro p hp
      rcases List.mem_append.mp hp with hp | hp
      · rcases List.mem_append.mp hp with hp | hp
        · exact List.mem_cons_of_mem _ (List.mem_cons_of_mem _ hp)
        · exact List.mem_cons_of_mem _
            (List.mem_cons.mpr (Or.inl (List.mem_singleton.mp (hsub _ hp))))
      · exact List.mem_cons.mpr (Or.inl (List.mem_singleton.mp (hsub _ hp)))
    · rw [w.turnServer.credentials_username env w.tick _ host.addr
        ((w.turnServer.isInternal_credentials env w.tick _ host.addr).mp hint)]
      exact hostName_ne_clientName env id id
  · obtain rfl := hr
    exact hP.mono h (by simp [Message.offers]) le_rfl

theorem Issuing.newSession (hP : Issuing env P) {room room' : Room XID} {host client : XID}
    {v4 v6 : IP} {w w' : World XID} (h : P w.offered w.turnServer w.tick)
    (hnew : room.newSession env host client v4 v6 w = some (room', w')) :
    P w'.offered w'.turnServer w'.tick := by
  simp only [Room.newSession, Option.bind_eq_bind, Option.bind_eq_some_iff, Option.pure_def,
    Option.some.injEq, Prod.mk.injEq] at hnew
  obtain ⟨hostUser, -, clientUser, -, -, rfl⟩ := hnew
  have hfresh : ∀ p ∈ w.offered, p.1 ≠ env.xid.new w.tick := by
    intro p hp heq
    obtain ⟨n, hn, hid⟩ := (hP.named h p hp).1
    exact hn.ne (env.xid.new_injective (hid.symm.trans heq))
  have hdraw : P w.offered w.turnServer (w.tick + 1) :=
    hP.mono h (List.Subset.refl _) (Nat.le_succ _)
  have hice := hP.iceServers (w := (w.draw 1).count { sessionCreated := 1 }) hdraw
    ⟨w.tick, Nat.lt_succ_self _, rfl⟩ hfresh room.mode hostUser clientUser v4 v6
    (k := client) (l := host) rfl
  have hout := (iceGranted_iceServers env room.mode (env.xid.new w.tick) hostUser clientUser v4 v6
    ((w.draw 1).count { sessionCreated := 1 })).out
  refine hP.mono hice ?_ le_rfl
  rw [User.writeTimeout, User.writeTimeout, offered_writeTimeout, offered_writeTimeout]
  rw [World.offered, hout]
  exact List.Subset.refl _

/-- What `Credentials` keeps holds in every reachable state. -/
theorem Issuing.reachable (hP : Issuing env P) (hinit : P [] server 0) {t : System XID}
    (h : (machine env server).Reachable t) :
    P t.rooms.world.offered t.rooms.world.turnServer t.rooms.world.tick := by
  refine reachable_world (P := fun w ↦ P w.offered w.turnServer w.tick) h hinit ?_
  intro w w' h huse
  cases huse with
  | write _ ch hmsg =>
      rw [offered_writeTimeout, offers_eq_nil hmsg, List.append_nil]
      exact h
  | draw _ n => exact hP.mono h (List.Subset.refl _) (Nat.le_add_right _ _)
  | count _ d => exact h
  | answer _ n => exact h
  | disallow _ username => exact hP.disallow username h
  | newSession hnew => exact hP.newSession h hnew

end Issuing

/-! ## The internal server -/

/-- Passwords that are made from twenty draws each, and from no draw together. -/
def Apart (env : Env XID) (offers : List (XID × ICEServer)) (tick : ℕ) : Prop :=
  ∃ first : String → ℕ,
    (∀ p ∈ offers, p.2.credential = Util.randString env (first p.2.username) 20 ∧
      first p.2.username + 20 ≤ tick) ∧
    ∀ p ∈ offers, ∀ q ∈ offers, p.2.username ≠ q.2.username →
      first p.2.username + 20 ≤ first q.2.username ∨ first q.2.username + 20 ≤ first p.2.username

/-- The server knows at most the keys that belong to what was handed out. -/
structure Keyed (env : Env XID) (offers : List (XID × ICEServer)) (server : Turn.Server)
    (tick : ℕ) : Prop where
  internal : server.IsInternal
  named : ∀ p ∈ offers, IsNameOf env p.1 p.2.username ∧ ∃ n < tick, p.1 = env.xid.new n
  key : ∀ p ∈ offers, ∀ e, server.entry p.2.username = some e →
    e.password = env.generateAuthKey p.2.username Turn.realm p.2.credential
  apart : Apart env offers tick

omit [DecidableEq XID] in
theorem Apart.mono (h : Apart env offers tick) (hsub : offers' ⊆ offers) (htick : tick ≤ tick') :
    Apart env offers' tick' := by
  obtain ⟨first, hfirst, hdisjoint⟩ := h
  refine ⟨first, fun p hp ↦ ?_, fun p hp q hq ↦ hdisjoint p (hsub hp) q (hsub hq)⟩
  exact ⟨(hfirst p (hsub hp)).1, (hfirst p (hsub hp)).2.trans htick⟩

omit [DecidableEq XID] in
/-- Entries that go, and draws that are made, do no harm. -/
theorem Keyed.mono (h : Keyed env offers server tick) (hsub : offers' ⊆ offers)
    (hinternal : server'.IsInternal ↔ server.IsInternal)
    (hentry : ∀ name e, server'.entry name = some e → server.entry name = some e)
    (htick : tick ≤ tick') : Keyed env offers' server' tick' where
  internal := hinternal.mpr h.internal
  named p hp := by
    obtain ⟨hname, n, hn, hid⟩ := h.named p (hsub hp)
    exact ⟨hname, n, hn.trans_le htick, hid⟩
  key p hp e he := h.key p (hsub hp) e (hentry _ e he)
  apart := h.apart.mono hsub htick

omit [DecidableEq XID] in
theorem Apart.cons (h : Apart env offers tick) {id : XID} {srv : ICEServer}
    (hnew : ∀ p ∈ offers, p.2.username ≠ srv.username)
    (hcredential : srv.credential = Util.randString env tick 20) :
    Apart env ((id, srv) :: offers) (tick + 20) := by
  obtain ⟨first, hfirst, hdisjoint⟩ := h
  have hself : Function.update first srv.username tick srv.username = tick :=
    Function.update_self _ _ _
  have hother : ∀ p ∈ offers,
      Function.update first srv.username tick p.2.username = first p.2.username :=
    fun p hp ↦ Function.update_of_ne (hnew p hp) _ _
  refine ⟨Function.update first srv.username tick, ?_, ?_⟩
  · rw [List.forall_mem_cons]
    refine ⟨⟨by rw [hself, hcredential], by rw [hself]⟩, fun p hp ↦ ?_⟩
    rw [hother p hp]
    exact ⟨(hfirst p hp).1, Nat.le_add_right_of_le (hfirst p hp).2⟩
  · intro p hp q hq hne
    rcases List.mem_cons.mp hp with rfl | hp <;> rcases List.mem_cons.mp hq with rfl | hq
    · exact absurd rfl hne
    · rw [hself, hother q hq]
      exact Or.inr (hfirst q hq).2
    · rw [hself, hother p hp]
      exact Or.inl (hfirst p hp).2
    · rw [hother p hp, hother q hq]
      exact hdisjoint p hp q hq hne

omit [DecidableEq XID] in
/-- One call of `Credentials` for a username that was not handed out before. -/
theorem Keyed.credentials (h : Keyed env offers server tick) {id : XID} {name : String}
    (hname : IsNameOf env id name) (hid : ∃ n < tick, id = env.xid.new n)
    (hnew : server.IsInternal → ∀ p ∈ offers, p.2.username ≠ name) (addr : IP)
    (urls : List String) :
    Keyed env ((id, ⟨urls, (server.credentials env tick name addr).2.1,
        (server.credentials env tick name addr).1⟩) :: offers)
      (server.credentials env tick name addr).2.2.1
      (server.credentials env tick name addr).2.2.2 := by
  cases server with
  | external a => exact h.internal.elim
  | internal a =>
      replace hnew := hnew trivial
      refine ⟨trivial, ?_, ?_, h.apart.cons hnew rfl⟩
      · rw [List.forall_mem_cons]
        obtain ⟨n, hn, hid⟩ := hid
        refine ⟨⟨hname, n, Nat.lt_add_right 20 hn, hid⟩, fun p hp ↦ ?_⟩
        obtain ⟨hname', n', hn', hid'⟩ := h.named p hp
        exact ⟨hname', n', Nat.lt_add_right 20 hn', hid'⟩
      · rw [List.forall_mem_cons]
        constructor
        · intro e he
          rw [← Option.some.inj ((GoMap.lookup_insert_self _ _ _).symm.trans he)]
          rfl
        · intro p hp e he
          exact h.key p hp e ((GoMap.lookup_insert_of_ne (hnew p hp)).symm.trans he)

omit [DecidableEq XID] in
theorem issuing_keyed (env : Env XID) : Issuing env (Keyed env) where
  named h p hp := ⟨(h.named p hp).2, fun _ ↦ (h.named p hp).1⟩
  mono h hsub htick := h.mono hsub Iff.rfl (fun _ _ he ↦ he) htick
  disallow {_ server _} username h := by
    refine h.mono (List.Subset.refl _) (server.isInternal_disallow username) ?_ le_rfl
    intro name e he
    rw [Turn.Server.entry_disallow] at he
    split at he
    · cases he
    · exact he
  credentials h hname hid hnew addr urls := h.credentials hname hid hnew addr urls

omit [DecidableEq XID] in
theorem keyed_nil (env : Env XID) : Keyed env [] (.internal ⟨∅⟩) 0 :=
  ⟨trivial, by simp, by simp, fun _ ↦ 0, by simp, by simp⟩

omit [DecidableEq XID] in
/-- Credentials that were offered were handed out with a session. -/
theorem handsOut_of_offered {w : World XID} {p : XID × ICEServer} (hp : p ∈ w.offered) :
    ∃ k m iceServers, (k, m) ∈ w.out ∧ m.HandsOut p.1 iceServers ∧ p.2 ∈ iceServers := by
  obtain ⟨⟨k, m⟩, hm, hp⟩ := List.mem_flatMap.mp hp
  cases m with
  | hostSession id peer iceServers =>
      obtain ⟨srv, hsrv, rfl⟩ := List.mem_map.mp hp
      exact ⟨k, _, iceServers, hm, ⟨peer, Or.inl rfl⟩, List.mem_of_mem_filter hsrv⟩
  | clientSession id peer iceServers =>
      obtain ⟨srv, hsrv, rfl⟩ := List.mem_map.mp hp
      exact ⟨k, _, iceServers, hm, ⟨peer, Or.inr rfl⟩, List.mem_of_mem_filter hsrv⟩
  | _ => cases hp

/-- Each announced password opens the server while its session is open, and no other one does. -/
structure Passwords (env : Env XID) (s : Rooms XID) (a : Turn.InternalServer) : Prop where
  turnServer : s.world.turnServer = .internal a
  authenticate_iff : ∀ p ∈ s.world.offered, ∀ key, a.authenticate p.2.username = some key ↔
    key = env.generateAuthKey p.2.username Turn.realm p.2.credential ∧
      ∃ r room, s.rooms.lookup r = some room ∧ p.1 ∈ room.sessions.keys
  apart : Apart env s.world.offered s.world.tick

theorem reachable_passwords {t : System XID} (h : (machine env (.internal ⟨∅⟩)).Reachable t) :
    ∃ a, Passwords env t.rooms a := by
  have hkeyed := (issuing_keyed env).reachable (keyed_nil env) h
  obtain ⟨hint, hentry⟩ := reachable_accepts h
  obtain ⟨os, hledger⟩ := reachable_ledger h
  cases ha : t.rooms.world.turnServer with
  | external a =>
      rw [ha] at hint
      exact hint.elim
  | internal a =>
      rw [ha] at hkeyed hentry
      refine ⟨a, ha, fun p hp key ↦ ?_, hkeyed.apart⟩
      obtain ⟨hname, -⟩ := hkeyed.named p hp
      rw [Turn.InternalServer.authenticate, Option.map_eq_some_iff]
      constructor
      · rintro ⟨e, he, rfl⟩
        refine ⟨hkeyed.key p hp e he, ?_⟩
        obtain ⟨r, id, l, ⟨room, hroom, -, hl⟩, hname'⟩ :=
          (hentry p.2.username).mp (Option.isSome_iff_exists.mpr ⟨e, he⟩)
        obtain rfl := hname'.unique hname
        exact ⟨r, room, hroom, GoMap.mem_keys_of_lookup hl⟩
      · rintro ⟨rfl, r, room, hroom, hid⟩
        obtain ⟨l, hl⟩ := GoMap.mem_keys.mp hid
        have hopen : Open t.rooms.rooms r room.mode p.1 l := ⟨room, hroom, rfl, hl⟩
        -- credentials are announced in one mode only
        obtain ⟨k, m, iceServers, hm, hout, hsrv⟩ := handsOut_of_offered hp
        have hmode := (hledger.username (reachable_accepts h).internal hm hout hsrv
          (username_ne hp)).2 r room.mode l hopen
        rw [hmode] at hopen
        obtain ⟨e, he⟩ := Option.isSome_iff_exists.mp
          ((hentry p.2.username).mpr ⟨r, p.1, l, hopen, hname⟩)
        exact ⟨e, he, hkeyed.key p hp e he⟩

/-! ## The external server -/

/-- The external server stays as it was made, and signs an expiry date for an end of the session. -/
structure Signed (env : Env XID) (a : Turn.ExternalServer) (offers : List (XID × ICEServer))
    (server : Turn.Server) (tick : ℕ) : Prop where
  turnServer : server = .external a
  signed : ∀ p ∈ offers, (∃ n < tick, p.1 = env.xid.new n) ∧ ∃ n < tick, ∃ name,
    IsNameOf env p.1 name ∧ p.2.username = toString (env.now n + a.ttl) ++ ":" ++ name ∧
    p.2.credential = env.hmacSHA1 a.secret p.2.username

omit [DecidableEq XID] in
theorem issuing_signed (env : Env XID) (a : Turn.ExternalServer) :
    Issuing env (Signed env a) where
  named h p hp := by
    refine ⟨(h.signed p hp).1, fun hint ↦ ?_⟩
    rw [h.turnServer] at hint
    exact hint.elim
  mono h hsub htick := by
    refine ⟨h.turnServer, fun p hp ↦ ?_⟩
    obtain ⟨⟨n, hn, hid⟩, m, hm, hsigned⟩ := h.signed p (hsub hp)
    exact ⟨⟨n, hn.trans_le htick, hid⟩, m, hm.trans_le htick, hsigned⟩
  disallow username h := by
    obtain ⟨rfl, hsigned⟩ := h
    exact ⟨rfl, hsigned⟩
  credentials {_ _ tick _ name} h hname hid _ addr urls := by
    obtain ⟨rfl, hsigned⟩ := h
    refine ⟨rfl, List.forall_mem_cons.mpr ⟨?_, fun p hp ↦ ?_⟩⟩
    · obtain ⟨n, hn, hid⟩ := hid
      exact ⟨⟨n, Nat.lt_succ_of_lt hn, hid⟩, tick, Nat.lt_succ_self tick, name, hname, rfl, rfl⟩
    · obtain ⟨⟨n, hn, hid⟩, m, hm, hrest⟩ := hsigned p hp
      exact ⟨⟨n, Nat.lt_succ_of_lt hn, hid⟩, m, Nat.lt_succ_of_lt hm, hrest⟩

theorem passwords_unlock {t : System XID} (h : (machine env server).Reachable t) :
    (server = .internal ⟨∅⟩ → ∃ a, Passwords env t.rooms a) ∧
      ∀ a, server = .external a →
        Signed env a t.rooms.world.offered t.rooms.world.turnServer t.rooms.world.tick := by
  constructor
  · rintro rfl
    exact reachable_passwords h
  · rintro a rfl
    exact (issuing_signed env a).reachable ⟨rfl, by simp⟩ h

theorem passwords_unlock_screening :
    ∃ a, Passwords (Env.sample authModeNone)
      (System.after (Env.sample authModeNone) (.internal ⟨∅⟩) (screening "turn")).rooms a :=
  (passwords_unlock (System.reachable_after _ _ _)).1 rfl

end Screego
