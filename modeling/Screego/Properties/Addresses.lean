import Screego.Config.IP
import Screego.Spec.Ledger
import Screego.Spec.Serving
import Screego.Turn.Relay

/-!
# The external address

From the configured entries to the ICE servers and the relays: what is accepted
gives an address whenever it gives an answer, so no session is left without a
URL and no relay without an address, and the families are not mixed up.
-/

namespace Screego

open IPDNS Outgoing Turn World Rooms

variable {XID : Type} [DecidableEq XID] {env : Env XID} {server : Turn.Server}

/-- The main loop gets its addresses from the provider. -/
def FedBy (env : Env XID) (network : Network) (p : Provider) : Prop :=
  ∀ n v4 v6, env.turnIPProvider n = .ok (v4, v6) → ∃ p' tick,
    (IPDNS.machine network p).Reachable p' ∧ (p'.get network tick).1 = .ok (v4, v6)

/-! ## Sessions -/

omit [DecidableEq XID] in
theorem addresses_ne_nil (config : Config) (scheme : String) {v4 v6 : IP} (h : v4 ≠ [] ∨ v6 ≠ [])
    (tcp : Bool) : addresses config scheme v4 v6 tcp ≠ [] := by
  unfold addresses
  rcases h with h | h
  · simp [if_pos h]
  · simp [if_pos h]

/-- The URLs of the addresses in a room for STUN or TURN. -/
def ConnectionMode.urls (mode : ConnectionMode) (config : Config) (v4 v6 : IP) : List String :=
  if mode = connectionTURN then addresses config "turn" v4 v6 true
  else addresses config "stun" v4 v6 false

/-- The ICE servers are one, with exactly the URLs of the addresses, and there is a URL. -/
def HasURLs (config : Config) (mode : ConnectionMode) (v4 v6 : IP)
    (iceServers : List ICEServer) : Prop :=
  ∃ srv, iceServers = [srv] ∧ srv.urls = mode.urls config v4 v6 ∧ srv.urls ≠ []

omit [DecidableEq XID] in
theorem OpenedSession.Made.hasURLs {mode : ConnectionMode} {v4 v6 : IP} {o : OpenedSession XID}
    (h : o.Made env mode v4 v6) (hv : v4 ≠ [] ∨ v6 ≠ [])
    (hmode : mode = connectionSTUN ∨ mode = connectionTURN) :
    HasURLs env.config mode v4 v6 o.iceHost ∧ HasURLs env.config mode v4 v6 o.iceClient := by
  rcases hmode with hmode | hmode
  · obtain ⟨hhost, hclient⟩ := h.stun hmode
    have hurls : mode.urls env.config v4 v6 = addresses env.config "stun" v4 v6 false := by
      rw [ConnectionMode.urls, hmode, if_neg (by decide)]
    exact ⟨⟨_, hhost, hurls.symm, addresses_ne_nil _ _ hv _⟩,
      _, hclient, hurls.symm, addresses_ne_nil _ _ hv _⟩
  · obtain ⟨_, _, _, _, hhost, hclient⟩ := h.turn hmode
    have hurls : mode.urls env.config v4 v6 = addresses env.config "turn" v4 v6 true := by
      rw [ConnectionMode.urls, if_pos hmode]
    exact ⟨⟨_, hhost, hurls.symm, addresses_ne_nil _ _ hv _⟩,
      _, hclient, hurls.symm, addresses_ne_nil _ _ hv _⟩

/-- Both ends of each session that the step opens in a room for STUN or TURN get the URLs of the
addresses that the provider gave. -/
def GivesURLs (env : Env XID) (s t : System XID) : Prop :=
  ∀ r mode id l, Open t.rooms.rooms r mode id l → (∀ r mode l, ¬ Open s.rooms.rooms r mode id l) →
    mode = connectionSTUN ∨ mode = connectionTURN → ∃ n v4 v6 iceHost iceClient,
    env.turnIPProvider n = .ok (v4, v6) ∧
    (l.host, .hostSession id l.client iceHost) ∈ s.rooms.world.since t.rooms.world ∧
    (l.client, .clientSession id l.host iceClient) ∈ s.rooms.world.since t.rooms.world ∧
    HasURLs env.config mode v4 v6 iceHost ∧ HasURLs env.config mode v4 v6 iceClient

theorem step_givesURLs (hip : ∀ n v4 v6, env.turnIPProvider n = .ok (v4, v6) → v4 ≠ [] ∨ v6 ≠ [])
    {s t : System XID} {a : Action XID} (hreach : (machine env server).Reachable s)
    (h : (machine env server).step s a t) : GivesURLs env s t := by
  intro r mode id l hopen hnew hmode
  have hwf := reachable_wf hreach
  obtain ⟨_, _, _, os, hturn⟩ := (step_effect hwf h).turnover hwf.rooms
  rcases (hturn.open_iff r mode id l).mp hopen with ⟨hold, -⟩ | ⟨-, -, o, ho, rfl, rfl⟩
  · exact absurd hold (hnew r mode l)
  have hhost : (o.session.host, .hostSession o.id o.session.client o.iceHost) ∈
      s.rooms.world.since t.rooms.world := by
    have hmem := List.mem_flatMap.mpr ⟨o, ho, OpenedSession.mem_messages.mpr (Or.inl ⟨rfl, rfl⟩)⟩
    rw [← hturn.announced] at hmem
    exact (mem_only.mp hmem).1
  -- the announcement is the one of a session of this room
  obtain ⟨r', room', o', hserves, hmem, hsub⟩ := step_serves hwf h hhost rfl
  obtain ⟨n, v4, v6, hget, hmade⟩ := hserves.made
  have hid := OpenedSession.id_of_mem hmem ⟨_, Or.inl rfl⟩
  have hopen' : Open t.rooms.rooms r' room'.mode o.id o'.session :=
    ⟨room', hserves.lookup, rfl, hid ▸ hserves.session⟩
  obtain rfl := (reachable_wf (hreach.step h)).rooms.mode_unique hopen hopen'
  have hsession := (reachable_wf (hreach.step h)).rooms.session_unique hopen hopen'
  obtain ⟨hhost', hclient'⟩ := hmade.hasURLs (hip n v4 v6 hget) hmode
  refine ⟨n, v4, v6, o'.iceHost, o'.iceClient, hget, ?_, ?_, hhost', hclient'⟩
  · exact hsub (OpenedSession.mem_messages.mpr (Or.inl ⟨by rw [hsession], by rw [hsession, hid]⟩))
  · exact hsub (OpenedSession.mem_messages.mpr (Or.inr ⟨by rw [hsession], by rw [hsession, hid]⟩))

/-! ## Fixed addresses -/

/-- The record holds the entries, each in the place for its family, and nothing else. -/
structure Holds (static : Static) (ips : List String) : Prop where
  v4_eq : ∀ ip ∈ ips, ∀ parsed, ReadsAs ip parsed → parsed.to4.isSome → static.v4 = parsed
  v6_eq : ∀ ip ∈ ips, ∀ parsed, ReadsAs ip parsed → parsed.to4 = none → static.v6 = parsed
  v4_read : static.v4 ≠ [] → ∃ ip ∈ ips, ReadsAs ip static.v4 ∧ static.v4.to4.isSome
  v6_read : static.v6 ≠ [] → ∃ ip ∈ ips, ReadsAs ip static.v6 ∧ static.v6.to4 = none

section Static

variable {ip ip' : String} {parsed parsed' : IP}

theorem ReadsAs.unique (h : ReadsAs ip parsed) (h' : ReadsAs ip parsed') : parsed = parsed' :=
  Option.some.inj (h.1.symm.trans h'.1)

/-- An entry of each family that there is. -/
theorem holds_of_read {static : Static} {ips : List String}
    (h : ∀ ip ∈ ips, ∃ parsed, ReadsAs ip parsed ∧
      ((parsed.to4.isSome ∧ static.v4 = parsed) ∨ (parsed.to4 = none ∧ static.v6 = parsed)))
    (hv4 : static.v4 ≠ [] → ∃ ip ∈ ips, ReadsAs ip static.v4)
    (hv6 : static.v6 ≠ [] → ∃ ip ∈ ips, ReadsAs ip static.v6)
    (haddressed : ByFamily static.v4 static.v6) : Holds static ips where
  v4_eq := by
    intro ip hip parsed hread hfour
    obtain ⟨parsed', hread', ⟨-, heq⟩ | ⟨hnone, -⟩⟩ := h ip hip
    · exact heq.trans (hread'.unique hread)
    · rw [← hread'.unique hread, hnone] at hfour
      cases hfour
  v6_eq := by
    intro ip hip parsed hread hnone
    obtain ⟨parsed', hread', ⟨hfour, -⟩ | ⟨-, heq⟩⟩ := h ip hip
    · rw [hread'.unique hread, hnone] at hfour
      cases hfour
    · exact heq.trans (hread'.unique hread)
  v4_read := by
    intro hne
    obtain ⟨ip, hip, hread⟩ := hv4 hne
    exact ⟨ip, hip, hread, haddressed.v4 hne⟩
  v6_read := by
    intro hne
    obtain ⟨ip, hip, hread⟩ := hv6 hne
    exact ⟨ip, hip, hread, haddressed.v6 hne⟩

theorem holds_one (h : ReadsAs ip parsed) : Holds (Static.one parsed) [ip] := by
  have haddressed := addressed_one h
  unfold Static.one at haddressed ⊢
  split at haddressed
  · next hfour =>
      rw [if_pos hfour]
      exact holds_of_read (by simpa using ⟨parsed, h, Or.inl ⟨hfour, rfl⟩⟩)
        (fun _ ↦ ⟨ip, List.mem_cons_self, h⟩) (absurd rfl) haddressed
  · next hfour =>
      have hnone := Option.not_isSome_iff_eq_none.mp hfour
      rw [if_neg hfour]
      exact holds_of_read (by simpa using ⟨parsed, h, Or.inr ⟨hnone, rfl⟩⟩) (absurd rfl)
        (fun _ ↦ ⟨ip, List.mem_cons_self, h⟩) haddressed

theorem holds_two (h : ReadsAs ip parsed) (h' : ReadsAs ip' parsed')
    (hne : parsed.to4.isSome ≠ parsed'.to4.isSome) :
    Holds (Static.two parsed parsed') [ip, ip'] := by
  have haddressed := addressed_two h hne h'
  have hfirst : ip ∈ [ip, ip'] := List.mem_cons_self
  have hsecond : ip' ∈ [ip, ip'] := List.mem_cons_of_mem _ List.mem_cons_self
  unfold Static.two at haddressed ⊢
  split at haddressed
  · next hfour =>
      have hnone : parsed'.to4 = none :=
        Option.not_isSome_iff_eq_none.mp fun hsome ↦ hne (hfour.trans hsome.symm)
      rw [if_pos hfour]
      refine holds_of_read (List.forall_mem_cons.mpr ⟨?_, List.forall_mem_singleton.mpr ?_⟩)
        (fun _ ↦ ⟨ip, hfirst, h⟩) (fun _ ↦ ⟨ip', hsecond, h'⟩) haddressed
      · exact ⟨parsed, h, Or.inl ⟨hfour, rfl⟩⟩
      · exact ⟨parsed', h', Or.inr ⟨hnone, rfl⟩⟩
  · next hfour =>
      have hsome : parsed'.to4.isSome = true := by
        by_contra hsome
        exact hne ((eq_false_of_ne_true hfour).trans (eq_false_of_ne_true hsome).symm)
      rw [if_neg hfour]
      refine holds_of_read (List.forall_mem_cons.mpr ⟨?_, List.forall_mem_singleton.mpr ?_⟩)
        (fun _ ↦ ⟨ip', hsecond, h'⟩) (fun _ ↦ ⟨ip, hfirst, h⟩) haddressed
      · exact ⟨parsed, h, Or.inr ⟨Option.not_isSome_iff_eq_none.mp hfour, rfl⟩⟩
      · exact ⟨parsed', h', Or.inl ⟨hsome, rfl⟩⟩

end Static

/-! ## Where an address is from -/

/-- The address is that of an entry, or it was in an answer about the domain of the entry. -/
inductive Configured (network : Network) (ips : List String) (address : IP) : Prop
  | read {ip : String} (hip : ip ∈ ips) (h : ReadsAs ip address)
  | answered {entry : String} (hips : ips = [entry]) (hdns : Strings.hasPrefix entry "dns:")
      (h : (parseDNS (Strings.trimPrefix entry "dns:")).Answers network address)

/-- There is an address, each is in the place for its family, and each is from the entries. -/
structure Selected (network : Network) (ips : List String) (v4 v6 : IP) : Prop where
  byFamily : ByFamily v4 v6
  configured : ∀ ip ≠ [], ip = v4 ∨ ip = v6 → Configured network ips ip

section Provider

variable {config : String} {ips : List String} {p p' : Provider} {network : Network}

theorem holds_of_parseIPProvider {static : Static}
    (h : parseIPProvider config ips = some (.ok (.static static))) : Holds static ips := by
  rcases parseIPProvider_eq_ok.mp h with ⟨_, -, -, heq⟩ | ⟨ip, parsed, rfl, hread, heq⟩ |
    ⟨ip, ip', parsed, parsed', rfl, hread, hread', hne, heq⟩
  · cases heq
  · rw [Provider.static.inj heq]
    exact holds_one hread
  · rw [Provider.static.inj heq]
    exact holds_two hread hread' hne

/-- A provider gives nothing but what was configured. -/
theorem selected_of_get (hp : parseIPProvider config ips = some (.ok p))
    (hreach : (IPDNS.machine network p).Reachable p') {tick : ℕ} {v4 v6 : IP}
    (hget : (p'.get network tick).1 = .ok (v4, v6)) : Selected network ips v4 v6 := by
  have hfamily := reachable_addressed network (provider_sound hp) hreach hget
  cases p with
  | static static =>
      have hholds := holds_of_parseIPProvider hp
      obtain rfl := reachable_static network hreach
      obtain ⟨rfl, rfl⟩ := Prod.mk.inj (Except.ok.inj hget)
      refine ⟨hfamily, ?_⟩
      rintro _ hne (rfl | rfl)
      · obtain ⟨ip, hip, hread, -⟩ := hholds.v4_read hne
        exact .read hip hread
      · obtain ⟨ip, hip, hread, -⟩ := hholds.v6_read hne
        exact .read hip hread
  | dns dns =>
      rcases parseIPProvider_eq_ok.mp hp with ⟨entry, hips, hdns, heq⟩ | ⟨_, _, -, -, heq⟩ |
        ⟨_, _, _, _, -, -, -, -, heq⟩
      · obtain rfl := Provider.dns.inj heq
        obtain ⟨hv4, hv6⟩ := reachable_answers network le_rfl hreach hget
        refine ⟨hfamily, ?_⟩
        rintro _ hne (rfl | rfl)
        · exact .answered hips hdns (hv4 hne)
        · exact .answered hips hdns (hv6 hne)
      · cases heq
      · cases heq

omit [DecidableEq XID] in
/-- So does whatever is fed by it. -/
theorem FedBy.selected {env : Env XID} (hp : parseIPProvider config ips = some (.ok p))
    (hfed : FedBy env network p) {n : ℕ} {v4 v6 : IP}
    (h : env.turnIPProvider n = .ok (v4, v6)) : Selected network ips v4 v6 := by
  obtain ⟨p', tick, hreach, hget⟩ := hfed n v4 v6 h
  exact selected_of_get hp hreach hget

end Provider

/-! ## The whole way -/

/-- What is made of the entries of a setting. -/
structure SelectsAddresses (XID : Type) [DecidableEq XID] (config : String) (ips : List String) :
    Prop where
  accepts : ∃ result, parseIPProvider config ips = some result ∧
    ((∃ p, result = .ok p) ↔ Accepted ips) ∧
    ∀ logs, result = .error logs → ∃ msg, logs = [futureFatal msg]
  static : ∀ static, parseIPProvider config ips = some (.ok (.static static)) → Holds static ips
  get : ∀ p network p' tick v4 v6, parseIPProvider config ips = some (.ok p) →
    (IPDNS.machine network p).Reachable p' → (p'.get network tick).1 = .ok (v4, v6) →
    (v4 ≠ [] ∨ v6 ≠ []) ∧ Selected network ips v4 v6
  sessions : ∀ p network (env : Env XID) server s a t,
    parseIPProvider config ips = some (.ok p) → FedBy env network p →
    (machine env server).Reachable s → (machine env server).step s a t → GivesURLs env s t
  /-- With a socket and an address an allocation succeeds and advertises the address. -/
  relays : ∀ p network generator sockets tick requestedPort addr v4 v6,
    parseIPProvider config ips = some (.ok p) →
    (IPDNS.machine network p).Reachable generator.ipProvider →
    generator.relayAddressGenerator.allocatePacketConn sockets tick requestedPort =
      some (.ok addr) →
    (generator.ipProvider.get network tick).1 = .ok (v4, v6) →
    ∃ relayAddr generator',
      Generator.allocatePacketConn sockets network generator tick requestedPort =
        some (.ok (addr, relayAddr), generator') ∧ Advertises addr relayAddr v4 v6
  /-- No allocation succeeds without them, and none advertises anything else. -/
  relayed : ∀ p network generator sockets tick requestedPort addr relayAddr generator',
    parseIPProvider config ips = some (.ok p) →
    (IPDNS.machine network p).Reachable generator.ipProvider →
    Generator.allocatePacketConn sockets network generator tick requestedPort =
      some (.ok (addr, relayAddr), generator') →
    generator.relayAddressGenerator.allocatePacketConn sockets tick requestedPort =
      some (.ok addr) ∧
    ∃ v4 v6, (generator.ipProvider.get network tick).1 = .ok (v4, v6) ∧
      Advertises addr relayAddr v4 v6

theorem selects_addresses (config : String) {ips : List String} (h : ips ≠ []) :
    SelectsAddresses XID config ips where
  accepts := by
    obtain ⟨result, hresult⟩ := exists_result config h
    refine ⟨result, hresult, ?_, ?_⟩
    · have hiff := exists_provider_iff config ips
      rw [hresult] at hiff
      simpa using hiff
    · rintro logs rfl
      exact parseIPProvider_error hresult
  static := fun _ ↦ holds_of_parseIPProvider
  get := by
    intro p network p' tick v4 v6 hp hreach hget
    have hselected := selected_of_get hp hreach hget
    exact ⟨hselected.byFamily.exists_address, hselected⟩
  sessions := by
    intro p network env server s a t hp hfed hreach hstep
    refine step_givesURLs (fun n v4 v6 hget ↦ ?_) hreach hstep
    exact (hfed.selected hp hget).byFamily.exists_address
  relays := by
    intro p network generator sockets tick requestedPort addr v4 v6 hp hreach hsocket hget
    exact Generator.allocatePacketConn_of_socket hsocket hget
      (selected_of_get hp hreach hget).byFamily
  relayed := by
    intro p network generator sockets tick requestedPort addr relayAddr generator' hp hreach halloc
    exact Generator.allocatePacketConn_ok
      (fun v4 v6 hget ↦ (selected_of_get hp hreach hget).byFamily) halloc

/-- An address of each family. -/
def IPDNS.Static.sample : Static where
  v4 := [0, 0, 0, 0, 0, 0, 0, 0, 0, 0, 0xff, 0xff, 203, 0, 113, 9]
  v6 := [0x20, 0x01, 0x0d, 0xb8, 0, 0, 0, 0, 0, 0, 0, 0, 0, 0, 0, 1]

/-- An environment whose provider gives both addresses. -/
def Env.dualStack : Env ℕ :=
  { Env.sample authModeNone with
    turnIPProvider := fun _ ↦ .ok (Static.sample.v4, Static.sample.v6) }

/-- Sockets on port 50000 of the unspecified IPv6 address. -/
def Turn.Sockets.sample : Sockets := ⟨fun _ ↦ 0, fun _ _ ↦ .ok ⟨List.replicate 16 0, 50000⟩⟩

/-- Both addresses in either order: a relay on an IPv6 socket advertises the IPv6 address, and the
host of a screening for TURN gets URLs of both. -/
theorem selects_addresses_both :
    SelectsAddresses ℕ "SCREEGO_EXTERNAL_IP" ["2001:db8::1", "203.0.113.9"] ∧
      Accepted ["2001:db8::1", "203.0.113.9"] ∧
      (∀ network, ∃ generator', Generator.allocatePacketConn .sample network
        ⟨.none, .static .sample⟩ 0 0 = some (.ok (⟨List.replicate 16 0, 50000⟩,
          ⟨Static.sample.v6, 50000⟩), generator')) ∧
      ∃ id srv, (0, .hostSession id 1 [srv]) ∈
          (System.after Env.dualStack (.internal ⟨∅⟩) (meeting "turn")).rooms.world.since
            (System.after Env.dualStack (.internal ⟨∅⟩) (screening "turn")).rooms.world ∧
        srv.urls = ["turn:203.0.113.9:3478", "turn:203.0.113.9:3478?transport=tcp",
          "turn:[2001:db8::1]:3478", "turn:[2001:db8::1]:3478?transport=tcp"] := by
  have hv6 : ReadsAs "2001:db8::1" Static.sample.v6 := ⟨by decide +kernel, by decide⟩
  have hv4 : ReadsAs "203.0.113.9" Static.sample.v4 := ⟨by decide +kernel, by decide⟩
  have h : SelectsAddresses ℕ "SCREEGO_EXTERNAL_IP" ["2001:db8::1", "203.0.113.9"] :=
    selects_addresses _ (by simp)
  have hp : parseIPProvider "SCREEGO_EXTERNAL_IP" ["2001:db8::1", "203.0.113.9"] =
      some (.ok (.static .sample)) :=
    parseIPProvider_eq_ok.mpr (Or.inr (Or.inr ⟨_, _, _, _, rfl, hv6, hv4, by decide, rfl⟩))
  refine ⟨h, .two hv6 hv4 (by decide), fun network ↦ ?_, ?_⟩
  · obtain ⟨relayAddr, generator', halloc, hadvertises⟩ := h.relays _ network
      ⟨.none, .static .sample⟩ .sample 0 0 _ _ _ hp .init rfl rfl
    have hfour : Static.sample.v4.to4.isSome := by decide
    have hsix := hadvertises.v6 (by decide) (by decide)
    obtain ⟨ip, port⟩ := relayAddr
    obtain rfl : port = 50000 := hadvertises.port
    obtain rfl : ip = Static.sample.v6 := hadvertises.given.resolve_left fun heq ↦ by
      rw [← heq, Option.isSome_iff_ne_none] at hfour
      exact hfour hsix
    exact ⟨generator', halloc⟩
  · have hfed : FedBy Env.dualStack ⟨fun _ ↦ 1, fun _ ↦ Int.one_pos, fun _ _ _ ↦ .ok []⟩
        (.static .sample) := fun n v4 v6 hget ↦ ⟨_, 0, .init, hget⟩
    have hgives := h.sessions _ _ Env.dualStack (.internal ⟨∅⟩) _ _ _ hp hfed
      (System.reachable_after _ _ (meeting "turn")) (System.step_after (a := .receive (guest 0)
        .startShare) _ (by decide +kernel) (by decide +kernel))
    -- the session is the first one, and its id is the draw before its two passwords
    have hopen : ((System.after Env.dualStack (.internal ⟨∅⟩) (screening "turn")).rooms.rooms.lookup
        "lobby").any fun room ↦ room.mode = "turn" ∧ room.sessions.lookup 17 = some ⟨0, 1⟩ := by
      decide +kernel
    obtain ⟨room, hroom, hsession⟩ := (Option.any_eq_true _ _).mp hopen
    have hnew : ∀ r mode l, ¬ Open (System.after Env.dualStack (.internal ⟨∅⟩)
        (meeting "turn")).rooms.rooms r mode 17 l := by
      intro r mode l hopen
      obtain ⟨n, hn, hid⟩ := (reachable_wf (System.reachable_after _ _ _)).rooms.minted hopen
      obtain rfl : 17 = n := hid
      revert hn
      decide +kernel
    obtain ⟨n, v4, v6, iceHost, -, hget, hhost, -, ⟨srv, rfl, hurls, -⟩, -⟩ := hgives "lobby" "turn"
      17 ⟨0, 1⟩ ⟨room, hroom, of_decide_eq_true hsession⟩ hnew (Or.inr rfl)
    obtain ⟨rfl, rfl⟩ := Prod.mk.inj (Except.ok.inj hget)
    exact ⟨17, srv, hhost, hurls.trans (by decide +kernel)⟩

end Screego
