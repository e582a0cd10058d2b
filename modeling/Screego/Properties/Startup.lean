import Screego.Cmd.Serve
import Screego.Properties.Addresses
import Screego.Properties.PortRange
import Screego.Properties.Settings

/-!
# A server that runs

The command `serve` does not panic, and it exits unless the settings are
accepted.  So a server that runs has everything that its parts rely on: an auth
mode that `create` knows, expressions for the origins, an address for the
sessions and the relays, a range of ports that can be drawn from, and every
range of peers that it was told to deny.
-/

namespace Screego

open IPDNS Turn

variable {XID : Type} [DecidableEq XID] {launch : Launch} {service : Service}

/-! ## The steps of the command -/

/-- What is known of a service. -/
structure Served (launch : Launch) (service : Service) : Prop where
  get : ∃ logs, launch.host.get = some (service.conf, logs) ∧ NotFatal logs
  provider : ∃ p addresses, service.conf.turnIPProvider = some p ∧
    p.get launch.network 0 = (.ok addresses, service.ipProvider)
  users : Auth.readPasswordsFile launch.openFile service.conf.settings.usersFile
    service.conf.settings.sessionTimeoutSeconds = .ok service.users
  turn : Turn.start launch.listeners launch.host.quote service.conf service.ipProvider =
    .ok (service.server, service.turnConfig)
  tls : service.tls = true ↔
    service.conf.settings.tlsCertFile ≠ "" ∨ service.conf.settings.tlsKeyFile ≠ ""

theorem exists_fatal_iff {logs : List Log} :
    (∃ log ∈ logs, log.level = .fatal) ↔ ¬ NotFatal logs := by
  simp [NotFatal]

theorem serve_cases (launch : Launch) : serve launch = .exit ∨
    ∃ service, serve launch = .serving service ∧ Served launch service := by
  obtain ⟨conf, logs, hget, hfatal, hcomplete⟩ := exists_get launch.host
  unfold serve
  rw [hget]
  dsimp only
  by_cases hnot : NotFatal logs
  swap
  · rw [if_pos (exists_fatal_iff.mpr hnot)]
    exact Or.inl rfl
  rw [if_neg (not_not.mpr hnot ∘ exists_fatal_iff.mp)]
  obtain ⟨p, config, hp, -⟩ := (hcomplete (hfatal.mp hnot)).provider
  rw [hp]
  dsimp only
  rcases hprovider : p.get launch.network 0 with ⟨_ | addresses, p'⟩
  · exact Or.inl rfl
  dsimp only
  cases husers : Auth.readPasswordsFile launch.openFile conf.settings.usersFile
      conf.settings.sessionTimeoutSeconds with
  | error err => exact Or.inl rfl
  | ok users =>
      dsimp only
      rcases hturn : Turn.start launch.listeners launch.host.quote conf p' with
        _ | ⟨server, turnConfig⟩
      · exact Or.inl rfl
      dsimp only
      split
      · exact Or.inl rfl
      split
      · exact Or.inl rfl
      · exact Or.inr ⟨_, rfl, ⟨logs, hget, hnot⟩, ⟨p, addresses, hp, hprovider⟩, husers, hturn,
          decide_eq_true_iff⟩

theorem served (h : serve launch = .serving service) : Served launch service := by
  rcases serve_cases launch with hexit | ⟨service', hserving, hserved⟩
  · rw [h] at hexit
    cases hexit
  · obtain rfl := ServeResult.serving.inj (h.symm.trans hserving)
    exact hserved

theorem Served.accepts (h : Served launch service) :
    launch.host.Accepts ∧ service.conf.Complete launch.host := by
  obtain ⟨logs, hget, hnot⟩ := h.get
  obtain ⟨conf, logs', hget', hfatal, hcomplete⟩ := exists_get launch.host
  obtain ⟨rfl, rfl⟩ := Prod.mk.inj (Option.some.inj (hget.symm.trans hget'))
  exact ⟨hfatal.mp hnot, hcomplete (hfatal.mp hnot)⟩

/-- The internal server is set up from the settings; the external one has no such part. -/
theorem Served.turnConfig (h : Served launch service) :
    (service.conf.turnExternal = true ∧ service.turnConfig = none ∧
      ¬ service.server.IsInternal) ∨
    (service.conf.turnExternal = false ∧ service.server = .internal ⟨∅⟩ ∧
      service.turnConfig = some ⟨realm,
        ⟨generator launch.host.quote service.conf.settings.turnPortRange, service.ipProvider⟩,
        permissions service.conf.turnDenyPeersParsed⟩) := by
  have hturn := h.turn
  unfold Turn.start at hturn
  split at hturn
  · next hexternal =>
      obtain ⟨hserver, hconfig⟩ := Prod.mk.inj (Except.ok.inj hturn)
      refine Or.inl ⟨hexternal, hconfig.symm, ?_⟩
      rw [← hserver]
      exact id
  · next hinternal =>
      refine Or.inr ⟨eq_false_of_ne_true hinternal, ?_⟩
      unfold newInternalServer at hturn
      dsimp only at hturn
      split at hturn
      · cases hturn
      split at hturn
      · cases hturn
      split at hturn
      · cases hturn
      · obtain ⟨hserver, hconfig⟩ := Prod.mk.inj (Except.ok.inj hturn)
        exact ⟨hserver.symm, hconfig.symm⟩

/-! ## What the parts rely on -/

omit [DecidableEq XID] in
theorem Create.authError_cases {env : Env XID} (e : Create)
    (hmode : env.config.authMode = authModeTurn ∨ env.config.authMode = authModeAll ∨
      env.config.authMode = authModeNone) (info : ClientInfo XID) :
    e.authError env info = none ∨ e.authError env info = some "you need to login" := by
  unfold Create.authError
  split
  · exact Or.inl rfl
  next hnone =>
  split
  · split
    · exact Or.inr rfl
    · exact Or.inl rfl
  next hall =>
  split
  · split
    · exact Or.inr rfl
    · exact Or.inl rfl
  next hturn =>
  exact (hmode.elim hturn (·.elim hall hnone)).elim

/-- The entries for the address of the server. -/
def Settings.addresses (c : Settings) : List String :=
  if c.turnExternalIP = [] then c.externalIP else c.turnExternalIP

/-- What holds of a server that runs. -/
structure Ready (XID : Type) [DecidableEq XID] (launch : Launch) (service : Service) : Prop where
  accepts : launch.host.Accepts
  /-- `create` knows the auth mode. -/
  create : ∀ (env : Env XID), env.config = service.config → ∀ (e : Create) info,
    e.authError env info = none ∨ e.authError env info = some "you need to login"
  /-- The check of an origin does not panic. -/
  origins : ∀ origin, ∃ allowed, service.conf.checkOrigin launch.host origin = some allowed
  /-- The provider gives configured addresses, each in the place for its family. -/
  addresses : ∀ p tick v4 v6, (IPDNS.machine launch.network service.ipProvider).Reachable p →
    (p.get launch.network tick).1 = .ok (v4, v6) →
    Selected launch.network launch.host.settings.addresses v4 v6
  /-- The sessions for STUN and TURN get the URLs of such addresses, whatever the DNS does. -/
  sessions : ∀ (env : Env XID), FedBy env launch.network service.ipProvider →
    (∀ n v4 v6, env.turnIPProvider n = .ok (v4, v6) →
      Selected launch.network launch.host.settings.addresses v4 v6) ∧
    ∀ s a t, (machine env service.server).Reachable s →
    (machine env service.server).step s a t → GivesURLs env s t
  /-- A relay that has a socket gets such an address, and an allocation does not panic. -/
  relays : ∀ config, service.turnConfig = some config → ∀ sockets (generator : Generator) tick port,
    generator.relayAddressGenerator = config.generator.relayAddressGenerator →
    (IPDNS.machine launch.network config.generator.ipProvider).Reachable generator.ipProvider →
    (∃ result generator',
      generator.allocatePacketConn sockets launch.network tick port = some (result, generator')) ∧
    ∀ addr v4 v6,
      generator.relayAddressGenerator.allocatePacketConn sockets tick port = some (.ok addr) →
      (generator.ipProvider.get launch.network tick).1 = .ok (v4, v6) →
      ∃ relayAddr generator', generator.allocatePacketConn sockets launch.network tick port =
        some (.ok (addr, relayAddr), generator') ∧ Advertises addr relayAddr v4 v6 ∧
        Configured launch.network launch.host.settings.addresses relayAddr.ip
  /-- No relay gets another one. -/
  relayed : ∀ config, service.turnConfig = some config → ∀ sockets (generator : Generator) tick port
    addr relayAddr generator',
    (IPDNS.machine launch.network config.generator.ipProvider).Reachable generator.ipProvider →
    generator.allocatePacketConn sockets launch.network tick port =
      some (.ok (addr, relayAddr), generator') →
    generator.relayAddressGenerator.allocatePacketConn sockets tick port = some (.ok addr) ∧
    ∃ v4 v6, (generator.ipProvider.get launch.network tick).1 = .ok (v4, v6) ∧
      Advertises addr relayAddr v4 v6
  /-- Ports are drawn from a range that starts above zero, or from none. -/
  ports : ∀ config min max, service.turnConfig = some config →
    config.generator.relayAddressGenerator = .portRange min max → min ≠ 0 ∧ min ≤ max
  /-- The TURN server is the one that the settings name. -/
  turn : service.server.IsInternal ↔ launch.host.settings.turnExternalIP = []
  tls : launch.host.settings.serverTLS = true → service.tls = true

/-- The provider of a service comes from the entries of the settings. -/
theorem Served.selected (h : Served launch service) {p : Provider}
    (hreach : (IPDNS.machine launch.network service.ipProvider).Reachable p) {tick : ℕ} {v4 v6 : IP}
    (hget : (p.get launch.network tick).1 = .ok (v4, v6)) :
    Selected launch.network launch.host.settings.addresses v4 v6 := by
  obtain ⟨p₀, addresses, hp₀, hfirst⟩ := h.provider
  obtain ⟨p', config, hp', hparse⟩ := h.accepts.2.provider
  obtain rfl := Option.some.inj (hp₀.symm.trans hp')
  have hips : (if service.conf.turnExternal then launch.host.settings.turnExternalIP
      else launch.host.settings.externalIP) = launch.host.settings.addresses := by
    unfold Settings.addresses
    by_cases hnil : launch.host.settings.turnExternalIP = []
    · rw [if_pos hnil, if_neg fun htrue ↦ h.accepts.2.external.mp htrue hnil]
    · rw [if_neg hnil, if_pos (h.accepts.2.external.mpr hnil)]
  rw [hips] at hparse
  -- the service goes on with the provider after its first answer
  have hstart : (IPDNS.machine launch.network p₀).Reachable service.ipProvider :=
    Machine.Reachable.init.step (a := 0) (congrArg Prod.snd hfirst).symm
  refine selected_of_get hparse (hreach.invariant hstart fun _ hq hstep ↦ ?_) hget
  exact hq.step hstep

theorem Served.ready (h : Served launch service) : Ready XID launch service := by
  obtain ⟨haccepts, hcomplete⟩ := h.accepts
  obtain ⟨secret, -, hsettings⟩ := hcomplete.settings
  have hauth : service.config.authMode = launch.host.settings.authMode := by
    rw [Service.config, hsettings]
  have hports : ∀ config min max, service.turnConfig = some config →
      config.generator.relayAddressGenerator = .portRange min max → min ≠ 0 ∧ min ≤ max := by
    intro config min max hconfig hrange
    rcases h.turnConfig with ⟨-, hnone, -⟩ | ⟨-, -, hsome⟩
    · rw [hnone] at hconfig
      cases hconfig
    · obtain rfl := Option.some.inj (hsome.symm.trans hconfig)
      rw [hsettings] at hrange
      exact range_of_generator
        (notFatal_map_log.mp ((notFatal_portRangeLogs _ _).mpr haccepts.portRange)) hrange
  have hprovider : ∀ config, service.turnConfig = some config →
      config.generator.ipProvider = service.ipProvider := by
    intro config hconfig
    rcases h.turnConfig with ⟨-, hnone, -⟩ | ⟨-, -, hsome⟩
    · rw [hnone] at hconfig
      cases hconfig
    · rw [← Option.some.inj (hsome.symm.trans hconfig)]
  refine ⟨haccepts, ?_, ?_, fun _ _ _ _ hreach hget ↦ h.selected hreach hget, ?_, ?_, ?_, hports,
    ?_, ?_⟩
  · intro env henv e info
    have hmode : env.config.authMode = authModeTurn ∨ env.config.authMode = authModeAll ∨
        env.config.authMode = authModeNone := by
      rw [henv, hauth]
      exact haccepts.authMode
    exact e.authError_cases hmode info
  · intro origin
    obtain ⟨allowed, hallowed, -⟩ := hcomplete.origins origin
    exact ⟨allowed, hallowed⟩
  · intro env hfed
    have hselected : ∀ n v4 v6, env.turnIPProvider n = .ok (v4, v6) →
        Selected launch.network launch.host.settings.addresses v4 v6 := by
      intro n v4 v6 hget
      obtain ⟨p', tick, hreach, hget'⟩ := hfed n v4 v6 hget
      exact h.selected hreach hget'
    refine ⟨hselected, fun s a t hreach hstep ↦ step_givesURLs (fun n v4 v6 hget ↦ ?_) hreach hstep⟩
    exact (hselected n v4 v6 hget).byFamily.exists_address
  · intro config hconfig sockets generator tick port hgenerator hreach
    rw [hprovider config hconfig] at hreach
    refine ⟨?_, fun addr v4 v6 hsocket hget ↦ ?_⟩
    · have hrange : ∀ min max, generator.relayAddressGenerator = .portRange min max →
          min ≠ 0 ∧ min ≤ max :=
        fun min max heq ↦ hports config min max hconfig (hgenerator.symm.trans heq)
      obtain ⟨result, hresult⟩ := RelayAddressGenerator.exists_result hrange tick port
      exact Generator.exists_result hresult
    · have hselected := h.selected hreach hget
      obtain ⟨relayAddr, generator', halloc, hadvertises⟩ :=
        Generator.allocatePacketConn_of_socket hsocket hget hselected.byFamily
      exact ⟨relayAddr, generator', halloc, hadvertises,
        hselected.configured _ hadvertises.ne_nil hadvertises.given⟩
  · intro config hconfig sockets generator tick port addr relayAddr generator' hreach halloc
    rw [hprovider config hconfig] at hreach
    exact Generator.allocatePacketConn_ok
      (fun v4 v6 hget ↦ (h.selected hreach hget).byFamily) halloc
  · have hexternal := hcomplete.external
    rcases h.turnConfig with ⟨htrue, -, hnot⟩ | ⟨hfalse, hserver, -⟩
    · exact iff_of_false hnot (hexternal.mp htrue)
    · rw [hserver]
      refine iff_of_true trivial ?_
      by_contra hne
      rw [hexternal.mpr hne] at hfalse
      cases hfalse
  · intro htls
    rw [h.tls, hsettings]
    exact Or.inl (haccepts.tls htls).1

/-- The command never panics.  It exits, or the settings are accepted and the server is ready. -/
theorem serve_ready (launch : Launch) : serve launch = .exit ∨
    ∃ service, serve launch = .serving service ∧ Ready XID launch service := by
  rcases serve_cases launch with hexit | ⟨service, hserving, hserved⟩
  · exact Or.inl hexit
  · exact Or.inr ⟨service, hserving, hserved.ready⟩

/-- A host without files, where every socket can be opened and only the address is set. -/
def Launch.plain (externalIP : List String) : Launch where
  host := {
    executable := .ok "/screego"
    userHomeDir := .ok "/root"
    mode := "prod"
    stat := fun _ ↦ .notExist
    environ := fun _ ↦ none
    randRead := .ok ⟨List.replicate 32 7, rfl⟩
    dir := fun _ ↦ "/"
    join := fun dir file ↦ dir ++ file
    toLower := id
    quote := id
    read := fun _ ↦ .error "no such file"
    load := fun _ _ ↦ .error "no such file"
    load_error := fun h _ ↦ h
    load_ok := nofun
    process := fun _ ↦ (Settings.ofDefaults externalIP, none)
    compile := fun _ ↦ .error "not an expression" }
  network := ⟨fun _ ↦ 1, fun _ ↦ Int.one_pos, fun _ _ _ ↦ .error (.other "no network")⟩
  openFile := fun _ ↦ .error "no such file"
  listeners := ⟨fun _ _ ↦ none, fun _ _ ↦ none, fun _ ↦ none⟩
  listen := fun _ _ ↦ none
  loadKeyPair := fun _ _ ↦ none

example : ∃ service, serve (Launch.plain ["192.0.2.1"]) = .serving service := ⟨_, rfl⟩

end Screego
