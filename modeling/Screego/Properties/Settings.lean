import Screego.Config.Get

/-!
# Which settings the server accepts

The environment comes before the files, and a file before those that follow it
in the list.  The settings that are read from all that are accepted, without a
fatal message, exactly under one condition for each check, and then nothing in
the configuration is missing.
-/

namespace Screego

open IPDNS

variable {host : Host} {c : Settings}

/-! ## Where a value comes from -/

/-- The file is loaded, and it has the value. -/
def Host.Sets (host : Host) (key value file : String) : Prop :=
  host.stat file = .found ∧ ∃ vars, host.read file = .ok vars ∧ vars key = some value

/-- One file: it adds the values that are not there yet. -/
theorem loadFile_eq_some (host : Host) (env : Environ) (file key value : String) :
    (loadFile host env file).1 key = some value ↔
      env key = some value ∨ (env key = none ∧ host.Sets key value file) := by
  have hskip (hnot : ¬ host.Sets key value file) :
      env key = some value ↔ env key = some value ∨ (env key = none ∧ host.Sets key value file) :=
    ⟨Or.inl, fun h ↦ h.resolve_right fun h ↦ hnot h.2⟩
  unfold loadFile
  cases hstat : host.stat file with
  | notExist =>
      refine hskip fun h ↦ ?_
      rw [h.1] at hstat
      cases hstat
  | error err =>
      refine hskip fun h ↦ ?_
      rw [h.1] at hstat
      cases hstat
  | found =>
      cases hread : host.read file with
      | error err =>
          rw [host.load_error hread]
          refine hskip fun h ↦ ?_
          obtain ⟨-, vars, hvars, -⟩ := h
          rw [hread] at hvars
          cases hvars
      | ok vars =>
          obtain ⟨env', hload, henv'⟩ := host.load_ok hread env
          have hsets : host.Sets key value file ↔ vars key = some value := by
            refine ⟨fun h ↦ ?_, fun h ↦ ⟨hstat, vars, hread, h⟩⟩
            obtain ⟨-, vars', hvars, hvalue⟩ := h
            rw [hread] at hvars
            rwa [Except.ok.inj hvars]
          rw [hload, hsets]
          dsimp only
          rw [henv']
          exact Option.or_eq_some_iff

/-- The loop over the files: the first one that has a value for the key decides. -/
theorem loadFiles_eq_some (host : Host) (env : Environ) (files : List String)
    (key value : String) : (loadFiles host env files).1 key = some value ↔
      env key = some value ∨ (env key = none ∧ ∃ before file after,
        files = before ++ file :: after ∧ host.Sets key value file ∧
        ∀ earlier ∈ before, ∀ other, ¬ host.Sets key other earlier) := by
  induction files generalizing env with
  | nil => simp [loadFiles]
  | cons file rest ih =>
      have hnone : (loadFile host env file).1 key = none ↔
          env key = none ∧ ∀ other, ¬ host.Sets key other file := by
        rw [Option.eq_none_iff_forall_ne_some]
        refine ⟨fun h ↦ ?_, fun h other heq ↦ ?_⟩
        · have henv : env key = none := Option.eq_none_iff_forall_ne_some.mpr fun other heq ↦
            h other ((loadFile_eq_some host env file key other).mpr (Or.inl heq))
          exact ⟨henv, fun other hsets ↦
            h other ((loadFile_eq_some host env file key other).mpr (Or.inr ⟨henv, hsets⟩))⟩
        · rcases (loadFile_eq_some host env file key other).mp heq with heq | ⟨-, hsets⟩
          · rw [h.1] at heq
            cases heq
          · exact h.2 other hsets
      have hstep : (loadFiles host env (file :: rest)).1 =
          (loadFiles host (loadFile host env file).1 rest).1 := rfl
      rw [hstep, ih, loadFile_eq_some, hnone]
      constructor
      · rintro ((henv | ⟨henv, hsets⟩) | ⟨⟨henv, hfile⟩, before, file', after, rfl, hsets, hbefore⟩)
        · exact Or.inl henv
        · exact Or.inr ⟨henv, [], file, rest, rfl, hsets, by simp⟩
        · exact Or.inr ⟨henv, file :: before, file', after, rfl, hsets,
            List.forall_mem_cons.mpr ⟨hfile, hbefore⟩⟩
      · rintro (henv | ⟨henv, before, file', after, heq, hsets, hbefore⟩)
        · exact Or.inl (Or.inl henv)
        · cases before with
          | nil =>
              obtain ⟨rfl, rfl⟩ := List.cons.inj heq
              exact Or.inl (Or.inr ⟨henv, hsets⟩)
          | cons first before =>
              obtain ⟨rfl, rfl⟩ := List.cons.inj heq
              obtain ⟨hfirst, hbefore⟩ := List.forall_mem_cons.mp hbefore
              exact Or.inr ⟨⟨henv, hfirst⟩, before, file', after, rfl, hsets, hbefore⟩

/-- The value that the settings are read from. -/
theorem environment_precedence (host : Host) (key value : String) :
    host.environment key = some value ↔
      host.environ key = some value ∨ (host.environ key = none ∧ ∃ before file after,
        getFiles host (getExecutableOrWorkDir host).1 = before ++ file :: after ∧
        host.Sets key value file ∧ ∀ earlier ∈ before, ∀ other, ¬ host.Sets key other earlier) :=
  loadFiles_eq_some host host.environ _ key value

/-! ## Messages that are not fatal -/

def NotFatal (logs : List Log) : Prop := ∀ log ∈ logs, log.level ≠ .fatal

@[simp] theorem notFatal_nil : NotFatal [] := by simp [NotFatal]

@[simp] theorem notFatal_append {logs logs' : List Log} :
    NotFatal (logs ++ logs') ↔ NotFatal logs ∧ NotFatal logs' := List.forall_mem_append

@[simp] theorem notFatal_cons {log : Log} {logs : List Log} :
    NotFatal (log :: logs) ↔ log.level ≠ .fatal ∧ NotFatal logs := List.forall_mem_cons

theorem not_notFatal_fatalLog {msg : String} {logs : List Log} :
    ¬ NotFatal (fatalLog msg :: logs) := fun h ↦ (notFatal_cons.mp h).1 rfl

theorem notFatal_ite {p : Prop} [Decidable p] {msg : String} :
    NotFatal (if p then [fatalLog msg] else []) ↔ ¬ p := by
  split
  · next h => exact iff_of_false not_notFatal_fatalLog (not_not.mpr h)
  · next h => exact iff_of_true notFatal_nil h

theorem notFatal_map_log {logs : List FutureLog} :
    NotFatal (logs.map FutureLog.log) ↔ ∀ log ∈ logs, log.level ≠ .fatal := by
  unfold NotFatal
  rw [List.forall_mem_map]
  refine forall₂_congr fun log _ ↦ not_congr ?_
  unfold FutureLog.log
  cases hlevel : log.level with
  | warn => simp
  | fatal => exact iff_of_true rfl rfl

/-! ## One check after the other -/

/-- Files that are there can be loaded. -/
theorem notFatal_loadFiles (host : Host) (env : Environ) (files : List String) :
    NotFatal (loadFiles host env files).2 ↔
      ∀ file ∈ files, host.stat file = .found → ∃ vars, host.read file = .ok vars := by
  induction files generalizing env with
  | nil => simp [loadFiles]
  | cons file rest ih =>
      have hstep : (loadFiles host env (file :: rest)).2 = (loadFile host env file).2 ++
          (loadFiles host (loadFile host env file).1 rest).2 := rfl
      rw [hstep, notFatal_append, ih, List.forall_mem_cons]
      refine and_congr_left' ?_
      unfold loadFile
      cases hstat : host.stat file with
      | notExist => simp
      | error err => simp
      | found =>
          cases hread : host.read file with
          | error err =>
              rw [host.load_error hread]
              exact iff_of_false not_notFatal_fatalLog fun h ↦ nomatch h rfl
          | ok vars =>
              obtain ⟨env', hload, -⟩ := host.load_ok hread env
              simp [hload]

theorem notFatal_getExecutableOrWorkDir (host : Host) :
    NotFatal (getExecutableOrWorkDir host).2 := by
  unfold getExecutableOrWorkDir getExecutableDir
  cases host.executable with
  | error err => simp
  | ok ex =>
      dsimp only
      split <;> exact notFatal_nil

theorem notFatal_authModeLogs : NotFatal (authModeLogs c) ↔
    c.authMode = authModeTurn ∨ c.authMode = authModeAll ∨ c.authMode = authModeNone := by
  rw [authModeLogs, notFatal_ite]
  tauto

theorem notFatal_tlsLogs : NotFatal (tlsLogs c) ↔
    (c.serverTLS → c.tlsCertFile ≠ "" ∧ c.tlsKeyFile ≠ "") := by
  unfold tlsLogs
  split
  · next htls => rw [notFatal_append, notFatal_ite, notFatal_ite, imp_iff_right htls]
  · next htls => exact iff_of_true notFatal_nil fun h ↦ absurd h htls

theorem notFatal_compileOrigins (origins : List String) :
    NotFatal (compileOrigins host origins).2 ↔
      ∀ origin ∈ origins, ∃ re, host.compile origin = .ok re := by
  induction origins with
  | nil => simp [compileOrigins]
  | cons origin rest ih =>
      rw [List.forall_mem_cons, compileOrigins]
      cases hcompile : host.compile origin with
      | error err => exact iff_of_false not_notFatal_fatalLog fun h ↦ nomatch h.1
      | ok re => simp [ih]

theorem notFatal_createSecret : NotFatal (createSecret host c).2 ↔
    c.secret ≠ [] ∨ ∃ secret, host.randRead = .ok secret := by
  unfold createSecret
  split
  · next hsecret => exact iff_of_true notFatal_nil (Or.inl hsecret)
  · next hsecret =>
      cases hrand : host.randRead with
      | error err => exact iff_of_false not_notFatal_fatalLog fun h ↦ h.elim hsecret (nomatch ·)
      | ok secret => simp

theorem notFatal_logDeprecated (env : Environ) : NotFatal (logDeprecated env) := by
  unfold logDeprecated
  split <;> simp

theorem notFatal_parseDenyPeers (peers : List String) :
    NotFatal (parseDenyPeers host peers).2 ↔ ∀ peer ∈ peers, (IPNet.rangeOf peer).isSome := by
  induction peers with
  | nil => simp [parseDenyPeers]
  | cons peer rest ih =>
      rw [List.forall_mem_cons, parseDenyPeers, IPNet.isSome_rangeOf]
      cases hparse : IPNet.parseCIDR peer with
      | none => exact iff_of_false not_notFatal_fatalLog fun h ↦ nomatch h.1
      | some cidr => simp [ih]

theorem notFatal_portRangeLogs (quote : String → String) (turnPortRange : String) :
    NotFatal ((portRangeLogs quote turnPortRange).map FutureLog.log) ↔
      ∃ min max, parsePortRange quote turnPortRange = .ok (min, max) ∧
        ((min = 0 ∧ max = 0) ∨ (min ≠ 0 ∧ max ≠ 0 ∧ min ≤ max)) := by
  rw [notFatal_map_log]
  refine ⟨parsePortRange_of_not_fatal, ?_⟩
  rintro ⟨min, max, hparse, hzero | ⟨hmin, hmax, hle⟩⟩
  · rw [portRangeLogs, hparse]
    dsimp only
    rw [if_pos hzero]
    exact List.forall_mem_nil _
  · rw [portRangeLogs, hparse]
    dsimp only
    rw [if_neg fun h ↦ hmin h.1, if_neg (not_or.mpr ⟨hmin, hmax⟩),
      if_neg (UInt16.not_lt.mpr hle)]
    split
    · exact List.forall_mem_singleton.mpr (by rintro ⟨⟩)
    · exact List.forall_mem_nil _

/-- The setting has an address of the server, or it has one of a TURN server elsewhere together
with the secret of that. -/
def Settings.HasAddress (c : Settings) : Prop :=
  (Accepted c.turnExternalIP ∧ c.externalIP = [] ∧ c.turnExternalSecret ≠ "") ∨
    (c.turnExternalIP = [] ∧ Accepted c.externalIP)

theorem Accepted.ne_nil {ips : List String} (h : Accepted ips) : ips ≠ [] := by
  cases h <;> exact List.cons_ne_nil _ _

theorem exists_ipProvider {ips : List String} (h : ips ≠ []) (config : String) :
    ∃ provider logs, ipProvider ips config = some (provider, logs) ∧
      (NotFatal logs ↔ Accepted ips) ∧
      (Accepted ips → ∃ p, provider = some p ∧ parseIPProvider config ips = some (.ok p)) := by
  obtain ⟨result, hresult⟩ := exists_result config h
  have haccepted := exists_provider_iff config ips
  rw [hresult] at haccepted
  cases result with
  | error logs =>
      obtain ⟨msg, rfl⟩ := parseIPProvider_error hresult
      have hnot : ¬ Accepted ips := by simp [← haccepted]
      refine ⟨none, [fatalLog msg], by rw [ipProvider, hresult]; rfl, ?_, fun h ↦ absurd h hnot⟩
      exact iff_of_false not_notFatal_fatalLog hnot
  | ok p =>
      have hyes : Accepted ips := haccepted.mp ⟨p, rfl⟩
      exact ⟨some p, [], by rw [ipProvider, hresult]; rfl, iff_of_true notFatal_nil hyes,
        fun _ ↦ ⟨p, rfl, hresult⟩⟩

theorem exists_externalAddress (c : Settings) :
    ∃ external provider port logs, externalAddress c = some ((external, provider, port), logs) ∧
      (NotFatal logs ↔ c.HasAddress) ∧ (external = true ↔ c.turnExternalIP ≠ []) ∧
      (c.HasAddress → ∃ p config, provider = some p ∧
        parseIPProvider config (if external then c.turnExternalIP else c.externalIP) =
          some (.ok p)) := by
  unfold externalAddress
  by_cases hturn : c.turnExternalIP = []
  · by_cases hip : c.externalIP = []
    · refine ⟨false, none, "", _, by rw [hturn, hip]; rfl, ?_, by simp [hturn], ?_⟩
      · refine iff_of_false not_notFatal_fatalLog ?_
        rintro (⟨h, -⟩ | ⟨-, h⟩)
        · exact h.ne_nil hturn
        · exact h.ne_nil hip
      · rintro (⟨h, -⟩ | ⟨-, h⟩)
        · exact absurd hturn h.ne_nil
        · exact absurd hip h.ne_nil
    · obtain ⟨provider, logs, hprovider, hfatal, haccepted⟩ :=
        exists_ipProvider hip "SCREEGO_EXTERNAL_IP"
      have hiff : c.HasAddress ↔ Accepted c.externalIP := by
        refine ⟨fun h ↦ h.elim (fun h ↦ absurd hturn h.1.ne_nil) And.right, fun h ↦ ?_⟩
        exact Or.inr ⟨hturn, h⟩
      refine ⟨false, provider, (Strings.split c.turnAddress ':').getLastD "", logs, ?_,
        hfatal.trans hiff.symm, by simp [hturn], fun h ↦ ?_⟩
      · rw [hturn, if_neg (by simp), if_pos (List.length_pos_iff.mpr hip), hprovider]
        rfl
      · obtain ⟨p, hp, hparse⟩ := haccepted (hiff.mp h)
        exact ⟨p, _, hp, hparse⟩
  · obtain ⟨provider, logs, hprovider, hfatal, haccepted⟩ :=
      exists_ipProvider hturn "SCREEGO_TURN_EXTERNAL_IP"
    have hiff : c.HasAddress ↔
        Accepted c.turnExternalIP ∧ c.externalIP = [] ∧ c.turnExternalSecret ≠ "" :=
      or_iff_left fun h ↦ hturn h.1
    refine ⟨true, provider, c.turnExternalPort, bothLogs c ++ logs ++ externalSecretLogs c, ?_, ?_,
      by simp [hturn], fun h ↦ ?_⟩
    · rw [if_pos (List.length_pos_iff.mpr hturn), hprovider]
      rfl
    · rw [notFatal_append, notFatal_append, bothLogs, externalSecretLogs, notFatal_ite,
        notFatal_ite, hfatal, hiff, Nat.pos_iff_ne_zero, not_not, List.length_eq_zero_iff,
        and_assoc, and_left_comm]
    · obtain ⟨p, hp, hparse⟩ := haccepted (hiff.mp h).1
      exact ⟨p, _, hp, hparse⟩

/-! ## All checks -/

/-- What is asked of the files and of the settings. -/
structure Host.Accepts (host : Host) : Prop where
  files : ∀ file ∈ getFiles host (getExecutableOrWorkDir host).1, host.stat file = .found →
    ∃ vars, host.read file = .ok vars
  process : (host.process host.environment).2 = none
  authMode : host.settings.authMode = authModeTurn ∨ host.settings.authMode = authModeAll ∨
    host.settings.authMode = authModeNone
  tls : host.settings.serverTLS →
    host.settings.tlsCertFile ≠ "" ∧ host.settings.tlsKeyFile ≠ ""
  origins : ∀ origin ∈ host.settings.corsAllowedOrigins, ∃ re, host.compile origin = .ok re
  secret : host.settings.secret ≠ [] ∨ ∃ secret, host.randRead = .ok secret
  address : host.settings.HasAddress
  portRange : ∃ min max, parsePortRange host.quote host.settings.turnPortRange = .ok (min, max) ∧
    ((min = 0 ∧ max = 0) ∨ (min ≠ 0 ∧ max ≠ 0 ∧ min ≤ max))
  denyPeers : ∀ peer ∈ host.settings.turnDenyPeers, (IPNet.rangeOf peer).isSome

/-- Nothing that the server uses is missing. -/
structure Loaded.Complete (host : Host) (conf : Loaded) : Prop where
  settings : ∃ secret ≠ [], conf.settings = { host.settings with secret := secret }
  origins : ∀ origin, ∃ answer, conf.checkOrigin host origin = some answer ∧
    (answer = true ↔ origin = "" ∨ ∃ pattern ∈ host.settings.corsAllowedOrigins, ∃ re,
      host.compile pattern = .ok re ∧ re (host.toLower origin))
  external : conf.turnExternal = true ↔ host.settings.turnExternalIP ≠ []
  provider : ∃ p config, conf.turnIPProvider = some p ∧ parseIPProvider config
    (if conf.turnExternal then host.settings.turnExternalIP else host.settings.externalIP) =
      some (.ok p)
  denyPeers : host.settings.turnDenyPeers.map IPNet.parseCIDR = conf.turnDenyPeersParsed.map some

theorem matchOrigin_compileOrigins {origins : List String}
    (h : ∀ origin ∈ origins, ∃ re, host.compile origin = .ok re) (origin : String) :
    ∃ answer, matchOrigin origin (compileOrigins host origins).1 = some answer ∧
      (answer = true ↔ ∃ pattern ∈ origins, ∃ re, host.compile pattern = .ok re ∧ re origin) := by
  induction origins with
  | nil => exact ⟨false, rfl, by simp⟩
  | cons pattern rest ih =>
      obtain ⟨⟨re, hre⟩, hrest⟩ := List.forall_mem_cons.mp h
      obtain ⟨answer, hanswer, hiff⟩ := ih hrest
      have hfirst : (∃ re, host.compile pattern = .ok re ∧ re origin = true) ↔
          re origin = true := by
        simp [hre]
      rw [compileOrigins, hre]
      dsimp only [matchOrigin]
      simp only [List.exists_mem_cons_iff, hfirst]
      by_cases hmatch : re origin
      · rw [if_pos hmatch]
        exact ⟨true, rfl, by simp [hmatch]⟩
      · rw [if_neg hmatch]
        exact ⟨answer, hanswer, by simp [hmatch, hiff]⟩

theorem map_parseCIDR {peers : List String}
    (h : ∀ peer ∈ peers, (IPNet.rangeOf peer).isSome) :
    peers.map IPNet.parseCIDR = (parseDenyPeers host peers).1.map some := by
  induction peers with
  | nil => rfl
  | cons peer rest ih =>
      obtain ⟨hpeer, hrest⟩ := List.forall_mem_cons.mp h
      rw [IPNet.isSome_rangeOf, Option.isSome_iff_exists] at hpeer
      obtain ⟨cidr, hcidr⟩ := hpeer
      rw [List.map_cons, ih hrest, parseDenyPeers, hcidr]
      rfl

theorem createSecret_ne_nil (host : Host) (c : Settings) : (createSecret host c).1 ≠ [] := by
  unfold createSecret
  split
  · next hsecret => exact hsecret
  · cases host.randRead with
    | error err => simp
    | ok secret =>
        intro hnil
        have hlength := secret.property
        rw [show secret.val = [] from hnil] at hlength
        cases hlength

theorem get_eq {external : Bool} {provider : Option Provider} {port : String} {logs : List Log}
    (h : externalAddress host.settings = some ((external, provider, port), logs)) :
    host.get = some
      (⟨{ host.settings with secret := (createSecret host host.settings).1 },
        (compileOrigins host host.settings.corsAllowedOrigins).1, external, provider, port,
        (parseDenyPeers host host.settings.turnDenyPeers).1⟩,
      (getExecutableOrWorkDir host).2 ++
        (loadFiles host host.environ (getFiles host (getExecutableOrWorkDir host).1)).2 ++
        processLogs (host.process host.environment).2 ++ authModeLogs host.settings ++
        tlsLogs host.settings ++ (compileOrigins host host.settings.corsAllowedOrigins).2 ++
        (createSecret host host.settings).2 ++ logs ++
        (portRangeLogs host.quote host.settings.turnPortRange).map FutureLog.log ++
        logDeprecated host.environment ++
        (parseDenyPeers host host.settings.turnDenyPeers).2 ++
        [denyPeersLog host (parseDenyPeers host host.settings.turnDenyPeers).1]) := by
  have haddress : externalAddress (host.process (loadFiles host host.environ
      (getFiles host (getExecutableOrWorkDir host).1)).1).1 =
        some ((external, provider, port), logs) := h
  simp only [Host.get, haddress]
  rfl

theorem notFatal_processLogs (err : Option String) :
    NotFatal (processLogs err) ↔ err = none := by
  cases err with
  | none => exact iff_of_true notFatal_nil rfl
  | some err => exact iff_of_false not_notFatal_fatalLog nofun

/-- The configuration is never a panic, its messages name every mistake, and without a fatal one
it is complete. -/
theorem exists_get (host : Host) : ∃ conf logs, host.get = some (conf, logs) ∧
    (NotFatal logs ↔ host.Accepts) ∧ (host.Accepts → conf.Complete host) := by
  obtain ⟨external, provider, port, addressLogs, haddress, hfatal, hexternal, hprovider⟩ :=
    exists_externalAddress host.settings
  refine ⟨_, _, get_eq haddress, ?_, fun h ↦ ?_⟩
  · simp only [notFatal_append, notFatal_cons, notFatal_loadFiles, notFatal_processLogs,
      notFatal_authModeLogs, notFatal_tlsLogs, notFatal_compileOrigins, notFatal_createSecret,
      hfatal, notFatal_portRangeLogs, notFatal_parseDenyPeers]
    constructor
    · rintro ⟨⟨⟨⟨⟨⟨⟨⟨⟨⟨⟨-, hfiles⟩, hprocess⟩, hauth⟩, htls⟩, horigins⟩, hsecret⟩, haddress⟩,
        hports⟩, -⟩, hdeny⟩, -⟩
      exact ⟨hfiles, hprocess, hauth, htls, horigins, hsecret, haddress, hports, hdeny⟩
    · intro h
      exact ⟨⟨⟨⟨⟨⟨⟨⟨⟨⟨⟨notFatal_getExecutableOrWorkDir host, h.files⟩, h.process⟩, h.authMode⟩,
        h.tls⟩, h.origins⟩, h.secret⟩, h.address⟩, h.portRange⟩, notFatal_logDeprecated _⟩,
        h.denyPeers⟩, nofun, notFatal_nil⟩
  · refine ⟨⟨_, createSecret_ne_nil host host.settings, rfl⟩, fun origin ↦ ?_, hexternal, ?_,
      map_parseCIDR h.denyPeers⟩
    · unfold Loaded.checkOrigin
      by_cases hempty : origin = ""
      · exact ⟨true, if_pos hempty, iff_of_true rfl (Or.inl hempty)⟩
      · rw [if_neg hempty]
        obtain ⟨answer, hanswer, hiff⟩ :=
          matchOrigin_compileOrigins h.origins (host.toLower origin)
        exact ⟨answer, hanswer, hiff.trans (or_iff_right hempty).symm⟩
    · obtain ⟨p, config, hp, hparse⟩ := hprovider h.address
      exact ⟨p, config, hp, hparse⟩

end Screego
