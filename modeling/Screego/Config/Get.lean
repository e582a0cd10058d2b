import Screego.Config.IP
import Screego.Env
import Screego.Net.CIDR

/-!
# Loading the configuration

`Get` completes the environment from the files that it finds, has the settings
read from the environment, and checks them.  No mistake stops it: each becomes a
message for later, when the level of the log is known, and `serve` exits if one
of them is fatal.
-/

namespace Screego

open IPDNS

/-- The levels of `zerolog` at which `Get` writes. -/
inductive LogLevel where
  | debug
  | info
  | warn
  | error
  | fatal
  deriving DecidableEq

/-- A `FutureLog` of any level. -/
structure Log where
  level : LogLevel
  msg : String
  deriving DecidableEq

def fatalLog (msg : String) : Log := ⟨.fatal, msg⟩

def FutureLog.log (l : FutureLog) : Log :=
  match l.level with
  | .warn => ⟨.warn, l.msg⟩
  | .fatal => fatalLog l.msg

/-- The fields of `config.Config` that are read from the environment. -/
structure Settings where
  externalIP : List String
  tlsCertFile : String
  tlsKeyFile : String
  serverTLS : Bool
  serverAddress : String
  secret : List UInt8
  sessionTimeoutSeconds : ℤ
  turnAddress : String
  turnPortRange : String
  turnExternalIP : List String
  turnExternalPort : String
  turnExternalSecret : String
  trustProxyHeaders : Bool
  authMode : String
  corsAllowedOrigins : List String
  usersFile : String
  prometheus : Bool
  turnDenyPeers : List String
  closeRoomWhenOwnerLeaves : Bool

/-- The default of `TurnDenyPeers`. -/
def defaultTurnDenyPeers : List String :=
  ["0.0.0.0/8", "127.0.0.1/8", "::/128", "::1/128", "fe80::/10"]

/-- The settings of an environment that names the addresses of the server and nothing else. -/
def Settings.ofDefaults (externalIP : List String) : Settings where
  externalIP := externalIP
  tlsCertFile := ""
  tlsKeyFile := ""
  serverTLS := false
  serverAddress := ":9101"
  secret := []
  sessionTimeoutSeconds := 0
  turnAddress := ":3478"
  turnPortRange := ""
  turnExternalIP := []
  turnExternalPort := "3478"
  turnExternalSecret := ""
  trustProxyHeaders := false
  authMode := "turn"
  corsAllowedOrigins := []
  usersFile := ""
  prometheus := false
  turnDenyPeers := defaultTurnDenyPeers
  closeRoomWhenOwnerLeaves := true

/-- A compiled expression, as the texts that it matches. -/
abbrev Regexp := String → Bool

/-- `config.Config` as `Get` returns it; the fields behind the first are the ones that are ignored
when the environment is read. -/
structure Loaded where
  settings : Settings
  compiledAllowedOrigins : List (Option Regexp)
  turnExternal : Bool
  turnIPProvider : Option Provider
  turnPort : String
  turnDenyPeersParsed : List IPNet

abbrev Environ := String → Option String

inductive Stat where
  | found
  | notExist
  | error (err : String)
  deriving DecidableEq

/-- The outside of `Get`: the system and the packages for files, settings and expressions. -/
structure Host where
  executable : Except String String
  userHomeDir : Except String String
  mode : String
  stat : String → Stat
  environ : Environ
  randRead : Except String {secret : List UInt8 // secret.length = 32}
  /-- `filepath.Dir` and `filepath.Join`, which depend on the system. -/
  dir : String → String
  join : String → String → String
  /-- `strings.ToLower`. -/
  toLower : String → String
  /-- `strconv.Quote`. -/
  quote : String → String
  /-- `godotenv.Read`. -/
  read : String → Except String Environ
  /-- `godotenv.Load` of a file, and the environment that it leaves behind. -/
  load : String → Environ → Except String Environ
  /-- It reads the file. -/
  load_error : ∀ {file err}, read file = .error err → ∀ env, load file env = .error err
  /-- It sets the variables of the file that are not set, and it overrides none. -/
  load_ok : ∀ {file vars}, read file = .ok vars → ∀ env, ∃ env', load file env = .ok env' ∧
    ∀ key, env' key = (env key).or (vars key)
  /-- `envconfig.Process`: the settings, as far as they were read, and the error. -/
  process : Environ → Settings × Option String
  compile : String → Except String Regexp

variable (host : Host)

/-! ## Files -/

def relativeFiles : List String :=
  ["screego.config.development.local", "screego.config.development", "screego.config.local",
    "screego.config"]

def absoluteFiles : List String := ["/etc/screego/server.config"]

def getExecutableDir : Except Log String :=
  match host.executable with
  | .error err => .error ⟨.error,
      "Could not get path of executable using working directory instead. " ++ err⟩
  | .ok ex => .ok (host.dir ex)

def getExecutableOrWorkDir : String × List Log :=
  match getExecutableDir host with
  | .error log => (host.dir ".", [log])
  | .ok dir => if host.mode = "dev" then (host.dir ".", []) else (dir, [])

def getFiles (relativeTo : String) : List String :=
  relativeFiles.map (host.join relativeTo) ++
    (match host.userHomeDir with
    | .ok homeDir => [host.join homeDir ".config/screego/server.config"]
    | .error _ => []) ++ absoluteFiles

def loadFile (env : Environ) (file : String) : Environ × List Log :=
  match host.stat file with
  | .notExist => (env, [])
  | .error err => (env, [⟨.warn, "cannot read file " ++ file ++ " because " ++ err⟩])
  | .found =>
      match host.load file env with
      | .error err => (env, [fatalLog ("cannot load file " ++ file ++ ": " ++ err)])
      | .ok env => (env, [⟨.debug, "Loading file " ++ file⟩])

/-- The loop over the files. -/
def loadFiles (env : Environ) : List String → Environ × List Log
  | [] => (env, [])
  | file :: rest =>
      let (env, logs) := loadFile host env file
      let (env, more) := loadFiles env rest
      (env, logs ++ more)

/-! ## Checks -/

def processLogs : Option String → List Log
  | none => []
  | some err => [fatalLog ("cannot parse env params: " ++ err)]

variable (c : Settings)

def authModeLogs : List Log :=
  if c.authMode ≠ authModeTurn ∧ c.authMode ≠ authModeAll ∧ c.authMode ≠ authModeNone then
    [fatalLog ("invalid SCREEGO_AUTH_MODE: " ++ c.authMode)]
  else []

def tlsLogs : List Log :=
  if c.serverTLS then
    (if c.tlsCertFile = "" then [fatalLog "SCREEGO_TLS_CERT_FILE must be set if TLS is enabled"]
      else []) ++
    (if c.tlsKeyFile = "" then [fatalLog "SCREEGO_TLS_KEY_FILE must be set if TLS is enabled"]
      else [])
  else []

/-- An expression that does not compile stays in the list as a nil pointer. -/
def compileOrigins : List String → List (Option Regexp) × List Log
  | [] => ([], [])
  | origin :: rest =>
      let (compiled, logs) := compileOrigins rest
      match host.compile origin with
      | .error err => (none :: compiled, fatalLog ("invalid regex: " ++ err) :: logs)
      | .ok re => (some re :: compiled, logs)

def createSecret : List UInt8 × List Log :=
  if c.secret ≠ [] then (c.secret, [])
  else
    match host.randRead with
    | .ok secret => (secret.val,
        [⟨.info, "SCREEGO_SECRET unset, user logins will be invalidated on restart"⟩])
    | .error err => (List.replicate 32 0, [fatalLog ("cannot create secret " ++ err)])

/-- The provider of a setting; `none` is the panic of `parseIPProvider`. -/
def ipProvider (ips : List String) (config : String) : Option (Option Provider × List Log) :=
  (parseIPProvider config ips).map fun
    | .ok p => (some p, [])
    | .error logs => (none, logs.map FutureLog.log)

def bothLogs : List Log :=
  if 0 < c.externalIP.length then
    [fatalLog "SCREEGO_EXTERNAL_IP and SCREEGO_TURN_EXTERNAL_IP must not be both set"]
  else []

def externalSecretLogs : List Log :=
  if c.turnExternalSecret = "" then
    [fatalLog "SCREEGO_TURN_EXTERNAL_SECRET must be set if external TURN server is used"]
  else []

/-- `TurnExternal`, `TurnIPProvider` and `TurnPort`. -/
def externalAddress : Option ((Bool × Option Provider × String) × List Log) :=
  if 0 < c.turnExternalIP.length then do
    let (provider, errs) ← ipProvider c.turnExternalIP "SCREEGO_TURN_EXTERNAL_IP"
    return ((true, provider, c.turnExternalPort), bothLogs c ++ errs ++ externalSecretLogs c)
  else if 0 < c.externalIP.length then do
    let (provider, errs) ← ipProvider c.externalIP "SCREEGO_EXTERNAL_IP"
    let port := (Strings.split c.turnAddress ':').getLastD ""
    return ((false, provider, port), errs)
  else
    some ((false, none, ""),
      [fatalLog "SCREEGO_EXTERNAL_IP or SCREEGO_TURN_EXTERNAL_IP must be set"])

def logDeprecated (env : Environ) : List Log :=
  if (env "SCREEGO_TURN_STRICT_AUTH").getD "" ≠ "" then
    [⟨.warn, "The setting SCREEGO_TURN_STRICT_AUTH has been removed."⟩]
  else []

/-- The loop over `TurnDenyPeers`. -/
def parseDenyPeers : List String → List IPNet × List Log
  | [] => ([], [])
  | cidrString :: rest =>
      let (parsed, logs) := parseDenyPeers rest
      match IPNet.parseCIDR cidrString with
      | none => (parsed, fatalLog ("Invalid SCREEGO_TURN_DENY_PEERS " ++ host.quote cidrString ++
          ": invalid CIDR address: " ++ cidrString) :: logs)
      | some cidr => (cidr :: parsed, logs)

def denyPeersLog (parsed : List IPNet) : Log :=
  ⟨.info, "Deny turn peers within [" ++
    String.intercalate " " (parsed.map fun cidr ↦ host.quote cidr.toString) ++ "]"⟩

/-! ## The whole -/

/-- The environment after the files. -/
def Host.environment : Environ :=
  (loadFiles host host.environ (getFiles host (getExecutableOrWorkDir host).1)).1

/-- What is read from it. -/
def Host.settings : Settings := (host.process host.environment).1

/-- `Get`; `none` is a panic. -/
def Host.get : Option (Loaded × List Log) := do
  let (dir, dirLogs) := getExecutableOrWorkDir host
  let (env, fileLogs) := loadFiles host host.environ (getFiles host dir)
  let (c, err) := host.process env
  let (compiled, originLogs) := compileOrigins host c.corsAllowedOrigins
  let (secret, secretLogs) := createSecret host c
  let ((turnExternal, turnIPProvider, turnPort), addressLogs) ← externalAddress c
  let (parsed, denyLogs) := parseDenyPeers host c.turnDenyPeers
  return (⟨{ c with secret := secret }, compiled, turnExternal, turnIPProvider, turnPort, parsed⟩,
    dirLogs ++ fileLogs ++ processLogs err ++ authModeLogs c ++ tlsLogs c ++ originLogs ++
    secretLogs ++ addressLogs ++ (portRangeLogs host.quote c.turnPortRange).map FutureLog.log ++
    logDeprecated env ++ denyLogs ++ [denyPeersLog host parsed])

/-- The loop in `CheckOrigin`; `none` is the panic of `Match` on a nil pointer. -/
def matchOrigin (origin : String) : List (Option Regexp) → Option Bool
  | [] => some false
  | none :: _ => none
  | some re :: rest => if re origin then some true else matchOrigin origin rest

/-- `CheckOrigin` of the configuration. -/
def Loaded.checkOrigin (conf : Loaded) (origin : String) : Option Bool :=
  if origin = "" then some true
  else matchOrigin (host.toLower origin) conf.compiledAllowedOrigins

end Screego
