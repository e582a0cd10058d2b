import Screego.Auth.Users
import Screego.Turn.Start

/-!
# The command `serve`

The configuration is loaded, and every message about it is written before a
fatal one ends the process.  Then come the address of the server, the users, the
TURN server and the HTTP server, and each of them can end it as well.
-/

namespace Screego

open IPDNS

/-- The outside of the command. -/
structure Launch where
  host : Host
  network : Network
  openFile : String → Except String String
  listeners : Turn.Listeners
  /-- `net.Listen` of the HTTP server, and the key pair that `ServeTLS` loads; each gives an error
  or none. -/
  listen : String → String → Option String
  loadKeyPair : String → String → Option String

/-- The server, when it runs. -/
structure Service where
  conf : Loaded
  /-- The provider after its first `Get`; the main loop and the relays go on with it. -/
  ipProvider : Provider
  users : Auth.Users
  server : Turn.Server
  turnConfig : Option Turn.ServerConfig
  tls : Bool

/-- The part of the configuration for the main loop. -/
def Service.config (service : Service) : Config :=
  ⟨service.conf.settings.authMode, service.conf.turnPort⟩

inductive ServeResult where
  | panic
  | exit
  | serving (service : Service)

/-- Network and address of the HTTP server. -/
def serverAddress (address : String) : String × String :=
  if Strings.hasPrefix address "unix:" then ("unix", Strings.trimPrefix address "unix:")
  else ("tcp", address)

variable (launch : Launch)

/-- The action of the command. -/
def serve : ServeResult :=
  match launch.host.get with
  | none => .panic
  | some (conf, logs) =>
      if ∃ log ∈ logs, log.level = .fatal then .exit
      else
        match conf.turnIPProvider with
        | none => .panic
        | some provider =>
            match provider.get launch.network 0 with
            | (.error _, _) => .exit
            | (.ok _, provider) =>
                let c := conf.settings
                match Auth.readPasswordsFile launch.openFile c.usersFile
                  c.sessionTimeoutSeconds with
                | .error _ => .exit
                | .ok users =>
                    match Turn.start launch.listeners launch.host.quote conf provider with
                    | .error _ => .exit
                    | .ok (server, turnConfig) =>
                        let (network, address) := serverAddress c.serverAddress
                        let tls := c.tlsCertFile ≠ "" ∨ c.tlsKeyFile ≠ ""
                        if launch.listen network address ≠ none then .exit
                        else if tls ∧ launch.loadKeyPair c.tlsCertFile c.tlsKeyFile ≠ none then
                          .exit
                        else .serving ⟨conf, provider, users, server, turnConfig, tls⟩

end Screego
