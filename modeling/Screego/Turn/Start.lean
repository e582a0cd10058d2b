import Screego.Config.Get
import Screego.Turn.Relay
import Screego.Turn.Server

/-!
# Starting the TURN server

The internal server listens on UDP and TCP with the same generator of relay
addresses and the same check of peers.  The external one only signs credentials.
-/

namespace Screego
namespace Turn

/-- What `turn.NewServer` is set up with, for the packets and for the connections. -/
structure ServerConfig where
  realm : String
  generator : Generator
  permissionHandler : IP → Bool

/-- The loop over `TurnDenyPeersParsed`. -/
def permissions : List IPNet → IP → Bool
  | [], _ => true
  | cidr :: rest, peerIP => if cidr.contains peerIP then false else permissions rest peerIP

/-- The packages that open sockets; each gives an error or none. -/
structure Listeners where
  listenPacket : String → String → Option String
  listen : String → String → Option String
  newServer : ServerConfig → Option String

/-- Credentials of the external server are good for a day. -/
def newExternalServer (conf : Loaded) : Server :=
  .external ⟨conf.settings.turnExternalSecret.toUTF8.toList, 24 * 60 * 60⟩

variable (listeners : Listeners) (quote : String → String)

def newInternalServer (conf : Loaded) (ipProvider : IPDNS.Provider) :
    Except String (Server × ServerConfig) :=
  let address := conf.settings.turnAddress
  match listeners.listenPacket "udp" address with
  | some err => .error ("udp: could not listen on " ++ address ++ ": " ++ err)
  | none =>
      match listeners.listen "tcp" address with
      | some err => .error ("tcp: could not listen on " ++ address ++ ": " ++ err)
      | none =>
          let config : ServerConfig := ⟨realm,
            ⟨generator quote conf.settings.turnPortRange, ipProvider⟩,
            permissions conf.turnDenyPeersParsed⟩
          match listeners.newServer config with
          | some err => .error err
          | none => .ok (.internal ⟨∅⟩, config)

/-- `Start`: the server, and what the internal one was set up with. -/
def start (conf : Loaded) (ipProvider : IPDNS.Provider) :
    Except String (Server × Option ServerConfig) :=
  if conf.turnExternal then .ok (newExternalServer conf, none)
  else (newInternalServer listeners quote conf ipProvider).map fun p ↦ (p.1, some p.2)

end Turn
end Screego
