import Screego.Net.RoundTrip
import Screego.Ws.Start

/-!
# The request of a connection

What `Upgrade` and `newClient` take from the HTTP request: whether its origin may
connect at all, and the address that the client is known by.
-/

namespace Screego

/-- The parts of a request that the handler of `/stream` reads. -/
structure Request where
  host : String
  /-- The header `origin`, empty if there is none. -/
  origin : String
  remoteAddr : IP
  /-- The header `X-Real-IP`, empty if there is none. -/
  realIP : String

/-- The address in `newClient`.  A header that is no address makes it nil. -/
def Request.addr (trustProxy : Bool) (req : Request) : IP :=
  if trustProxy ∧ req.realIP ≠ "" then (IP.parseIP req.realIP).getD [] else req.remoteAddr

/-- `CheckOrigin` of the upgrader, with the host of a URL and the check of the configuration. -/
def Request.checkOrigin (urlHost : String → Option String) (allowed : String → Bool)
    (req : Request) : Bool :=
  match urlHost req.origin with
  | none => false
  | some host => host = req.host || allowed req.origin

theorem Request.valid_addr {req : Request}
    (h : req.remoteAddr.length = 4 ∨ req.remoteAddr.length = 16) (trustProxy : Bool) :
    (req.addr trustProxy).Valid := by
  unfold addr
  split
  · cases hparse : IP.parseIP req.realIP with
    | none => exact Or.inl rfl
    | some ip => exact Or.inr (Or.inr (IP.length_parseIP hparse))
  · exact Or.inr h

end Screego
