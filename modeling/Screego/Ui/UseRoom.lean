import Screego.Ws.ReadWrite

/-!
# The hook `useRoom`

The peer connections that the page keeps for its sessions, and what the three
messages about sessions do to them.
-/

namespace Screego

/-- The property key of a value, which may be `undefined`. -/
def propertyKey : Option Json → String
  | none => "undefined"
  | some j => j.text

/-- `id !== payload`, for a value that may be `undefined`. -/
def differs : Option Json → Json → Bool
  | none, _ => true
  | some id, payload => ¬ id.strictEq payload

structure Calls where
  /-- The keys of `host.current` with an open connection. -/
  host : Finset String
  /-- The same for `client.current`. -/
  client : Finset String
  /-- The ids of the list `clientStreams`. -/
  clientStreams : List (Option Json)

/-- `onmessage` for a page that shares its screen, and gets a stream for each session in which
another page does. -/
def Calls.onMessage (event : Typed) (calls : Calls) : Calls :=
  if event.type = "hostsession" then
    { calls with host := insert (propertyKey (event.payload.field "id")) calls.host }
  else if event.type = "clientsession" then
    { calls with
      client := insert (propertyKey (event.payload.field "id")) calls.client
      clientStreams := calls.clientStreams ++ [event.payload.field "id"] }
  else if event.type = "endshare" then
    { host := calls.host.erase event.payload.text
      client := calls.client.erase event.payload.text
      clientStreams := calls.clientStreams.filter fun id ↦ differs id event.payload }
  else calls

end Screego
