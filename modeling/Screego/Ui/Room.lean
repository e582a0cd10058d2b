import Screego.Ws.Start

/-!
# The pages of the clients

A page shows the last member list it has received and offers what that list
allows.  The list may be an old one, and by the time a request gets to the main
loop the room may have changed once more.
-/

namespace Screego

open Outgoing

variable {XID : Type} [DecidableEq XID] (env : Env XID)

/-! ## What a page offers -/

/-- The buttons of the member dialog for everybody. -/
def roomActions : List String := ["enable_all", "disable_all"]

/-- Its buttons beside another member. -/
def memberActions : List String := ["stop_share", "toggle_share_permission", "ban", "kick"]

/-- `users.find((u) => u.you)`. -/
def currentUser (users : List (Outgoing.User XID)) : Option (Outgoing.User XID) :=
  users.find? Outgoing.User.you

/-- What a page that shows `users` may ask the main loop for.  It offers `stop_share` beside a
member on the air only; here the button is always there. -/
def offers (users : List (Outgoing.User XID)) : Event XID → Bool
  | .startShare =>
      !(users.any fun user ↦ user.streaming && !user.you) &&
        (currentUser users).all Outgoing.User.canShare
  | .ownerAction e =>
      (currentUser users).any Outgoing.User.owner &&
        (e.action ∈ roomActions || e.action ∈ memberActions &&
          users.any fun user ↦ !user.you && e.targetUserID = env.xid.toString user.id)
  | .stopShare => true
  | .name _ => true
  | _ => false

/-! ## Pages and main loop -/

structure Pages (XID : Type) where
  system : System XID
  /-- How much of what was handed over has come to the page or was dropped. -/
  read : XID → ℕ
  /-- The member list on the page, if it shows a room. -/
  shown : XID → Option (List (Outgoing.User XID))
  /-- The requests of a page that the main loop has not taken yet. -/
  sent : XID → List (Event XID)

inductive Exchange (XID : Type) where
  /-- The page of `k` receives the `n`-th message that was handed over. -/
  | deliver (k : XID) (n : ℕ)
  | send (k : XID) (e : Event XID)
  /-- The main loop takes the next request of a page. -/
  | take (info : ClientInfo XID)
  /-- Anything else that the server does. -/
  | other (a : Action XID)

namespace Pages

/-- `onmessage` and `onclose`, as far as the member list goes. -/
def onMessage (k : XID) (msg : Message XID) (p : Pages XID) : Pages XID :=
  match msg with
  | .room _ _ users => { p with shown := Function.update p.shown k (some users) }
  | .closeWriter _ _ => { p with shown := Function.update p.shown k none }
  | _ => p

def act (a : Action XID) (p : Pages XID) : Option (Pages XID) :=
  if p.system.Enabled a then (p.system.next env a).map fun t ↦ { p with system := t } else none

def next (p : Pages XID) : Exchange XID → Option (Pages XID)
  | .deliver k n =>
      match p.system.rooms.world.out[n]? with
      | some (k', msg) =>
          if k' = k ∧ p.read k ≤ n then
            some ({ p with read := Function.update p.read k (n + 1) }.onMessage k msg)
          else none
      | none => none
  | .send k e =>
      match p.shown k with
      | some users =>
          if offers env users e then
            some { p with sent := Function.update p.sent k (p.sent k ++ [e]) }
          else none
      | none => none
  | .take info =>
      match p.sent info.id with
      | e :: rest =>
          (p.act env (.receive info e)).map fun q ↦
            { q with sent := Function.update q.sent info.id rest }
      | [] => none
  | .other a => p.act env a

end Pages

/-- The server and the pages of its clients. -/
def pages (server : Turn.Server) : Machine (Pages XID) (Exchange XID) :=
  .ofNext ⟨(machine env server).init, fun _ ↦ 0, fun _ ↦ none, fun _ ↦ []⟩ (Pages.next env)

end Screego
