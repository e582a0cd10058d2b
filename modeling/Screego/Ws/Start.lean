import Screego.Lib.Machine
import Screego.Ws.Events

/-!
# Connections and the main loop

`Upgrade` makes a client and posts its `Connected`; only then do the reader and
the writer of the connection start.  From there on they may post any decoded
frame and any `Disconnected`, in any order and for as long as they like.
-/

namespace Screego

variable {XID : Type} [DecidableEq XID] (env : Env XID)

structure System (XID : Type) where
  rooms : Rooms XID
  /-- Clients whose `Connected` has not been received yet. -/
  dialing : List (ClientInfo XID)
  /-- Clients whose reader and writer were started. -/
  clients : List (ClientInfo XID)

inductive Action (XID : Type) where
  | dial (authenticated : Bool) (authenticatedUser : String) (addr : IP)
  | connect (info : ClientInfo XID)
  | receive (info : ClientInfo XID) (event : Event XID)
  | health

/-- What the reader and the writer of a connection post. -/
def Event.FromClient (event : Event XID) : Prop :=
  match event with
  | .disconnected _ => True
  | event => event.registered.isSome

instance (event : Event XID) : Decidable event.FromClient := by
  unfold Event.FromClient
  split <;> infer_instance

/-- `newClient`: a fresh id for the connection. -/
def newClient (authenticated : Bool) (authenticatedUser : String) (addr : IP) (tick : ℕ) :
    ClientInfo XID :=
  { id := env.xid.new tick, authenticated := authenticated,
    authenticatedUser := authenticatedUser, addr := addr }

namespace System

def Enabled (s : System XID) : Action XID → Prop
  | .dial _ _ _ => True
  | .connect info => info ∈ s.dialing
  | .receive info event => info ∈ s.clients ∧ event.FromClient
  | .health => True

instance (s : System XID) (a : Action XID) : Decidable (s.Enabled a) := by
  cases a <;> unfold Enabled <;> infer_instance

/-- The sender of the message that `Count` posts. -/
def nobody : ClientInfo XID :=
  { id := env.xid.nilID, authenticated := false, authenticatedUser := "", addr := [] }

/-- One action of the system; `none` is a panic of the main loop. -/
def next (s : System XID) : Action XID → Option (System XID)
  | .dial authenticated authenticatedUser addr =>
      some { s with
        rooms := { s.rooms with world := s.rooms.world.draw 1 }
        dialing := newClient env authenticated authenticatedUser addr s.rooms.world.tick ::
          s.dialing }
  | .connect info => do
      let rooms ← s.rooms.start env ⟨info, true, .connected⟩
      return { rooms := rooms, dialing := s.dialing.erase info, clients := info :: s.clients }
  | .receive info event => do
      let rooms ← s.rooms.start env ⟨info, false, event⟩
      return { s with rooms := rooms }
  | .health => do
      let rooms ← s.rooms.start env ⟨nobody env, true, .health⟩
      return { s with rooms := rooms }

end System

/-- The server, started with the given TURN server. -/
def machine (server : Turn.Server) : Machine (System XID) (Action XID) where
  init := ⟨newRooms server, [], []⟩
  step s a t := s.Enabled a ∧ s.next env a = some t

/-! ## Scripts -/

/-- Take an action and record it; one that is not enabled is passed over. -/
def System.play (h : List (System XID × Action XID) × System XID) (a : Action XID) :
    List (System XID × Action XID) × System XID :=
  if h.2.Enabled a then
    match h.2.next env a with
    | none => h
    | some t => (h.1 ++ [(h.2, a)], t)
  else h

/-- The run that a script makes: its steps and its last state. -/
def System.history (server : Turn.Server) (script : List (Action XID)) :
    List (System XID × Action XID) × System XID :=
  script.foldl (System.play env) ([], (machine env server).init)

/-- The state after a script. -/
def System.after (server : Turn.Server) (script : List (Action XID)) : System XID :=
  (System.history env server script).2

theorem System.run_history (server : Turn.Server) (script : List (Action XID)) :
    (machine env server).Run (machine env server).init (System.history env server script).1
      (System.history env server script).2 := by
  refine Machine.run_foldl (fun h a hrun ↦ ?_) script
  unfold System.play
  split
  · next henabled =>
      split
      · exact hrun
      · next t hnext => exact hrun.snoc ⟨henabled, hnext⟩
  · exact hrun

theorem System.reachable_after (server : Turn.Server) (script : List (Action XID)) :
    (machine env server).Reachable (System.after env server script) :=
  ⟨_, System.run_history env server script⟩

theorem System.step_after {server : Turn.Server} {script : List (Action XID)} {a : Action XID}
    (henabled : (System.after env server script).Enabled a)
    (hnext : ((System.after env server script).next env a).isSome) :
    (machine env server).step (System.after env server script) a
      (System.after env server (script ++ [a])) := by
  obtain ⟨t, ht⟩ := Option.isSome_iff_exists.mp hnext
  have hafter : System.after env server (script ++ [a]) = t := by
    have henabled' : (System.history env server script).2.Enabled a := henabled
    have hplay : System.after env server (script ++ [a]) =
        (System.play env (System.history env server script) a).2 := by
      rw [System.after, System.history, List.foldl_append]
      rfl
    rw [hplay, System.play, if_pos henabled']
    split
    · next hnone => exact absurd (hnone.symm.trans ht) (by simp)
    · next t' ht' => exact Option.some.inj (ht'.symm.trans ht)
  rw [hafter]
  exact ⟨henabled, ht⟩

/-- Three clients connect without a login; their ids are 0, 1 and 2. -/
def guest (id : ℕ) : ClientInfo ℕ := ⟨id, false, "", [127, 0, 0, 1]⟩

def arrivals : List (Action ℕ) :=
  List.replicate 3 (.dial false "" [127, 0, 0, 1]) ++ [0, 1, 2].map fun k ↦ .connect (guest k)

/-- The first of them opens a room and the second joins it. -/
def meeting (mode : ConnectionMode) : List (Action ℕ) :=
  arrivals ++ [.receive (guest 0) (.create ⟨"lobby", mode, false, "", false⟩),
    .receive (guest 1) (.join ⟨"lobby", ""⟩)]

/-- A meeting, and the third client in a room of its own. -/
def neighbours (mode : ConnectionMode) : List (Action ℕ) :=
  meeting mode ++ [.receive (guest 2) (.create ⟨"hall", mode, false, "", false⟩)]

/-- A meeting in which the host shares its screen. -/
def screening (mode : ConnectionMode) : List (Action ℕ) :=
  meeting mode ++ [.receive (guest 0) .startShare]

/-- The owner of a meeting takes the other member out of the room. -/
def expulsion : Action ℕ :=
  .receive (guest 0) (.ownerAction ⟨"kick", "00000000000000000001"⟩)

end Screego
