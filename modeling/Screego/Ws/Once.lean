import Screego.Lib.Machine
import Screego.Ws.Events

/-!
# Callers of `once.Do`

Goroutines call `Do` on one value, each call with a function of its own, and
their steps come in any order.  A step is one operation on the fields of the
value or one statement of a function; the mutex is free again before the
function starts.
-/

namespace Screego

structure Once where
  /-- The mutex is locked. -/
  m : Bool := false
  done : UInt32 := 0

namespace Once

/-- What a call of `Do` is about to do.  `σ` are the statements of the functions. -/
inductive Caller (σ : Type) where
  /-- `atomic.LoadUint32(&o.done) == 1` -/
  | load
  /-- `o.m.Lock()` -/
  | lock
  /-- `o.done == 0` -/
  | check
  /-- `atomic.StoreUint32(&o.done, 1)` -/
  | store
  /-- The deferred `o.m.Unlock()`, with the result of `mayExecute`. -/
  | unlock (execute : Bool)
  /-- `f()` -/
  | call
  /-- The rest of `f`. -/
  | running (rest : List σ)
  /-- Nothing more; `executed` says whether the call ran its function. -/
  | returned (executed : Bool)
  deriving DecidableEq

/-- Callers of `Do` on one value, with the functions they hand over, what the functions' statements
do (the second argument is an error that a statement may meet), and what else goes on. -/
structure Callers (ι σ A W : Type) where
  f : ι → List σ
  exec : σ → Option String → W → W
  other : A → W → Option W
  world : W

structure State (ι σ W : Type) where
  once : Once
  caller : ι → Caller σ
  world : W

inductive Act (ι A : Type) where
  | caller (i : ι) (err : Option String)
  | other (a : A)

variable {ι σ A W : Type}

/-- One step of the call `i`; `none` where it has to wait, or is over. -/
def Callers.step (o : Callers ι σ A W) (i : ι) (err : Option String) (once : Once) (w : W) :
    Caller σ → Option (Caller σ × Once × W)
  | .load => some (if once.done = 1 then .returned false else .lock, once, w)
  | .lock => if once.m then none else some (.check, { once with m := true }, w)
  | .check => some (if once.done = 0 then .store else .unlock false, once, w)
  | .store => some (.unlock true, { once with done := 1 }, w)
  -- to unlock a mutex that is not locked is a fatal error
  | .unlock execute =>
      if once.m then
        some (if execute then .call else .returned false, { once with m := false }, w)
      else none
  | .call => some (.running (o.f i), once, w)
  | .running [] => some (.returned true, once, w)
  | .running (x :: rest) => some (.running rest, once, o.exec x err w)
  | .returned _ => none

variable [DecidableEq ι]

def Callers.next (o : Callers ι σ A W) (s : State ι σ W) : Act ι A → Option (State ι σ W)
  | .caller i err =>
      (o.step i err s.once s.world (s.caller i)).map fun t ↦
        { once := t.2.1, caller := Function.update s.caller i t.1, world := t.2.2 }
  | .other a => (o.other a s.world).map fun w ↦ { s with world := w }

/-- All interleavings of the calls. -/
def Callers.machine (o : Callers ι σ A W) : Machine (State ι σ W) (Act ι A) :=
  .ofNext ⟨{}, fun _ ↦ .load, o.world⟩ o.next

end Once

/-! ## Closing a connection -/

/-- The statements of the functions that `CloseOnError` and `CloseOnDone` hand to `Do`. -/
inductive CloseStatement where
  /-- `go func() { c.read <- ClientMessage{…} }()` -/
  | post (disconnected : Disconnected)
  /-- `c.conn.WriteControl(websocket.CloseMessage, message, …)` -/
  | writeControl (code : ℤ) (reason : String)
  /-- `c.conn.Close()` -/
  | close

def writeCloseMessage (code : ℤ) (reason : String) : List CloseStatement :=
  [.writeControl code reason, .close]

inductive CloseCall where
  | closeOnError (code : ℤ) (reason : String)
  | closeOnDone (code : ℤ) (reason : String)

/-- The function that the call hands to `Do`. -/
def CloseCall.f : CloseCall → List CloseStatement
  | .closeOnError code reason => .post ⟨code, reason⟩ :: writeCloseMessage code reason
  | .closeOnDone code reason => writeCloseMessage code reason

structure Connection where
  /-- Started goroutines that still offer their message. -/
  posting : List Disconnected := []
  /-- What the main loop took from them. -/
  posted : List Disconnected := []
  /-- The close frames written. -/
  frames : List (ℤ × String) := []
  closed : Bool := false

/-- An error of `WriteControl` is ignored; nothing can be written to a closed connection. -/
def CloseStatement.exec : CloseStatement → Option String → Connection → Connection
  | .post disconnected, _, c => { c with posting := disconnected :: c.posting }
  | .writeControl code reason, err, c =>
      if err.isSome ∨ c.closed then c else { c with frames := c.frames ++ [(code, reason)] }
  | .close, _, c => { c with closed := true }

inductive Elsewhere where
  /-- The main loop takes a posted message. -/
  | take (disconnected : Disconnected)
  /-- The other end closes the connection, or the writer returns. -/
  | close

def Elsewhere.next : Elsewhere → Connection → Option Connection
  | .take disconnected, c =>
      if disconnected ∈ c.posting then
        some { c with
          posting := c.posting.erase disconnected
          posted := c.posted ++ [disconnected] }
      else none
  | .close, c => some { c with closed := true }

/-- Callers of `CloseOnError` and `CloseOnDone` on one client. -/
def closeCalls {ι : Type} (call : ι → CloseCall) :
    Once.Callers ι CloseStatement Elsewhere Connection where
  f i := (call i).f
  exec := CloseStatement.exec
  other := Elsewhere.next
  world := {}

end Screego
