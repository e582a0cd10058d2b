import Screego.Util.Random

/-!
# TURN credentials

The internal server keeps a lookup table of the usernames it accepts.  The
external server signs a username with an expiry time and keeps nothing, so it
cannot revoke.
-/

namespace Screego
namespace Turn

def realm : String := "screego"

structure Entry where
  addr : IP
  password : List UInt8
  deriving DecidableEq

structure InternalServer where
  lookup : GoMap String Entry

structure ExternalServer where
  secret : List UInt8
  ttl : ℤ

/-- The two implementations of the interface `turn.Server`. -/
inductive Server where
  | internal (a : InternalServer)
  | external (a : ExternalServer)

variable {XID : Type} (env : Env XID)

def InternalServer.allow (a : InternalServer) (username password : String) (addr : IP) :
    InternalServer :=
  ⟨a.lookup.insert username ⟨addr, env.generateAuthKey username realm password⟩⟩

def InternalServer.disallow (a : InternalServer) (username : String) : InternalServer :=
  ⟨a.lookup.erase username⟩

/-- The key of an accepted username. -/
def InternalServer.authenticate (a : InternalServer) (username : String) : Option (List UInt8) :=
  (a.lookup.lookup username).map Entry.password

/-- `Credentials(id, addr)`: username, password, the server after the call, and the next draw. -/
def Server.credentials (s : Server) (tick : ℕ) (id : String) (addr : IP) :
    String × String × Server × ℕ :=
  match s with
  | .internal a =>
      let password := Util.randString env tick 20
      (id, password, .internal (a.allow env id password addr), tick + 20)
  | .external a =>
      let username := toString (env.now tick + a.ttl) ++ ":" ++ id
      (username, env.hmacSHA1 a.secret username, .external a, tick + 1)

def Server.disallow (s : Server) (username : String) : Server :=
  match s with
  | .internal a => .internal (a.disallow username)
  | .external a => .external a  -- not supported, will expire on TTL

/-- The accepted entry of a username; the external server has none. -/
def Server.entry (s : Server) (username : String) : Option Entry :=
  match s with
  | .internal a => a.lookup.lookup username
  | .external _ => none

def Server.IsInternal (s : Server) : Prop :=
  match s with
  | .internal _ => True
  | .external _ => False

theorem InternalServer.authenticate_isSome {a : InternalServer} {username : String} :
    (a.authenticate username).isSome ↔ username ∈ a.lookup.keys := by
  rw [authenticate, Option.isSome_map, GoMap.mem_keys, Option.isSome_iff_exists]

@[simp] theorem Server.isInternal_disallow (s : Server) (username : String) :
    (s.disallow username).IsInternal ↔ s.IsInternal := by
  cases s <;> rfl

theorem Server.entry_disallow (s : Server) (username name : String) :
    (s.disallow username).entry name = if name = username then none else s.entry name := by
  cases s with
  | internal a => exact GoMap.lookup_erase a.lookup username name
  | external a => simp [disallow, entry]

theorem Server.isInternal_credentials (s : Server) (tick : ℕ) (id : String) (addr : IP) :
    (s.credentials env tick id addr).2.2.1.IsInternal ↔ s.IsInternal := by
  cases s <;> rfl

theorem Server.entry_credentials_of_ne (s : Server) (tick : ℕ) (id : String) (addr : IP)
    {name : String} (h : name ≠ id) :
    (s.credentials env tick id addr).2.2.1.entry name = s.entry name := by
  cases s with
  | internal a => exact GoMap.lookup_insert_of_ne h
  | external a => rfl

theorem Server.entry_credentials_self (s : Server) (tick : ℕ) (id : String) (addr : IP)
    (hs : s.IsInternal) : ((s.credentials env tick id addr).2.2.1.entry id).isSome := by
  cases s with
  | internal a =>
      simp [credentials, entry, InternalServer.allow]
  | external a => cases hs

theorem Server.credentials_username (s : Server) (tick : ℕ) (id : String) (addr : IP)
    (hs : s.IsInternal) : (s.credentials env tick id addr).1 = id := by
  cases s with
  | internal a => rfl
  | external a => cases hs

theorem Server.lt_credentials_tick (s : Server) (tick : ℕ) (id : String) (addr : IP) :
    tick < (s.credentials env tick id addr).2.2.2 := by
  cases s with
  | internal a => exact Nat.lt_add_of_pos_right (by decide)
  | external a => exact Nat.lt_succ_self tick

end Turn
end Screego
