import Mathlib.Data.Int.Order.Basic
import Screego.Config.PortRange
import Screego.Net.IP

/-!
# Sockets for relays

The TURN server asks a generator for a socket.  With a port range the generator
draws a port from it, in arithmetic modulo 65536, and tries ten times; without
one the system chooses the port.
-/

namespace Screego

/-- `net.UDPAddr`. -/
structure UDPAddr where
  ip : IP
  port : ℕ
  deriving DecidableEq

namespace Turn

/-- `Intn(n)` for one value of the random source; it panics unless `n` is positive. -/
def intn (n : ℤ) (draw : ℕ) : Option ℕ := if n ≤ 0 then none else some (draw % n.toNat)

/-- The argument `int((r.MaxPort+1)-r.MinPort)` of `Intn`. -/
def portCount (minPort maxPort : UInt16) : ℤ := ((maxPort + 1) - minPort).toNat

/-- The port that `AllocatePacketConn` tries. -/
def drawPort (minPort maxPort : UInt16) (draw : ℕ) : Option UInt16 := do
  let k ← intn (portCount minPort maxPort) draw
  return minPort + UInt16.ofNat k

/-- The generators `RelayAddressGeneratorNone` and `RelayAddressGeneratorPortRange`. -/
inductive RelayAddressGenerator where
  | none
  | portRange (minPort maxPort : UInt16)
  deriving DecidableEq

/-- `generator(conf)`. -/
def generator (quote : String → String) (turnPortRange : String) : RelayAddressGenerator :=
  let (min, max, useRange) := portRange quote turnPortRange
  if useRange then .portRange min max else .none

/-- The outside of an allocation: the random source, and the local address of the socket that
`ListenPacket` opens on a port.  Both are streams of which an allocation reads a piece. -/
structure Sockets where
  rand : ℕ → ℕ
  listenPacket : ℕ → ℕ → Except String UDPAddr

variable (sockets : Sockets)

/-- The loop of `AllocatePacketConn`, with the number of tries that are left. -/
def tryPorts (minPort maxPort : UInt16) : ℕ → ℕ → Option (Except String UDPAddr)
  | 0, _ => some (.error "could not find free port: max retries exceeded")
  | tries + 1, tick => do
      let port ← drawPort minPort maxPort (sockets.rand tick)
      match sockets.listenPacket tick port.toNat with
      | .error _ => tryPorts minPort maxPort tries (tick + 1)
      | .ok relayAddr => some (.ok relayAddr)

/-- `AllocatePacketConn` of the two generators: the local address of the socket, which is also
the relay address.  `none` is a panic. -/
def RelayAddressGenerator.allocatePacketConn (r : RelayAddressGenerator) (tick : ℕ)
    (requestedPort : ℕ) : Option (Except String UDPAddr) :=
  match r with
  | .none => some (sockets.listenPacket tick requestedPort)
  | .portRange minPort maxPort =>
      if requestedPort ≠ 0 then some (sockets.listenPacket tick requestedPort)
      else tryPorts sockets minPort maxPort 10 tick

/-! ## Arithmetic -/

theorem intn_eq_some {n : ℤ} {draw k : ℕ} :
    intn n draw = some k ↔ 0 < n ∧ draw % n.toNat = k := by
  unfold intn
  split
  · next h => exact ⟨nofun, fun hpos ↦ absurd hpos.1 (not_lt.mpr h)⟩
  · next h => rw [Option.some.injEq, and_iff_right (not_le.mp h)]

section Arithmetic

variable {minPort maxPort : UInt16}

/-- Also at the upper end, where `MaxPort+1` is zero. -/
theorem portCount_eq (hmin : minPort ≠ 0) (hle : minPort ≤ maxPort) :
    portCount minPort maxPort = maxPort.toNat - minPort.toNat + 1 := by
  have hpos : minPort.toNat ≠ 0 := fun h ↦ hmin (UInt16.toNat_inj.mp h)
  have hle' := UInt16.le_iff_toNat_le.mp hle
  have hmax := maxPort.toNat_lt
  rw [portCount, UInt16.toNat_sub, UInt16.toNat_add, UInt16.toNat_one]
  omega

theorem toNat_add_ofNat (hle : minPort ≤ maxPort) {k : ℕ}
    (hk : k ≤ maxPort.toNat - minPort.toNat) :
    (minPort + UInt16.ofNat k).toNat = minPort.toNat + k := by
  have hle' := UInt16.le_iff_toNat_le.mp hle
  have hmax := maxPort.toNat_lt
  rw [UInt16.toNat_add, UInt16.toNat_ofNat']
  omega

/-- A draw never panics and stays in the range. -/
theorem drawPort_mem (hmin : minPort ≠ 0) (hle : minPort ≤ maxPort) (draw : ℕ) :
    ∃ port, drawPort minPort maxPort draw = some port ∧ minPort ≤ port ∧ port ≤ maxPort := by
  have hcount := portCount_eq hmin hle
  have hle' := UInt16.le_iff_toNat_le.mp hle
  have hpos : 0 < portCount minPort maxPort := by omega
  have hk : draw % (portCount minPort maxPort).toNat ≤ maxPort.toNat - minPort.toNat := by
    have hlt := Nat.mod_lt draw (Int.pos_iff_toNat_pos.mp hpos)
    omega
  have hvalue := toNat_add_ofNat hle hk
  refine ⟨minPort + UInt16.ofNat (draw % (portCount minPort maxPort).toNat), ?_,
    UInt16.le_iff_toNat_le.mpr ?_, UInt16.le_iff_toNat_le.mpr ?_⟩
  · rw [drawPort, intn_eq_some.mpr ⟨hpos, rfl⟩]
    rfl
  · omega
  · omega

/-- Every port of the range is drawn. -/
theorem exists_drawPort (hmin : minPort ≠ 0) {port : UInt16} (hle : minPort ≤ port)
    (hle' : port ≤ maxPort) : ∃ draw : ℕ, draw < portCount minPort maxPort ∧
      drawPort minPort maxPort draw = some port := by
  have hcount := portCount_eq hmin (UInt16.le_trans hle hle')
  have hport := UInt16.le_iff_toNat_le.mp hle
  have hport' := UInt16.le_iff_toNat_le.mp hle'
  have hlt : port.toNat - minPort.toNat < (portCount minPort maxPort).toNat := by omega
  refine ⟨port.toNat - minPort.toNat, by omega, ?_⟩
  rw [drawPort, intn_eq_some.mpr ⟨by omega, Nat.mod_eq_of_lt hlt⟩]
  refine congrArg some (UInt16.toNat_inj.mp ?_)
  rw [toNat_add_ofNat (UInt16.le_trans hle hle') (by omega)]
  omega

end Arithmetic

/-! ## Allocations -/

variable (minPort maxPort : UInt16)

/-- The try at `tick` draws a port and listens on that port, with this result. -/
def TriesPort (tick : ℕ) (result : Except String UDPAddr) : Prop :=
  ∃ port, drawPort minPort maxPort (sockets.rand tick) = some port ∧
    sockets.listenPacket tick port.toNat = result

/-- The first of the tries from `tick` on that opens a socket opens this one. -/
def FirstSocket (tries tick : ℕ) (relayAddr : UDPAddr) : Prop :=
  ∃ n < tries, TriesPort sockets minPort maxPort (tick + n) (.ok relayAddr) ∧
    ∀ m < n, ∃ err, TriesPort sockets minPort maxPort (tick + m) (.error err)

def NoSocket (tries tick : ℕ) : Prop :=
  ∀ n < tries, ∃ err, TriesPort sockets minPort maxPort (tick + n) (.error err)

variable {sockets} {minPort maxPort}

theorem firstSocket_succ {tries tick : ℕ} {relayAddr : UDPAddr} :
    FirstSocket sockets minPort maxPort (tries + 1) tick relayAddr ↔
      TriesPort sockets minPort maxPort tick (.ok relayAddr) ∨
        (∃ err, TriesPort sockets minPort maxPort tick (.error err)) ∧
          FirstSocket sockets minPort maxPort tries (tick + 1) relayAddr := by
  have hshift (n : ℕ) : tick + (n + 1) = tick + 1 + n := by rw [Nat.add_comm n 1, Nat.add_assoc]
  constructor
  · rintro ⟨_ | n, hn, hok, hbefore⟩
    · exact Or.inl hok
    · refine Or.inr ⟨hbefore 0 (Nat.succ_pos n), n, Nat.lt_of_succ_lt_succ hn, ?_, fun m hm ↦ ?_⟩
      · rwa [← hshift]
      · rw [← hshift]
        exact hbefore (m + 1) (Nat.succ_lt_succ hm)
  · rintro (hok | ⟨herror, n, hn, hok, hbefore⟩)
    · exact ⟨0, Nat.succ_pos _, hok, fun _ hm ↦ absurd hm (Nat.not_lt_zero _)⟩
    · refine ⟨n + 1, Nat.succ_lt_succ hn, by rwa [hshift], fun m hm ↦ ?_⟩
      cases m with
      | zero => exact herror
      | succ m =>
          rw [hshift]
          exact hbefore m (Nat.lt_of_succ_lt_succ hm)

theorem noSocket_succ {tries tick : ℕ} : NoSocket sockets minPort maxPort (tries + 1) tick ↔
    (∃ err, TriesPort sockets minPort maxPort tick (.error err)) ∧
      NoSocket sockets minPort maxPort tries (tick + 1) := by
  unfold NoSocket
  rw [Nat.forall_lt_succ_left]
  refine and_congr_right' (forall₂_congr fun n _ ↦ ?_)
  rw [Nat.add_comm n 1, ← Nat.add_assoc]

/-- One round of the loop. -/
theorem tryPorts_succ {tries tick : ℕ} {port : UInt16}
    (hport : drawPort minPort maxPort (sockets.rand tick) = some port) :
    (∃ err, TriesPort sockets minPort maxPort tick (.error err) ∧
      tryPorts sockets minPort maxPort (tries + 1) tick =
        tryPorts sockets minPort maxPort tries (tick + 1) ∧
      ∀ relayAddr, ¬ TriesPort sockets minPort maxPort tick (.ok relayAddr)) ∨
    ∃ relayAddr, TriesPort sockets minPort maxPort tick (.ok relayAddr) ∧
      tryPorts sockets minPort maxPort (tries + 1) tick = some (.ok relayAddr) ∧
      ∀ result, TriesPort sockets minPort maxPort tick result → result = .ok relayAddr := by
  have hunique : ∀ result, TriesPort sockets minPort maxPort tick result →
      result = sockets.listenPacket tick port.toNat := by
    rintro result ⟨port', hport', hlisten⟩
    rw [← hlisten, Option.some.inj (hport'.symm.trans hport)]
  rw [tryPorts, hport, Option.bind_eq_bind, Option.bind_some]
  cases hlisten : sockets.listenPacket tick port.toNat with
  | error err =>
      refine Or.inl ⟨err, ⟨port, hport, hlisten⟩, rfl, fun relayAddr h ↦ ?_⟩
      have heq := hunique _ h
      rw [hlisten] at heq
      cases heq
  | ok relayAddr =>
      exact Or.inr ⟨relayAddr, ⟨port, hport, hlisten⟩, rfl,
        fun result h ↦ (hunique _ h).trans hlisten⟩

/-- The loop gives the first socket that it opens. -/
theorem tryPorts_eq_ok (hmin : minPort ≠ 0) (hle : minPort ≤ maxPort) {tries tick : ℕ}
    {relayAddr : UDPAddr} : tryPorts sockets minPort maxPort tries tick = some (.ok relayAddr) ↔
      FirstSocket sockets minPort maxPort tries tick relayAddr := by
  induction tries generalizing tick with
  | zero => exact ⟨nofun, fun ⟨_, hn, _⟩ ↦ absurd hn (Nat.not_lt_zero _)⟩
  | succ tries ih =>
      obtain ⟨port, hport, -, -⟩ := drawPort_mem hmin hle (sockets.rand tick)
      rw [firstSocket_succ, ← ih]
      rcases tryPorts_succ hport with ⟨err, herror, heq, hnot⟩ | ⟨addr, hok, heq, hunique⟩
      · rw [heq, or_iff_right (hnot _), and_iff_right ⟨err, herror⟩]
      · rw [heq, or_iff_left fun ⟨⟨err, herror⟩, _⟩ ↦ nomatch hunique _ herror]
        refine ⟨fun h ↦ ?_, fun h ↦ congrArg some (hunique _ h).symm⟩
        rwa [← Option.some.inj h]

/-- It gives up only after every try failed. -/
theorem tryPorts_eq_error (hmin : minPort ≠ 0) (hle : minPort ≤ maxPort) {tries tick : ℕ}
    {err : String} : tryPorts sockets minPort maxPort tries tick = some (.error err) ↔
      err = "could not find free port: max retries exceeded" ∧
        NoSocket sockets minPort maxPort tries tick := by
  induction tries generalizing tick with
  | zero =>
      rw [tryPorts, Option.some.injEq, Except.error.injEq, eq_comm]
      exact (and_iff_left fun n hn ↦ absurd hn (Nat.not_lt_zero n)).symm
  | succ tries ih =>
      obtain ⟨port, hport, -, -⟩ := drawPort_mem hmin hle (sockets.rand tick)
      rw [noSocket_succ, and_left_comm, ← ih]
      rcases tryPorts_succ hport with ⟨err', herror, heq, -⟩ | ⟨addr, hok, heq, hunique⟩
      · rw [heq, and_iff_right ⟨err', herror⟩]
      · rw [heq]
        exact iff_of_false nofun fun ⟨⟨err', herror⟩, _⟩ ↦ nomatch hunique _ herror

/-- The loop does not panic. -/
theorem exists_tryPorts (hmin : minPort ≠ 0) (hle : minPort ≤ maxPort) (tries tick : ℕ) :
    ∃ result, tryPorts sockets minPort maxPort tries tick = some result := by
  induction tries generalizing tick with
  | zero => exact ⟨_, rfl⟩
  | succ tries ih =>
      obtain ⟨port, hport, -, -⟩ := drawPort_mem hmin hle (sockets.rand tick)
      rcases tryPorts_succ hport with ⟨_, -, heq, -⟩ | ⟨_, -, heq, -⟩
      · rw [heq]
        exact ih (tick + 1)
      · exact ⟨_, heq⟩

/-- A try listens in the range. -/
theorem TriesPort.mem (hmin : minPort ≠ 0) (hle : minPort ≤ maxPort) {tick : ℕ}
    {result : Except String UDPAddr} (h : TriesPort sockets minPort maxPort tick result) :
    ∃ port, minPort ≤ port ∧ port ≤ maxPort ∧
      sockets.listenPacket tick port.toNat = result := by
  obtain ⟨port, hport, hlisten⟩ := h
  obtain ⟨port', hport', hlo, hhi⟩ := drawPort_mem hmin hle (sockets.rand tick)
  obtain rfl := Option.some.inj (hport.symm.trans hport')
  exact ⟨port, hlo, hhi, hlisten⟩

theorem allocatePacketConn_range (tick : ℕ) :
    (RelayAddressGenerator.portRange minPort maxPort).allocatePacketConn sockets tick 0 =
      tryPorts sockets minPort maxPort 10 tick := by
  rw [RelayAddressGenerator.allocatePacketConn, if_neg (not_not.mpr rfl)]

/-- An allocation panics at most in the arithmetic of the range. -/
theorem RelayAddressGenerator.exists_result {r : RelayAddressGenerator}
    (h : ∀ min max, r = .portRange min max → min ≠ 0 ∧ min ≤ max) (tick requestedPort : ℕ) :
    ∃ result, r.allocatePacketConn sockets tick requestedPort = some result := by
  unfold RelayAddressGenerator.allocatePacketConn
  cases r with
  | none => exact ⟨_, rfl⟩
  | portRange min max =>
      dsimp only
      split
      · exact ⟨_, rfl⟩
      · exact exists_tryPorts (h min max rfl).1 (h min max rfl).2 10 tick

end Turn
end Screego
