import Screego.Config.IPDNS
import Screego.Turn.PortRange

/-!
# The address that a relay advertises

The TURN server advertises the external address instead of the one the socket is
bound to, with the family of the socket if the provider has an address of it.
-/

namespace Screego
namespace Turn

open IPDNS

/-- `Generator`: where the sockets and the external address come from. -/
structure Generator where
  relayAddressGenerator : RelayAddressGenerator
  ipProvider : Provider

/-- `Generator.AllocatePacketConn`: the local address of the socket and the relay address. -/
def Generator.allocatePacketConn (sockets : Sockets) (network : Network) (r : Generator)
    (tick requestedPort : ℕ) : Option (Except String (UDPAddr × UDPAddr) × Generator) := do
  match ← r.relayAddressGenerator.allocatePacketConn sockets tick requestedPort with
  | .error err => return (.error err, r)
  | .ok addr =>
      let (got, ipProvider) := r.ipProvider.get network tick
      let r := { r with ipProvider := ipProvider }
      match got with
      | .error err => return (.error err, r)
      | .ok (v4, v6) =>
          if v6 = [] ∨ (addr.ip.to4.isSome ∧ v4 ≠ []) then
            return (.ok (addr, { addr with ip := v4 }), r)
          else return (.ok (addr, { addr with ip := v6 }), r)

/-- The relay address goes with the socket as far as the addresses allow. -/
structure Advertises (addr relayAddr : UDPAddr) (v4 v6 : IP) : Prop where
  given : relayAddr.ip = v4 ∨ relayAddr.ip = v6
  port : relayAddr.port = addr.port
  ne_nil : relayAddr.ip ≠ []
  v4 : addr.ip.to4.isSome → v4 ≠ [] → relayAddr.ip.to4.isSome
  v6 : addr.ip.to4 = none → v6 ≠ [] → relayAddr.ip.to4 = none

variable {sockets : Sockets} {network : Network} {r r' : Generator} {tick requestedPort : ℕ}
  {addr relayAddr : UDPAddr} {v4 v6 : IP}

/-- Once there are a socket and an address, the address is advertised. -/
theorem Generator.allocatePacketConn_of_socket
    (hsocket : r.relayAddressGenerator.allocatePacketConn sockets tick requestedPort =
      some (.ok addr))
    (hget : (r.ipProvider.get network tick).1 = .ok (v4, v6)) (h : ByFamily v4 v6) :
    ∃ relayAddr r', r.allocatePacketConn sockets network tick requestedPort =
      some (.ok (addr, relayAddr), r') ∧ Advertises addr relayAddr v4 v6 := by
  rw [Generator.allocatePacketConn, hsocket, Option.bind_eq_bind, Option.bind_some]
  dsimp only
  rw [hget]
  dsimp only
  split
  · next hv4 =>
      have hne : v4 ≠ [] := hv4.elim
        (fun hv6 ↦ h.exists_address.resolve_right (not_not.mpr hv6)) And.right
      refine ⟨_, _, rfl, Or.inl rfl, rfl, hne, fun _ _ ↦ h.v4 hne, fun hfour hv6 ↦ ?_⟩
      rcases hv4 with hnil | ⟨hsome, -⟩
      · exact absurd hnil hv6
      · rw [hfour] at hsome
        cases hsome
  · next hv6 =>
      obtain ⟨hne, hother⟩ := not_or.mp hv6
      exact ⟨_, _, rfl, Or.inr rfl, rfl, hne, fun hfour hv4 ↦ absurd ⟨hfour, hv4⟩ hother,
        fun _ _ ↦ h.v6 hne⟩

/-- An allocation panics only if its socket does. -/
theorem Generator.exists_result {result : Except String UDPAddr}
    (h : r.relayAddressGenerator.allocatePacketConn sockets tick requestedPort = some result) :
    ∃ result r', r.allocatePacketConn sockets network tick requestedPort = some (result, r') := by
  rw [Generator.allocatePacketConn, h, Option.bind_eq_bind, Option.bind_some]
  cases result with
  | error err => exact ⟨_, _, rfl⟩
  | ok addr =>
      dsimp only
      cases (r.ipProvider.get network tick).1 with
      | error err => exact ⟨_, _, rfl⟩
      | ok addresses =>
          dsimp only
          split
          · exact ⟨_, _, rfl⟩
          · exact ⟨_, _, rfl⟩

/-- There are no other addresses to advertise. -/
theorem Generator.allocatePacketConn_ok
    (hget : ∀ v4 v6, (r.ipProvider.get network tick).1 = .ok (v4, v6) → ByFamily v4 v6)
    (h : r.allocatePacketConn sockets network tick requestedPort =
      some (.ok (addr, relayAddr), r')) :
    r.relayAddressGenerator.allocatePacketConn sockets tick requestedPort = some (.ok addr) ∧
    ∃ v4 v6, (r.ipProvider.get network tick).1 = .ok (v4, v6) ∧
      Advertises addr relayAddr v4 v6 := by
  obtain ⟨result, hresult, hrest⟩ := Option.bind_eq_some_iff.mp h
  cases result with
  | error err => cases hrest
  | ok addr' =>
      dsimp only at hrest
      cases hgot : (r.ipProvider.get network tick).1 with
      | error err =>
          rw [hgot] at hrest
          cases hrest
      | ok addresses =>
          obtain ⟨v4, v6⟩ := addresses
          obtain ⟨relayAddr', r'', hok, hadvertises⟩ :=
            allocatePacketConn_of_socket hresult hgot (hget v4 v6 hgot)
          obtain ⟨heq, -⟩ := Prod.mk.inj (Option.some.inj (hok.symm.trans h))
          obtain ⟨rfl, rfl⟩ := Prod.mk.inj (Except.ok.inj heq)
          exact ⟨hresult, v4, v6, rfl, hadvertises⟩

end Turn
end Screego
