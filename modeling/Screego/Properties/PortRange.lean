import Screego.Turn.PortRange

/-!
# The port range is respected

A setting without a fatal log gives no range, or a range that starts above zero.
There the arithmetic on 16 bits draws exactly the ports of the range.
-/

namespace Screego

open Turn

variable {quote : String → String} {turnPortRange : String}

/-- What the TURN server makes of the setting. -/
structure RespectsPortRange (quote : String → String) (turnPortRange : String) : Prop where
  none_iff : generator quote turnPortRange = .none ↔ turnPortRange = "" ∨
    ∃ a b, turnPortRange = a ++ (":" ++ b) ∧ Strconv.parseUint a 16 = .ok 0 ∧
      Strconv.parseUint b 16 = .ok 0
  range : ∀ min max, generator quote turnPortRange = .portRange min max →
    1 ≤ min.toNat ∧ min.toNat ≤ max.toNat ∧ max.toNat ≤ 65535
  intn_pos : ∀ min max, generator quote turnPortRange = .portRange min max →
    0 < portCount min max
  inRange : ∀ min max, generator quote turnPortRange = .portRange min max → ∀ draw,
    ∃ port, drawPort min max draw = some port ∧ min ≤ port ∧ port ≤ max
  covered : ∀ min max, generator quote turnPortRange = .portRange min max → ∀ port,
    min ≤ port → port ≤ max → ∃ draw : ℕ, draw < portCount min max ∧
      drawPort min max draw = some port
  /-- An allocation does not panic, and its socket listens on a port of the range. -/
  allocates : ∀ min max, generator quote turnPortRange = .portRange min max →
    ∀ sockets tick, ∃ result,
      (generator quote turnPortRange).allocatePacketConn sockets tick 0 = some result ∧
      ∀ relayAddr, result = .ok relayAddr → ∃ n port, min ≤ port ∧ port ≤ max ∧
        sockets.listenPacket n port.toNat = .ok relayAddr
  /-- Each of the ten tries listens on the port that it draws, and the first socket is the one. -/
  socket : ∀ min max, generator quote turnPortRange = .portRange min max →
    ∀ sockets tick relayAddr,
      (generator quote turnPortRange).allocatePacketConn sockets tick 0 = some (.ok relayAddr) ↔
        FirstSocket sockets min max 10 tick relayAddr
  noSocket : ∀ min max, generator quote turnPortRange = .portRange min max →
    ∀ sockets tick err,
      (generator quote turnPortRange).allocatePacketConn sockets tick 0 = some (.error err) ↔
        err = "could not find free port: max retries exceeded" ∧ NoSocket sockets min max 10 tick

theorem generator_of_zero (h : parsePortRange quote turnPortRange = .ok (0, 0)) :
    generator quote turnPortRange = .none := by
  simp [generator, portRange, h]

theorem generator_of_ne_zero {min max : UInt16}
    (h : parsePortRange quote turnPortRange = .ok (min, max)) (hmin : min ≠ 0) (hmax : max ≠ 0) :
    generator quote turnPortRange = .portRange min max := by
  simp [generator, portRange, h, hmin, hmax]

/-- The generator of a setting without a fatal log has the range that was checked. -/
theorem range_of_generator (h : ∀ log ∈ portRangeLogs quote turnPortRange, log.level ≠ .fatal)
    {min max : UInt16} (hgen : generator quote turnPortRange = .portRange min max) :
    min ≠ 0 ∧ min ≤ max := by
  obtain ⟨lo, hi, hparse, ⟨rfl, rfl⟩ | ⟨hlo, hhi, hle⟩⟩ := parsePortRange_of_not_fatal h
  · rw [generator_of_zero hparse] at hgen
    cases hgen
  · rw [generator_of_ne_zero hparse hlo hhi] at hgen
    cases hgen
    exact ⟨hlo, hle⟩

theorem generator_eq_none_iff
    (h : ∀ log ∈ portRangeLogs quote turnPortRange, log.level ≠ .fatal) :
    generator quote turnPortRange = .none ↔ turnPortRange = "" ∨
      ∃ a b, turnPortRange = a ++ (":" ++ b) ∧ Strconv.parseUint a 16 = .ok 0 ∧
        Strconv.parseUint b 16 = .ok 0 := by
  constructor
  · intro hnone
    by_cases hempty : turnPortRange = ""
    · exact Or.inl hempty
    obtain ⟨min, max, hparse, ⟨rfl, rfl⟩ | ⟨hmin, hmax, -⟩⟩ := parsePortRange_of_not_fatal h
    · exact Or.inr ((parsePortRange_eq_ok hempty).mp hparse)
    · rw [generator_of_ne_zero hparse hmin hmax] at hnone
      cases hnone
  · rintro (rfl | ⟨a, b, heq, ha, hb⟩)
    · exact generator_of_zero rfl
    · have hne : turnPortRange ≠ "" := by
        rw [heq]
        simp
      exact generator_of_zero ((parsePortRange_eq_ok hne).mpr ⟨a, b, heq, ha, hb⟩)

theorem port_range_respected
    (h : ∀ log ∈ portRangeLogs quote turnPortRange, log.level ≠ .fatal) :
    RespectsPortRange quote turnPortRange where
  none_iff := generator_eq_none_iff h
  range := by
    intro min max hgen
    obtain ⟨hmin, hle⟩ := range_of_generator h hgen
    have hpos : min.toNat ≠ 0 := fun heq ↦ hmin (UInt16.toNat_inj.mp heq)
    have hmax := max.toNat_lt
    exact ⟨by omega, UInt16.le_iff_toNat_le.mp hle, by omega⟩
  intn_pos := by
    intro min max hgen
    obtain ⟨hmin, hle⟩ := range_of_generator h hgen
    have hle' := UInt16.le_iff_toNat_le.mp hle
    rw [portCount_eq hmin hle]
    omega
  inRange := by
    intro min max hgen draw
    obtain ⟨hmin, hle⟩ := range_of_generator h hgen
    exact drawPort_mem hmin hle draw
  covered := by
    intro min max hgen port hlo hhi
    exact exists_drawPort (range_of_generator h hgen).1 hlo hhi
  allocates := by
    intro min max hgen sockets tick
    obtain ⟨hmin, hle⟩ := range_of_generator h hgen
    rw [hgen, allocatePacketConn_range]
    obtain ⟨result, hresult⟩ := exists_tryPorts hmin hle 10 tick
    refine ⟨result, hresult, ?_⟩
    rintro relayAddr rfl
    obtain ⟨n, -, hok, -⟩ := (tryPorts_eq_ok hmin hle).mp hresult
    exact ⟨_, hok.mem hmin hle⟩
  socket := by
    intro min max hgen sockets tick relayAddr
    obtain ⟨hmin, hle⟩ := range_of_generator h hgen
    rw [hgen, allocatePacketConn_range]
    exact tryPorts_eq_ok hmin hle
  noSocket := by
    intro min max hgen sockets tick err
    obtain ⟨hmin, hle⟩ := range_of_generator h hgen
    rw [hgen, allocatePacketConn_range]
    exact tryPorts_eq_error hmin hle

/-- A range that ends at the last port. -/
theorem port_range_respected_last : RespectsPortRange id "50000:65535" ∧
    generator id "50000:65535" = .portRange 50000 65535 :=
  ⟨port_range_respected (by decide +kernel), by decide +kernel⟩

end Screego
