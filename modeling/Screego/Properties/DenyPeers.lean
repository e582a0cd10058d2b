import Screego.Properties.Startup

/-!
# Peers that the TURN server denies

A server that runs has parsed every range of its setting, and its permission
handler admits exactly the peers outside of them.  It makes no difference in
which length an address comes, so a mapped address is no way around.
-/

namespace Screego

open Turn IPNet

variable {launch : Launch} {service : Service}

theorem permissions_iff {texts : List String} {nets : List IPNet}
    (h : texts.map parseCIDR = nets.map some) (peer : IP) :
    permissions nets peer = true ↔
      ∀ text ∈ texts, ∀ range, rangeOf text = some range → ¬ range.Has peer := by
  induction texts generalizing nets with
  | nil =>
      obtain rfl := List.map_eq_nil_iff.mp h.symm
      simp [permissions]
  | cons text texts ih =>
      obtain ⟨net, nets, rfl, hnet, hnets⟩ := List.map_eq_cons_iff.mp h.symm
      obtain ⟨range, hrange, hcontains⟩ := contains_of_parseCIDR hnet.symm
      rw [List.forall_mem_cons, permissions, hrange]
      have hone : (∀ range', some range = some range' → ¬ range'.Has peer) ↔
          ¬ net.contains peer = true := by
        rw [hcontains]
        exact ⟨fun h ↦ h range rfl, fun h range' heq ↦ Option.some.inj heq ▸ h⟩
      rw [hone, ← ih hnets.symm]
      split
      · next hmem => exact iff_of_false nofun fun h ↦ h.1 hmem
      · next hmem => exact (and_iff_right hmem).symm

/-! ## The default -/

/-- The addresses that stand for this host, or for the link, in the length of their family. -/
inductive Local : IP → Prop
  | thisNetwork {rest : IP} (h : rest.length = 3) : Local (0 :: rest)
  | loopback {rest : IP} (h : rest.length = 3) : Local (127 :: rest)
  | unspecified6 : Local (List.replicate 16 0)
  | loopback6 : Local (List.replicate 15 0 ++ [1])
  | linkLocal {b : UInt8} {rest : IP} (h : rest.length = 14) (hlo : 0x80 ≤ b) (hhi : b < 0xc0) :
      Local (0xfe :: b :: rest)

theorem has_bytes_iff {bitLen : ℕ} {bytes : List UInt8} {peer : IP} :
    Range.Has ⟨bitLen, Bits.ofBytes bytes⟩ peer ↔
      8 * peer.short.length = bitLen ∧ bytes <+: peer.short :=
  and_congr_right fun _ ↦ Bits.ofBytes_prefix_iff

theorem linkLocal_byte (b : UInt8) :
    [true, false] <+: Bits.ofByte b ↔ 0x80 ≤ b ∧ b < 0xc0 := by
  have hall : ∀ n < 256, [true, false] <+: Bits.ofByte (UInt8.ofNat n) ↔
      0x80 ≤ UInt8.ofNat n ∧ UInt8.ofNat n < 0xc0 := by
    decide +kernel
  have hb := hall b.toNat b.toNat_lt
  rwa [UInt8.ofNat_toNat] at hb

theorem has_linkLocal_iff {peer : IP} :
    Range.Has ⟨128, Bits.ofBytes [0xfe] ++ [true, false]⟩ peer ↔
      ∃ (b : UInt8) (rest : IP), peer.short = 0xfe :: b :: rest ∧ rest.length = 14 ∧
        0x80 ≤ b ∧ b < 0xc0 := by
  unfold Range.Has
  dsimp only
  constructor
  · rintro ⟨hlength, hstart⟩
    match hpeer : peer.short with
    | [] | [_] =>
        rw [hpeer] at hlength
        cases hlength
    | a :: b :: rest =>
        rw [hpeer, List.length_cons, List.length_cons] at hlength
        rw [hpeer, Bits.ofBytes_cons a] at hstart
        have hfirst : Bits.ofBytes [0xfe] = Bits.ofByte a := by
          have hshort := (List.prefix_append (Bits.ofBytes [0xfe]) [true, false]).trans hstart
          have hprefix := List.prefix_append (Bits.ofByte a) (Bits.ofByte b ++ Bits.ofBytes rest)
          refine (List.prefix_of_prefix_length_le hshort hprefix ?_).eq_of_length ?_
          · simp
          · simp
        rw [hfirst, List.prefix_append_right_inj, Bits.ofBytes_cons] at hstart
        have hsecond : [true, false] <+: Bits.ofByte b :=
          List.prefix_of_prefix_length_le hstart (List.prefix_append _ _) (by simp)
        obtain rfl : a = 0xfe := Bits.ofByte_injective (by rw [← hfirst]; rfl)
        exact ⟨b, rest, rfl, by omega, (linkLocal_byte b).mp hsecond⟩
  · rintro ⟨b, rest, hpeer, hrest, hbyte⟩
    rw [hpeer]
    refine ⟨by rw [List.length_cons, List.length_cons, hrest], ?_⟩
    rw [Bits.ofBytes_cons, Bits.ofBytes_cons, Bits.ofBytes_cons, Bits.ofBytes_nil,
      List.append_nil, List.prefix_append_right_inj]
    exact ((linkLocal_byte b).mpr hbyte).trans (List.prefix_append _ _)

theorem has_byte_iff {b : UInt8} {peer : IP} :
    Range.Has ⟨32, Bits.ofBytes [b]⟩ peer ↔
      ∃ rest : IP, peer.short = b :: rest ∧ rest.length = 3 := by
  rw [has_bytes_iff]
  constructor
  · rintro ⟨hlength, rest, hrest⟩
    rw [← hrest, List.length_append, List.length_singleton] at hlength
    exact ⟨rest, hrest.symm, by omega⟩
  · rintro ⟨rest, hpeer, hrest⟩
    rw [hpeer, List.length_cons, hrest]
    exact ⟨rfl, rest, rfl⟩

theorem has_address_iff {bytes : List UInt8} (hbytes : bytes.length = 16) {peer : IP} :
    Range.Has ⟨128, Bits.ofBytes bytes⟩ peer ↔ peer.short = bytes := by
  rw [has_bytes_iff]
  constructor
  · rintro ⟨hlength, hstart⟩
    exact (hstart.eq_of_length (by omega)).symm
  · rintro rfl
    exact ⟨by rw [hbytes], List.prefix_refl _⟩

theorem rangeOf_defaults : defaultTurnDenyPeers.map rangeOf =
    [some ⟨32, Bits.ofBytes [0]⟩, some ⟨32, Bits.ofBytes [127]⟩,
      some ⟨128, Bits.ofBytes (List.replicate 16 0)⟩,
      some ⟨128, Bits.ofBytes (List.replicate 15 0 ++ [1])⟩,
      some ⟨128, Bits.ofBytes [0xfe] ++ [true, false]⟩] := by
  decide +kernel

theorem local_iff {peer : IP} : Local peer.short ↔
    ∃ range, some range ∈ defaultTurnDenyPeers.map rangeOf ∧ range.Has peer := by
  have hiff : (∃ range, some range ∈ defaultTurnDenyPeers.map rangeOf ∧ range.Has peer) ↔
      (∃ rest : IP, peer.short = 0 :: rest ∧ rest.length = 3) ∨
      (∃ rest : IP, peer.short = 127 :: rest ∧ rest.length = 3) ∨
      peer.short = List.replicate 16 0 ∨ peer.short = List.replicate 15 0 ++ [1] ∨
      ∃ (b : UInt8) (rest : IP), peer.short = 0xfe :: b :: rest ∧ rest.length = 14 ∧
        0x80 ≤ b ∧ b < 0xc0 := by
    rw [rangeOf_defaults, ← has_byte_iff, ← has_byte_iff, ← has_linkLocal_iff,
      ← has_address_iff List.length_replicate,
      ← has_address_iff (show (List.replicate 15 0 ++ [1]).length = 16 from rfl)]
    simp only [List.mem_cons, Option.some.injEq, List.not_mem_nil, or_false, or_and_right,
      exists_or, exists_eq_left]
  rw [hiff]
  constructor
  · intro h
    generalize peer.short = short at h
    cases h with
    | thisNetwork h => exact Or.inl ⟨_, rfl, h⟩
    | loopback h => exact Or.inr (Or.inl ⟨_, rfl, h⟩)
    | unspecified6 => exact Or.inr (Or.inr (Or.inl rfl))
    | loopback6 => exact Or.inr (Or.inr (Or.inr (Or.inl rfl)))
    | linkLocal h hlo hhi => exact Or.inr (Or.inr (Or.inr (Or.inr ⟨_, _, rfl, h, hlo, hhi⟩)))
  · rintro (⟨rest, hpeer, h⟩ | ⟨rest, hpeer, h⟩ | hpeer | hpeer | ⟨b, rest, hpeer, h, hlo, hhi⟩)
    · exact hpeer ▸ Local.thisNetwork h
    · exact hpeer ▸ Local.loopback h
    · exact hpeer ▸ Local.unspecified6
    · exact hpeer ▸ Local.loopback6
    · exact hpeer ▸ Local.linkLocal h hlo hhi

/-! ## The server -/

/-- What the check of peers does with a setting. -/
structure Denies (turnDenyPeers : List String) (permissionHandler : IP → Bool) : Prop where
  parsed : ∀ text ∈ turnDenyPeers, (rangeOf text).isSome
  admits : ∀ peer, permissionHandler peer = true ↔
    ∀ text ∈ turnDenyPeers, ∀ range, rangeOf text = some range → ¬ range.Has peer
  mapped : ∀ peer : IP, peer.length = 4 ∨ peer.length = 16 →
    permissionHandler peer.to16 = permissionHandler peer

theorem denies_permissions {texts : List String} {nets : List IPNet}
    (h : texts.map parseCIDR = nets.map some) : Denies texts (permissions nets) where
  parsed text htext := by
    rw [isSome_rangeOf]
    obtain ⟨net, -, hnet⟩ := List.mem_map.mp (h ▸ List.mem_map_of_mem htext)
    rw [← hnet]
    rfl
  admits := permissions_iff h
  mapped peer hpeer := by
    rw [Bool.eq_iff_iff, permissions_iff h, permissions_iff h]
    refine forall₂_congr fun text _ ↦ forall₂_congr fun range _ ↦ ?_
    rw [has_to16_iff hpeer]

theorem Denies.defaults {handler : IP → Bool} (h : Denies defaultTurnDenyPeers handler)
    (peer : IP) : handler peer = false ↔ Local peer.short := by
  rw [← Bool.not_eq_true, h.admits, local_iff]
  simp only [not_forall, not_not, List.mem_map]
  constructor
  · rintro ⟨text, htext, range, hrange, hhas⟩
    exact ⟨range, ⟨text, htext, hrange⟩, hhas⟩
  · rintro ⟨range, ⟨text, htext, hrange⟩, hhas⟩
    exact ⟨text, htext, range, hrange, hhas⟩

/-- The TURN server of a command that runs relays to a peer exactly if no range of the setting has
it.  By default that keeps it from this host and from the link. -/
theorem peers_denied (h : serve launch = .serving service) {config : ServerConfig}
    (hconfig : service.turnConfig = some config) :
    Denies launch.host.settings.turnDenyPeers config.permissionHandler ∧
      (launch.host.settings.turnDenyPeers = defaultTurnDenyPeers →
        ∀ peer, config.permissionHandler peer = false ↔ Local peer.short) := by
  have hserved := served h
  have hdenies : Denies launch.host.settings.turnDenyPeers config.permissionHandler := by
    rcases hserved.turnConfig with ⟨-, hnone, -⟩ | ⟨-, -, hsome⟩
    · rw [hnone] at hconfig
      cases hconfig
    · obtain rfl := Option.some.inj (hsome.symm.trans hconfig)
      exact denies_permissions hserved.accepts.2.denyPeers
  refine ⟨hdenies, fun hdefault ↦ ?_⟩
  rw [hdefault] at hdenies
  exact hdenies.defaults

theorem peers_denied_plain : ∃ config : ServerConfig,
    ∀ peer, config.permissionHandler peer = false ↔ Local peer.short :=
  have hserving : serve (Launch.plain ["192.0.2.1"]) = .serving _ := rfl
  ⟨_, (peers_denied hserving rfl).2 rfl⟩

end Screego
