import Screego.Lib.Bits
import Screego.Net.RoundTrip

/-!
# Ranges of addresses

`ParseCIDR` reads an address and the length of a prefix.  `Contains` compares
under a mask, and before that it brings IPv4 addresses to four bytes on both
sides, so what a range contains depends on the address alone and not on the
length in which it comes.
-/

namespace Screego

open IP

/-- `net.IPNet`. -/
structure IPNet where
  ip : IP
  mask : List UInt8
  deriving DecidableEq

namespace IPNet

def v4InV6Prefix : List UInt8 := List.replicate 10 0 ++ [0xff, 0xff]

/-- `ParseAddr`: the address in sixteen bytes, and `BitLen`. -/
def parseAddr (s : String) : Option (IP × ℕ) :=
  match s.toList.find? fun c ↦ c = '.' ∨ c = ':' ∨ c = '%' with
  | some '.' => (parseIPv4 s.toList).map fun ip ↦ (ip, 32)
  | some ':' => (parseIPv6 s.toList).map fun ip ↦ (ip, 128)
  | _ => none

/-- `dtoi` on a text that it must read to the end. -/
def dtoi : ℕ → List Char → Option ℕ
  | n, [] => some n
  | n, c :: cs =>
      if c.isDigit then
        if 0xFFFFFF ≤ 10 * n + (c.toNat - '0'.toNat) then none
        else dtoi (10 * n + (c.toNat - '0'.toNat)) cs
      else none

/-- `IP.Mask`. -/
def maskIP (ip : IP) (mask : List UInt8) : IP :=
  let mask := if mask.length = 16 ∧ ip.length = 4 ∧ (mask.take 12).all (· = 0xff) then mask.drop 12
    else mask
  let ip := if mask.length = 4 ∧ ip.length = 16 ∧ ip.take 12 = v4InV6Prefix then ip.drop 12 else ip
  if ip.length ≠ mask.length then [] else Bits.and ip mask

/-- The range of an address and a prefix length. -/
def ofPrefix (ip : IP) (bitLen n : ℕ) : IPNet :=
  let mask := Bits.mask (bitLen / 8) n
  ⟨maskIP ip mask, mask⟩

/-- The address, its number of bits and the length of the prefix in a text. -/
def parsePrefix (s : String) : Option (IP × ℕ × ℕ) :=
  match Strings.splitTwo s '/' with
  | (_, none) => none
  | (addr, some mask) =>
      match parseAddr addr with
      | none => none
      | some (ip, bitLen) =>
          if mask = "" then none
          else
            match dtoi 0 mask.toList with
            | none => none
            | some n => if bitLen < n then none else some (ip, bitLen, n)

/-- `ParseCIDR`, without the address. -/
def parseCIDR (s : String) : Option IPNet :=
  (parsePrefix s).map fun p ↦ ofPrefix p.1 p.2.1 p.2.2

/-- `networkNumberAndMask`. -/
def networkNumberAndMask (n : IPNet) : Option (IP × List UInt8) :=
  match n.ip.to4 with
  | some ip =>
      if n.mask.length = 4 then some (ip, n.mask)
      else if n.mask.length = 16 then some (ip, n.mask.drop 12)
      else none
  | none => if n.ip.length = 16 ∧ n.mask.length = 16 then some (n.ip, n.mask) else none

/-- `Contains`. -/
def contains (n : IPNet) (ip : IP) : Bool :=
  match n.networkNumberAndMask with
  | none => ip = []
  | some (nn, m) =>
      let ip := (ip.to4).getD ip
      ip.length = nn.length &&
        Bits.and nn m = Bits.and ip m

/-- `simpleMaskLength`: the number of ones, if all of them stand in front. -/
def simpleMaskLength (mask : List UInt8) : Option ℕ :=
  let ones := ((Bits.ofBytes mask).takeWhile id).length
  if true ∈ (Bits.ofBytes mask).drop ones then none else some ones

/-- `IPNet.String`. -/
def toString (n : IPNet) : String :=
  match n.networkNumberAndMask with
  | none => "<nil>"
  | some (nn, m) =>
      match simpleMaskLength m with
      | none => nn.toString ++ "/" ++ String.join (m.map hexByte)
      | some l => nn.toString ++ "/" ++ l.repr

example : (parseCIDR "10.0.0.0/8").map (contains · [10, 1, 2, 3]) = some true := by decide +kernel

example : (parseCIDR "::/0").map (contains · [10, 1, 2, 3]) = some false := by decide +kernel

example : ["10.0.0.0", "10.0.0.0/33", "10.0.0.0/", "10.0.0.0/8/8", "fe80::1%eth0/10"].map
    parseCIDR = List.replicate 5 none := by
  decide +kernel

end IPNet

/-! ## What a range contains -/

/-- The address in the length of its family: four bytes for IPv4, also if it is mapped. -/
def IP.short (ip : IP) : IP := ip.to4.getD ip

/-- Addresses of one family that begin with the same bits. -/
structure Range where
  bitLen : ℕ
  start : List Bool
  deriving DecidableEq

def Range.Has (range : Range) (ip : IP) : Prop :=
  8 * ip.short.length = range.bitLen ∧ range.start <+: Bits.ofBytes ip.short

namespace IPNet

/-- What an address in sixteen bytes says with a prefix length. -/
def range (ip : IP) (bitLen n : ℕ) : Range :=
  if bitLen = 32 then ⟨32, (Bits.ofBytes (ip.drop 12)).take n⟩
  else if 96 ≤ n ∧ ip.take 12 = v4InV6Prefix then
    ⟨32, (Bits.ofBytes (ip.drop 12)).take (n - 96)⟩
  else ⟨128, (Bits.ofBytes ip).take n⟩

theorem has_take_iff {x peer : IP} {n : ℕ} :
    Range.Has ⟨8 * x.length, (Bits.ofBytes x).take n⟩ peer ↔ peer.short.length = x.length ∧
      (Bits.ofBytes x).take n = (Bits.ofBytes peer.short).take n := by
  unfold Range.Has
  dsimp only
  rw [Nat.mul_right_inj (by decide)]
  refine and_congr_right fun hlength ↦ ?_
  rw [List.prefix_iff_eq_take, List.length_take, Bits.length_ofBytes, ← hlength,
    ← Bits.length_ofBytes peer.short, ← List.take_eq_take_min]

/-- The comparison of `Contains` once both sides have their length. -/
theorem compare_iff {x peer : IP} {len n : ℕ} (hx : x.length = len) :
    (decide (peer.short.length = (Bits.and x (Bits.mask len n)).length) &&
      decide (Bits.and (Bits.and x (Bits.mask len n)) (Bits.mask len n) =
        Bits.and peer.short (Bits.mask len n))) = true ↔
    Range.Has ⟨8 * len, (Bits.ofBytes x).take n⟩ peer := by
  subst hx
  rw [has_take_iff, Bool.and_eq_true, decide_eq_true_eq, decide_eq_true_eq, Bits.length_and,
    Bits.length_mask, Nat.min_self, Bits.and_and_self]
  refine and_congr_right fun hlength ↦ ?_
  exact Bits.and_mask_eq_iff rfl hlength n

theorem contains_v4 {f : IP} (hf : f.length = 4) (n : ℕ) (peer : IP) :
    (ofPrefix (v4InV6Prefix ++ f) 32 n).contains peer = true ↔
      (range (v4InV6Prefix ++ f) 32 n).Has peer := by
  have hdrop : (v4InV6Prefix ++ f).drop 12 = f := rfl
  have hmasked : maskIP (v4InV6Prefix ++ f) (Bits.mask 4 n) = Bits.and f (Bits.mask 4 n) := by
    have hlength : (v4InV6Prefix ++ f).length = 16 := by
      rw [List.length_append, hf]
      rfl
    have htake : (v4InV6Prefix ++ f).take 12 = v4InV6Prefix := rfl
    simp only [maskIP, Bits.length_mask, hlength, htake, hdrop]
    simp [hf]
  have hfour : IP.to4 (Bits.and f (Bits.mask 4 n)) = some (Bits.and f (Bits.mask 4 n)) :=
    if_pos (by rw [Bits.length_and, hf, Bits.length_mask, Nat.min_self])
  have hnumber : (ofPrefix (v4InV6Prefix ++ f) 32 n).networkNumberAndMask =
      some (Bits.and f (Bits.mask 4 n), Bits.mask 4 n) := by
    simp only [networkNumberAndMask, ofPrefix, hmasked, hfour, Bits.length_mask, if_true]
  rw [range, if_pos rfl, hdrop]
  simp only [contains, hnumber]
  exact compare_iff hf

/-- A masked address is a mapped one exactly if the address is and the mask keeps that. -/
theorem take_masked_iff {ip : IP} (hip : ip.length = 16) (n : ℕ) :
    (Bits.and ip (Bits.mask 16 n)).take 12 = v4InV6Prefix ↔
      96 ≤ n ∧ ip.take 12 = v4InV6Prefix := by
  have htake : (Bits.and ip (Bits.mask 16 n)).take 12 =
      Bits.and (ip.take 12) (Bits.mask 12 n) := by
    rw [Bits.and, List.take_zipWith, Bits.take_mask 4 12 n]
    rfl
  by_cases hn : 96 ≤ n
  · rw [htake, Bits.and_mask_of_le (by rw [List.length_take, hip]; rfl) (by omega),
      and_iff_right hn]
  · refine iff_of_false (fun h ↦ ?_) fun h ↦ hn h.1
    -- the twelfth byte of the mask is not full
    have hlast : (Bits.mask 16 n)[11]? = some (Bits.maskByte (n - 88)) := by
      have hdrop : (Bits.mask 16 n).drop 11 = Bits.mask 5 (n - 88) := Bits.drop_mask 5 11 n
      rw [show 11 = 11 + 0 from rfl, ← List.getElem?_drop, hdrop, Bits.mask, if_neg (by omega)]
      rfl
    have hbyte : (v4InV6Prefix : List UInt8)[11]? = some 0xff := rfl
    rw [← h, List.getElem?_take_of_lt (by decide), Bits.and,
      List.getElem?_zipWith_eq_some] at hbyte
    obtain ⟨a, m, -, hm, hand⟩ := hbyte
    obtain rfl := Option.some.inj (hlast.symm.trans hm)
    exact Bits.maskByte_ne_ones (by omega) (Bits.eq_ones_of_and hand)

theorem contains_v6 {ip : IP} (hip : ip.length = 16) (n : ℕ) (peer : IP) :
    (ofPrefix ip 128 n).contains peer = true ↔ (range ip 128 n).Has peer := by
  set m := Bits.mask 16 n with hm
  have hlengthMask : m.length = 16 := Bits.length_mask 16 n
  have hmasked : maskIP ip m = Bits.and ip m := by
    simp [maskIP, hlengthMask, hip]
  have hlength : (Bits.and ip m).length = 16 := by
    rw [Bits.length_and, hip, hlengthMask, Nat.min_self]
  have hshort : ¬ (Bits.and ip m).length = 4 := by omega
  rw [range, if_neg (by decide)]
  by_cases hmapped : 96 ≤ n ∧ ip.take 12 = v4InV6Prefix
  · -- the last four bytes count
    have htake := (take_masked_iff hip n).mpr hmapped
    have hdrop : m.drop 12 = Bits.mask 4 (n - 96) := Bits.drop_mask 4 12 n
    have hfour : IP.to4 (Bits.and ip m) = some (Bits.and (ip.drop 12) (Bits.mask 4 (n - 96))) := by
      rw [to4, if_neg hshort, if_pos ⟨hlength, htake⟩, ← hdrop]
      simp only [Bits.and, List.drop_zipWith]
    have hnumber : (ofPrefix ip 128 n).networkNumberAndMask =
        some (Bits.and (ip.drop 12) (Bits.mask 4 (n - 96)), Bits.mask 4 (n - 96)) := by
      have hnot : ¬ m.length = 4 := by omega
      simp only [networkNumberAndMask, ofPrefix, ← hm, hmasked, hfour, if_neg hnot,
        if_pos hlengthMask, hdrop]
    rw [if_pos hmapped]
    simp only [contains, hnumber]
    exact compare_iff (by rw [List.length_drop, hip])
  · have hfour : IP.to4 (Bits.and ip m) = none := by
      rw [to4, if_neg hshort, if_neg fun h ↦ hmapped ((take_masked_iff hip n).mp h.2)]
    have hnumber : (ofPrefix ip 128 n).networkNumberAndMask = some (Bits.and ip m, m) := by
      simp only [networkNumberAndMask, ofPrefix, ← hm, hmasked, hfour,
        if_pos (And.intro hlength hlengthMask)]
    rw [if_neg hmapped]
    simp only [contains, hnumber]
    exact compare_iff hip

theorem parseAddr_eq_some {s : String} {ip : IP} {bitLen : ℕ}
    (h : parseAddr s = some (ip, bitLen)) :
    (bitLen = 32 ∧ ∃ f : IP, f.length = 4 ∧ ip = v4InV6Prefix ++ f) ∨
      (bitLen = 128 ∧ ip.length = 16) := by
  unfold parseAddr at h
  split at h
  · obtain ⟨ip', hip, heq⟩ := Option.map_eq_some_iff.mp h
    obtain ⟨rfl, rfl⟩ := Prod.mk.inj heq
    obtain ⟨fields, hfields, rfl⟩ := Option.map_eq_some_iff.mp hip
    exact Or.inl ⟨rfl, fields, length_parseIPv4Fields hfields, (List.append_assoc _ _ _).symm⟩
  · next hsep =>
      obtain ⟨ip', hip, heq⟩ := Option.map_eq_some_iff.mp h
      obtain ⟨rfl, rfl⟩ := Prod.mk.inj heq
      have hparse : parseIP s = some ip' := by simp only [parseIP, hsep, hip]
      exact Or.inr ⟨rfl, length_parseIP hparse⟩
  · cases h

theorem parsePrefix_eq_some {s : String} {ip : IP} {bitLen n : ℕ}
    (h : parsePrefix s = some (ip, bitLen, n)) : ∃ addr, parseAddr addr = some (ip, bitLen) := by
  unfold parsePrefix at h
  split at h
  · cases h
  · next addr mask _ =>
      split at h
      · cases h
      · next ip' bitLen' haddr =>
          split at h
          · cases h
          · split at h
            · cases h
            · split at h
              · cases h
              · obtain ⟨rfl, heq⟩ := Prod.mk.inj (Option.some.inj h)
                obtain ⟨rfl, -⟩ := Prod.mk.inj heq
                exact ⟨addr, haddr⟩

/-- The range that a text stands for. -/
def rangeOf (s : String) : Option Range := (parsePrefix s).map fun p ↦ range p.1 p.2.1 p.2.2

/-- A parsed range contains what its text says. -/
theorem contains_of_parseCIDR {s : String} {net : IPNet} (h : parseCIDR s = some net) :
    ∃ r, rangeOf s = some r ∧ ∀ peer, net.contains peer = true ↔ r.Has peer := by
  obtain ⟨⟨ip, bitLen, n⟩, hparse, rfl⟩ := Option.map_eq_some_iff.mp h
  refine ⟨range ip bitLen n, by rw [rangeOf, hparse, Option.map_some], fun peer ↦ ?_⟩
  obtain ⟨addr, haddr⟩ := parsePrefix_eq_some hparse
  rcases parseAddr_eq_some haddr with ⟨rfl, f, hf, rfl⟩ | ⟨rfl, hip⟩
  · exact contains_v4 hf n peer
  · exact contains_v6 hip n peer

theorem isSome_rangeOf (s : String) : (rangeOf s).isSome = (parseCIDR s).isSome := by
  rw [rangeOf, parseCIDR, Option.isSome_map, Option.isSome_map]

/-- A range does not tell the two lengths of an address apart. -/
theorem has_to16_iff {r : Range} {ip : IP} (h : ip.length = 4 ∨ ip.length = 16) :
    r.Has ip.to16 ↔ r.Has ip := by
  have hshort : ip.to16.short = ip.short := by
    rcases h with h | h
    · rw [IP.short, IP.short, to4_to16 h, to4, if_pos h]
      rfl
    · rw [to16, if_neg (by omega), if_pos h]
  rw [Range.Has, Range.Has, hshort]

end IPNet
end Screego
