import Mathlib.Data.Char
import Mathlib.Data.List.Basic

/-!
# Characters in bytes and in 16-bit units

A text is bytes to a server and 16-bit units to a browser.  Neither has to be
the text of any characters: bytes may be malformed, and a unit may be one half
of a surrogate pair without the other.
-/

namespace Screego
namespace Unicode

/-- The byte of an ASCII character. -/
def byte (c : Char) : UInt8 := UInt8.ofNat c.toNat

/-- What stands for everything malformed. -/
def replacement : Char := '\uFFFD'

/-! ## UTF-8 -/

/-- The character that the bytes begin with. -/
def rune (bs : List UInt8) : Option Char := bs.toByteArray.utf8DecodeChar? 0

theorem rune_encode (c : Char) (bs : List UInt8) :
    rune (String.utf8EncodeChar c ++ bs) = some c := by
  rw [rune, List.toByteArray_append]
  exact ByteArray.utf8DecodeChar?_utf8EncodeChar_append

theorem rune_eq_some {bs : List UInt8} {c : Char} (h : rune bs = some c) :
    ∃ rest, bs = String.utf8EncodeChar c ++ rest := by
  obtain ⟨l, hl⟩ := ByteArray.exists_of_utf8DecodeChar?_eq_some h
  refine ⟨l.data.toList, ?_⟩
  have hdata := congrArg (fun b : ByteArray ↦ b.data.toList) hl
  simpa using hdata

/-- A byte in the middle of a character. -/
def IsTail (b : UInt8) : Prop := 0x80 ≤ b ∧ b < 0xC0

theorem encode_of_ascii {c : Char} (h : c.toNat < 0x80) : String.utf8EncodeChar c = [byte c] := by
  have hle : c.val.toNat ≤ 0x7f := Nat.le_of_lt_succ h
  rw [String.utf8EncodeChar, if_pos hle]
  rfl

theorem encode_of_not_ascii {c : Char} (h : 0x80 ≤ c.toNat) :
    ∃ b t, String.utf8EncodeChar c = b :: t ∧ 0xC0 ≤ b ∧ ∀ x ∈ t, IsTail x := by
  have hnle : ¬ c.val.toNat ≤ 0x7f := Nat.not_le_of_lt h
  have htail (n : ℕ) : IsTail (UInt8.ofNat (n % 0x40 + 0x80)) := by
    have hmod := Nat.mod_lt n (show 0 < 0x40 by decide)
    have hnat : (UInt8.ofNat (n % 0x40 + 0x80)).toNat = n % 0x40 + 0x80 := by
      rw [UInt8.toNat_ofNat', Nat.mod_eq_of_lt (by omega)]
    have hlo : (0x80 : UInt8).toNat = 0x80 := rfl
    have hhi : (0xC0 : UInt8).toNat = 0xC0 := rfl
    rw [IsTail, UInt8.le_iff_toNat_le, UInt8.lt_iff_toNat_lt, hnat, hlo, hhi]
    omega
  have hlead (n k m : ℕ) (hlo : 0xC0 ≤ m) (hhi : k + m ≤ 0x100) (hk : 0 < k) :
      0xC0 ≤ UInt8.ofNat (n % k + m) := by
    have hmod := Nat.mod_lt n hk
    rw [UInt8.le_iff_toNat_le, UInt8.toNat_ofNat', Nat.mod_eq_of_lt (by omega)]
    exact Nat.le_add_left_of_le hlo
  unfold String.utf8EncodeChar
  rw [if_neg hnle]
  split
  · exact ⟨_, _, rfl, hlead _ _ _ (by decide) (by decide) (by decide),
      List.forall_mem_singleton.mpr (htail _)⟩
  split
  · exact ⟨_, _, rfl, hlead _ _ _ (by decide) (by decide) (by decide),
      List.forall_mem_cons.mpr ⟨htail _, List.forall_mem_singleton.mpr (htail _)⟩⟩
  · exact ⟨_, _, rfl, hlead _ _ _ (by decide) (by decide) (by decide),
      List.forall_mem_cons.mpr ⟨htail _, List.forall_mem_cons.mpr
        ⟨htail _, List.forall_mem_singleton.mpr (htail _)⟩⟩⟩

theorem byte_injective {x c : Char} (hx : x.toNat < 0x80) (hc : c.toNat < 0x80)
    (h : byte x = byte c) : x = c := by
  have hnat := congrArg UInt8.toNat h
  rw [byte, byte, UInt8.toNat_ofNat', UInt8.toNat_ofNat', Nat.mod_eq_of_lt (by omega),
    Nat.mod_eq_of_lt (by omega)] at hnat
  exact Char.toNat_inj.mp hnat

/-- An ASCII byte stands for its character only. -/
theorem eq_of_byte_mem_encode {x c : Char} (hx : x.toNat < 0x80)
    (h : byte x ∈ String.utf8EncodeChar c) : c = x := by
  rcases Nat.lt_or_ge c.toNat 0x80 with hc | hc
  · rw [encode_of_ascii hc, List.mem_singleton] at h
    exact (byte_injective hx hc h).symm
  · obtain ⟨b, t, hencode, hb, ht⟩ := encode_of_not_ascii hc
    have hlt : byte x < 0x80 := by
      rw [UInt8.lt_iff_toNat_lt, byte, UInt8.toNat_ofNat', Nat.mod_eq_of_lt (by omega)]
      exact hx
    rw [hencode] at h
    rcases List.mem_cons.mp h with rfl | h
    · exact absurd (UInt8.lt_trans hlt (by decide)) (UInt8.not_lt.mpr hb)
    · exact absurd hlt (UInt8.not_lt.mpr (ht _ h).1)

/-! ## UTF-16 -/

/-- The units of a character. -/
def units (c : Char) : List ℕ :=
  if c.toNat < 0x10000 then [c.toNat]
  else [0xD800 + (c.toNat - 0x10000) / 0x400, 0xDC00 + (c.toNat - 0x10000) % 0x400]

def isHigh (u : ℕ) : Bool := 0xD800 ≤ u && u < 0xDC00

def isLow (u : ℕ) : Bool := 0xDC00 ≤ u && u < 0xE000

/-- The character of a unit on its own. -/
def single (u : ℕ) : Char := if isHigh u || isLow u then replacement else Char.ofNat u

/-- The character of two units that belong together. -/
def pair (u v : ℕ) : Char := Char.ofNat (0x10000 + (u - 0xD800) * 0x400 + (v - 0xDC00))

/-- The characters of a list of units. -/
def characters : List ℕ → List Char
  | [] => []
  | [u] => [single u]
  | u :: v :: us =>
      if isHigh u && isLow v then pair u v :: characters us
      else single u :: characters (v :: us)

theorem characters_cons {u : ℕ} (hu : isHigh u = false) (us : List ℕ) :
    characters (u :: us) = single u :: characters us := by
  cases us with
  | nil => rfl
  | cons v us => rw [characters, hu, Bool.false_and, if_neg Bool.false_ne_true]

theorem toNat_lt (c : Char) : c.toNat < 0xD800 ∨ 0xE000 ≤ c.toNat ∧ c.toNat < 0x110000 := by
  rcases c.valid with h | ⟨h, h'⟩
  · exact Or.inl h
  · exact Or.inr ⟨h, h'⟩

theorem characters_units_append (c : Char) (us : List ℕ) :
    characters (units c ++ us) = c :: characters us := by
  have hc := toNat_lt c
  unfold units
  split
  · have hhigh : isHigh c.toNat = false := by
      rw [isHigh, Bool.and_eq_false_iff, decide_eq_false_iff_not, decide_eq_false_iff_not]
      omega
    have hlow : isLow c.toNat = false := by
      rw [isLow, Bool.and_eq_false_iff, decide_eq_false_iff_not, decide_eq_false_iff_not]
      omega
    rw [List.singleton_append, characters_cons hhigh, single, hhigh, hlow, Bool.or_false,
      if_neg Bool.false_ne_true, Char.ofNat_toNat]
  · have hhigh : isHigh (0xD800 + (c.toNat - 0x10000) / 0x400) = true := by
      rw [isHigh, Bool.and_eq_true, decide_eq_true_iff, decide_eq_true_iff]
      omega
    have hlow : isLow (0xDC00 + (c.toNat - 0x10000) % 0x400) = true := by
      rw [isLow, Bool.and_eq_true, decide_eq_true_iff, decide_eq_true_iff]
      omega
    have hpair : pair (0xD800 + (c.toNat - 0x10000) / 0x400)
        (0xDC00 + (c.toNat - 0x10000) % 0x400) = c := by
      have hsum : 0x10000 + (0xD800 + (c.toNat - 0x10000) / 0x400 - 0xD800) * 0x400 +
          (0xDC00 + (c.toNat - 0x10000) % 0x400 - 0xDC00) = c.toNat := by omega
      rw [pair, hsum, Char.ofNat_toNat]
    rw [List.cons_append, List.singleton_append, characters, hhigh, hlow, Bool.and_self, if_pos rfl,
      hpair]

theorem toNat_ofNat {u : ℕ} (h : u.isValidChar) : (Char.ofNat u).toNat = u := by
  rw [Char.ofNat, dif_pos h]
  rfl

theorem toNat_pair {u v : ℕ} (hu : isHigh u = true) (hv : isLow v = true) :
    (pair u v).toNat = 0x10000 + (u - 0xD800) * 0x400 + (v - 0xDC00) := by
  simp only [isHigh, isLow, Bool.and_eq_true, decide_eq_true_eq] at hu hv
  refine toNat_ofNat ?_
  unfold Nat.isValidChar
  omega

theorem units_pair {u v : ℕ} (hu : isHigh u = true) (hv : isLow v = true) :
    units (pair u v) = [u, v] := by
  have hnat := toNat_pair hu hv
  simp only [isHigh, isLow, Bool.and_eq_true, decide_eq_true_eq] at hu hv
  have hhigh : 0xD800 + ((pair u v).toNat - 0x10000) / 0x400 = u := by omega
  have hlow : 0xDC00 + ((pair u v).toNat - 0x10000) % 0x400 = v := by omega
  rw [units, if_neg (by omega), hhigh, hlow]

/-- The units of a text. -/
def textUnits (s : String) : List ℕ := s.toList.flatMap units

/-- The text of a list of units. -/
def text (us : List ℕ) : String := String.ofList (characters us)

@[simp] theorem text_textUnits (s : String) : text (textUnits s) = s := by
  have hlist (l : List Char) : characters (l.flatMap units) = l := by
    induction l with
    | nil => rfl
    | cons c l ih => rw [List.flatMap_cons, characters_units_append, ih]
  rw [text, textUnits, hlist, String.ofList_toList]

theorem units_lt (c : Char) : ∀ u ∈ units c, u < 0x10000 := by
  have hc := toNat_lt c
  unfold units
  split
  · simpa
  · rw [List.forall_mem_cons, List.forall_mem_singleton]
    omega

theorem textUnits_lt (s : String) : ∀ u ∈ textUnits s, u < 0x10000 := by
  intro u hu
  obtain ⟨c, -, hc⟩ := List.mem_flatMap.mp hu
  exact units_lt c u hc

end Unicode
end Screego
