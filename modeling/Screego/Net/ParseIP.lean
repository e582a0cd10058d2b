import Screego.Lib.Text
import Screego.Net.IP

/-!
# Reading IP addresses

`net.ParseIP` reads dotted decimals without leading zeros and the groups of an
IPv6 address, with one `::` for a run of zero groups and dotted decimals in
place of the last two groups.  The result has sixteen bytes in either case; a
text with a zone is no IP.
-/

namespace Screego
namespace IP

def hexValue (c : Char) : Option ℕ :=
  if '0' ≤ c ∧ c ≤ '9' then some (c.toNat - '0'.toNat)
  else if 'a' ≤ c ∧ c ≤ 'f' then some (c.toNat - 'a'.toNat + 10)
  else if 'A' ≤ c ∧ c ≤ 'F' then some (c.toNat - 'A'.toNat + 10)
  else none

/-- One number of dotted decimals. -/
def parseField (s : List Char) : Option UInt8 :=
  if s = [] ∨ ¬ s.all Char.isDigit then none
  else if 1 < s.length ∧ s.head? = some '0' then none
  else if 255 < Nat.ofDigitChars 10 s 0 then none
  else some (UInt8.ofNat (Nat.ofDigitChars 10 s 0))

/-- `parseIPv4Fields`. -/
def parseIPv4Fields (s : List Char) : Option IP :=
  match s.splitOn '.' with
  | [a, b, c, d] => do
      let a ← parseField a
      let b ← parseField b
      let c ← parseField c
      let d ← parseField d
      return [a, b, c, d]
  | _ => none

/-- The two bytes of a group of hexadecimal digits. -/
def parseGroup (digits : List Char) : IP :=
  let acc := digits.foldl (fun acc c ↦ acc * 16 + (hexValue c).getD 0) 0
  [UInt8.ofNat (acc / 256), UInt8.ofNat acc]

/-- The loop of `parseIPv6`, with the number of groups that still fit, the bytes so far and the
position of the `::`. -/
def parseGroups : ℕ → List Char → IP → Option ℕ → Option (IP × Option ℕ)
  | 0, s, ip, ellipsis => if s = [] then some (ip, ellipsis) else none
  | k + 1, s, ip, ellipsis =>
      let digits := s.takeWhile fun c ↦ (hexValue c).isSome
      if digits.length = 0 ∨ 4 < digits.length then none
      else
        match s.dropWhile fun c ↦ (hexValue c).isSome with
        | [] => some (ip ++ parseGroup digits, ellipsis)
        | '.' :: _ =>
            -- dotted decimals take the place of the last two groups
            if (ellipsis = none ∧ ip.length ≠ 12) ∨ 12 < ip.length then none
            else (parseIPv4Fields s).map fun fields ↦ (ip ++ fields, ellipsis)
        | [':'] => none
        | ':' :: ':' :: rest =>
            if ellipsis.isSome then none
            else if rest = [] then some (ip ++ parseGroup digits, some (ip.length + 2))
            else parseGroups k rest (ip ++ parseGroup digits) (some (ip.length + 2))
        | ':' :: rest => parseGroups k rest (ip ++ parseGroup digits) ellipsis
        | _ => none

/-- Put zeros for the `::`; it stands for at least one group. -/
def expand (parsed : IP × Option ℕ) : Option IP :=
  if parsed.1.length < 16 then
    parsed.2.map fun ellipsis ↦ parsed.1.take ellipsis ++
      (List.replicate (16 - parsed.1.length) 0 ++ parsed.1.drop ellipsis)
  else if parsed.2.isSome then none
  else some parsed.1

def parseIPv6 (s : List Char) : Option IP :=
  if '%' ∈ s then none
  else
    match s with
    | [':', ':'] => some (List.replicate 16 0)
    | ':' :: ':' :: rest => (parseGroups 8 rest [] (some 0)).bind expand
    | s => (parseGroups 8 s [] none).bind expand

def parseIPv4 (s : List Char) : Option IP :=
  (parseIPv4Fields s).map fun fields ↦ List.replicate 10 0 ++ ([0xff, 0xff] ++ fields)

/-- `net.ParseIP`: the first separator tells the two forms apart. -/
def parseIP (s : String) : Option IP :=
  match s.toList.find? fun c ↦ c = '.' ∨ c = ':' ∨ c = '%' with
  | some '.' => parseIPv4 s.toList
  | some ':' => parseIPv6 s.toList
  | _ => none

example : parseIP "10.0.0.7" = some (List.replicate 10 0 ++ [0xff, 0xff, 10, 0, 0, 7]) := by
  decide +kernel

example : (parseIP "2001:db8::1").map toString = some "2001:db8::1" := by decide +kernel

example : (parseIP "::ffff:192.0.2.1").map toString = some "192.0.2.1" := by decide +kernel

example : ["010.0.0.7", "1.2.3", "1:2:3:4:5:6:7:8:9", "1::2::3", "fe80::1%eth0", "::1."].map
    parseIP = List.replicate 6 none := by
  decide +kernel

/-! ## Lengths -/

theorem length_parseIPv4Fields {s : List Char} {ip : IP} (h : parseIPv4Fields s = some ip) :
    ip.length = 4 := by
  unfold parseIPv4Fields at h
  split at h
  · simp only [Option.bind_eq_bind, Option.bind_eq_some_iff, Option.pure_def,
      Option.some.injEq] at h
    obtain ⟨_, _, _, _, _, _, _, _, rfl⟩ := h
    rfl
  · cases h

/-- The loop never has more bytes than fit. -/
theorem length_parseGroups {k : ℕ} {s : List Char} {ip : IP} {ellipsis : Option ℕ}
    {parsed : IP × Option ℕ} (hk : ip.length + 2 * k = 16)
    (h : parseGroups k s ip ellipsis = some parsed) : parsed.1.length ≤ 16 := by
  induction k generalizing s ip ellipsis with
  | zero =>
      unfold parseGroups at h
      split at h
      · obtain rfl := Option.some.inj h
        exact Nat.le_of_eq hk
      · cases h
  | succ k ih =>
      have hgroup : ∀ digits, (ip ++ parseGroup digits).length + 2 * k = 16 := by
        intro digits
        rw [List.length_append, show (parseGroup digits).length = 2 from rfl]
        omega
      unfold parseGroups at h
      dsimp only at h
      split at h
      · cases h
      · split at h
        · obtain rfl := Option.some.inj h
          exact Nat.le.intro (hgroup _)
        · split at h
          · cases h
          · next hroom =>
              obtain ⟨fields, hfields, rfl⟩ := Option.map_eq_some_iff.mp h
              rw [List.length_append, length_parseIPv4Fields hfields]
              omega
        · cases h
        · split at h
          · cases h
          · split at h
            · obtain rfl := Option.some.inj h
              exact Nat.le.intro (hgroup _)
            · exact ih (hgroup _) h
        · exact ih (hgroup _) h
        · cases h

theorem length_expand {parsed : IP × Option ℕ} (hle : parsed.1.length ≤ 16) {ip : IP}
    (h : expand parsed = some ip) : ip.length = 16 := by
  unfold expand at h
  split at h
  · obtain ⟨ellipsis, -, rfl⟩ := Option.map_eq_some_iff.mp h
    rw [List.length_append, List.length_append, List.length_replicate, List.length_take,
      List.length_drop]
    omega
  · split at h
    · cases h
    · obtain rfl := Option.some.inj h
      omega

/-- What `ParseIP` returns has sixteen bytes. -/
theorem length_parseIP {s : String} {ip : IP} (h : parseIP s = some ip) : ip.length = 16 := by
  have hgroups {s : List Char} {ellipsis : Option ℕ}
      (h : (parseGroups 8 s [] ellipsis).bind expand = some ip) : ip.length = 16 := by
    obtain ⟨parsed, hparsed, hexpand⟩ := Option.bind_eq_some_iff.mp h
    exact length_expand (length_parseGroups rfl hparsed) hexpand
  unfold parseIP at h
  split at h
  · obtain ⟨fields, hfields, rfl⟩ := Option.map_eq_some_iff.mp h
    rw [List.length_append, List.length_append, length_parseIPv4Fields hfields]
    rfl
  · unfold parseIPv6 at h
    split at h
    · cases h
    · split at h
      · obtain rfl := Option.some.inj h
        rfl
      · exact hgroups h
      · exact hgroups h
  · cases h

/-! ## Families and texts -/

theorem ne_nil_of_length {ip : IP} (h : ip.length = 4 ∨ ip.length = 16) : ip ≠ [] := by
  rintro rfl
  simp at h

theorem colon_notMem_dotted (ip : IP) :
    ':' ∉ (String.intercalate "." (ip.map fun b ↦ b.toNat.repr)).toList := by
  induction ip with
  | nil => simp
  | cons b ip ih =>
      have hdigits : ':' ∉ b.toNat.repr.toList := by
        intro hmem
        rw [Nat.repr, String.toList_ofList] at hmem
        exact absurd (Nat.isDigit_of_mem_toDigits (by decide) (by decide) hmem) (by decide)
      by_cases hrest : ip = []
      · subst hrest
        simpa using hdigits
      · rw [List.map_cons, String.intercalate_cons_of_ne_nil (by simpa using hrest)]
        rw [String.toList_append, String.toList_append, List.mem_append, List.mem_append, not_or,
          not_or]
        exact ⟨⟨hdigits, by decide⟩, ih⟩

theorem length_groups {ip : IP} {n : ℕ} (h : ip.length = 2 * n) : (groups ip).length = n := by
  induction n generalizing ip with
  | zero =>
      obtain rfl := List.eq_nil_of_length_eq_zero h
      rfl
  | succ n ih =>
      match ip with
      | hi :: lo :: rest =>
          rw [groups, List.length_cons, ih]
          simp only [List.length_cons] at h
          omega

theorem colon_mem_joinHex {gs : List ℕ} (h : 2 ≤ gs.length) : ':' ∈ (joinHex gs).toList := by
  match gs with
  | g :: g' :: gs =>
      rw [joinHex, List.map_cons, List.map_cons, String.intercalate_cons_cons]
      simp

/-- Only the text of an IPv6 address has a colon. -/
theorem colon_mem_toString {ip : IP} (h : ip.length = 4 ∨ ip.length = 16) :
    ':' ∈ ip.toString.toList ↔ ip.to4 = none := by
  have hvalid : ¬ (ip.length ≠ 4 ∧ ip.length ≠ 16) := by omega
  unfold toString
  rw [if_neg (by omega), if_neg hvalid]
  cases hfour : ip.to4 with
  | some p4 => exact iff_of_false (colon_notMem_dotted p4) (by simp)
  | none =>
      refine iff_of_true ?_ rfl
      have hlength : (groups ip).length = 8 := by
        refine length_groups (h.resolve_left fun h4 ↦ ?_)
        rw [to4, if_pos h4] at hfour
        cases hfour
      simp only [string6]
      cases longestZeroRun (groups ip) with
      | none => exact colon_mem_joinHex (by omega)
      | some run => simp

end IP
end Screego
