import Screego.Net.ParseIP

/-!
# Addresses and their texts

`ParseIP` reads the text of an address back, with the zero groups that the text
leaves out.  Two addresses therefore have the same text exactly if they are the
same address in one of its two lengths.
-/

namespace Screego
namespace IP

/-- `To16`. -/
def to16 (ip : IP) : IP :=
  if ip.length = 4 then List.replicate 10 0 ++ ([0xff, 0xff] ++ ip)
  else if ip.length = 16 then ip
  else []

/-! ## Hexadecimal groups -/

theorem hexValue_digitChar {n : ℕ} (h : n < 16) : hexValue n.digitChar = some n := by
  have hall : ∀ n < 16, hexValue n.digitChar = some n := by decide
  exact hall n h

theorem isSome_hexValue {n : ℕ} : ∀ c ∈ Nat.toDigits 16 n, (hexValue c).isSome := by
  induction n using Nat.strongRecOn with
  | ind n ih =>
      intro c hc
      by_cases hn : n < 16
      · rw [Nat.toDigits_of_lt_base hn, List.mem_singleton] at hc
        rw [hc, hexValue_digitChar hn]
        rfl
      · rw [Nat.toDigits_of_base_le (by decide) (by omega), List.mem_append,
          List.mem_singleton] at hc
        rcases hc with hc | rfl
        · exact ih (n / 16) (by omega) c hc
        · rw [hexValue_digitChar (Nat.mod_lt n (by decide))]
          rfl

theorem foldl_hexValue (n : ℕ) :
    (Nat.toDigits 16 n).foldl (fun acc c ↦ acc * 16 + (hexValue c).getD 0) 0 = n := by
  induction n using Nat.strongRecOn with
  | ind n ih =>
      by_cases hn : n < 16
      · rw [Nat.toDigits_of_lt_base hn, List.foldl_cons, List.foldl_nil, hexValue_digitChar hn,
          Option.getD_some]
        omega
      · rw [Nat.toDigits_of_base_le (by decide) (by omega), List.foldl_append,
          ih (n / 16) (by omega), List.foldl_cons, List.foldl_nil,
          hexValue_digitChar (Nat.mod_lt n (by decide)), Option.getD_some]
        omega

/-- The bytes of 16-bit groups. -/
def bytes (gs : List ℕ) : IP := gs.flatMap fun g ↦ [UInt8.ofNat (g / 256), UInt8.ofNat g]

theorem bytes_cons (g : ℕ) (gs : List ℕ) :
    bytes (g :: gs) = [UInt8.ofNat (g / 256), UInt8.ofNat g] ++ bytes gs := rfl

theorem bytes_append (gs gs' : List ℕ) : bytes (gs ++ gs') = bytes gs ++ bytes gs' :=
  List.flatMap_append

theorem length_bytes (gs : List ℕ) : (bytes gs).length = 2 * gs.length := by
  induction gs with
  | nil => rfl
  | cons g gs ih =>
      rw [bytes_cons, List.length_append, ih, List.length_cons]
      simp only [List.length_cons, List.length_nil]
      omega

theorem bytes_replicate_zero (n : ℕ) : bytes (List.replicate n 0) = List.replicate (2 * n) 0 := by
  induction n with
  | zero => rfl
  | succ n ih =>
      rw [List.replicate_succ, bytes_cons, ih, Nat.mul_succ, Nat.add_comm, List.replicate_add]
      rfl

theorem parseGroup_toDigits (g : ℕ) :
    parseGroup (Nat.toDigits 16 g) = [UInt8.ofNat (g / 256), UInt8.ofNat g] := by
  simp only [parseGroup, foldl_hexValue]

theorem lt_of_mem_groups {ip : IP} : ∀ g ∈ groups ip, g < 65536 := by
  induction ip using groups.induct with
  | case1 hi lo rest ih =>
      intro g hg
      rw [groups, List.mem_cons] at hg
      rcases hg with rfl | hg
      · have := hi.toNat_lt
        have := lo.toNat_lt
        omega
      · exact ih g hg
  | case2 ip h =>
      intro g hg
      rw [groups] at hg
      · cases hg
      · exact h

theorem bytes_groups {ip : IP} {n : ℕ} (h : ip.length = 2 * n) : bytes (groups ip) = ip := by
  induction n generalizing ip with
  | zero =>
      obtain rfl := List.eq_nil_of_length_eq_zero h
      rfl
  | succ n ih =>
      match ip with
      | hi :: lo :: rest =>
          have hhi : UInt8.ofNat ((hi.toNat * 256 + lo.toNat) / 256) = hi := by
            have := lo.toNat_lt
            rw [show (hi.toNat * 256 + lo.toNat) / 256 = hi.toNat by omega, UInt8.ofNat_toNat]
          have hlo : UInt8.ofNat (hi.toNat * 256 + lo.toNat) = lo := by
            apply UInt8.toNat_inj.mp
            rw [UInt8.toNat_ofNat']
            have := lo.toNat_lt
            omega
          rw [groups, bytes_cons, hhi, hlo, ih]
          · rfl
          · simp only [List.length_cons] at h
            omega

/-! ## Reading groups -/

section Groups

variable {g : ℕ} {rest : List Char}

theorem takeWhile_group (h : ∀ c ∈ rest.head?, hexValue c = none) :
    (Nat.toDigits 16 g ++ rest).takeWhile (fun c ↦ (hexValue c).isSome) = Nat.toDigits 16 g := by
  rw [List.takeWhile_append_of_pos isSome_hexValue]
  cases rest with
  | nil => simp
  | cons c rest => simp [h c rfl]

theorem dropWhile_group (h : ∀ c ∈ rest.head?, hexValue c = none) :
    (Nat.toDigits 16 g ++ rest).dropWhile (fun c ↦ (hexValue c).isSome) = rest := by
  rw [List.dropWhile_append_of_pos isSome_hexValue]
  cases rest with
  | nil => rfl
  | cons c rest => simp [h c rfl]

/-- A group in front of a text that does not go on with a digit. -/
theorem length_group (hg : g < 65536) :
    ¬ ((Nat.toDigits 16 g).length = 0 ∨ 4 < (Nat.toDigits 16 g).length) := by
  have hpos : 0 < (Nat.toDigits 16 g).length := Nat.length_toDigits_pos
  have hle : (Nat.toDigits 16 g).length ≤ 4 :=
    (Nat.length_toDigits_le_iff (by decide) (by decide)).mpr (by omega)
  omega

end Groups

theorem toList_joinHex_cons (g g' : ℕ) (gs : List ℕ) :
    (joinHex (g :: g' :: gs)).toList = Nat.toDigits 16 g ++ ':' :: (joinHex (g' :: gs)).toList := by
  simp [joinHex, hexDigits, String.intercalate_cons_cons]

theorem toList_joinHex_singleton (g : ℕ) : (joinHex [g]).toList = Nat.toDigits 16 g := by
  simp [joinHex, hexDigits]

theorem joinHex_ne_nil (g : ℕ) (gs : List ℕ) : (joinHex (g :: gs)).toList ≠ [] := by
  cases gs with
  | nil =>
      rw [toList_joinHex_singleton]
      exact Nat.toDigits_ne_nil
  | cons g' gs =>
      rw [toList_joinHex_cons]
      simp

theorem head_joinHex {g : ℕ} {gs : List ℕ} {c : Char} {cs : List Char}
    (h : (joinHex (g :: gs)).toList = c :: cs) : c ≠ ':' := by
  have hmem : c ∈ Nat.toDigits 16 g := by
    cases gs with
    | nil =>
        rw [toList_joinHex_singleton] at h
        rw [h]
        exact List.mem_cons_self
    | cons g' gs =>
        rw [toList_joinHex_cons] at h
        obtain ⟨c', cs', hdigits⟩ :=
          List.exists_cons_of_ne_nil (Nat.toDigits_ne_nil (n := g) (b := 16))
        rw [hdigits, List.cons_append, List.cons.injEq] at h
        rw [hdigits, h.1]
        exact List.mem_cons_self
  rintro rfl
  exact absurd (isSome_hexValue ':' hmem) (by decide)

variable {ellipsis : Option ℕ}

/-- One round of the loop over a group that is not the last. -/
theorem parseGroups_cons {g : ℕ} (hg : g < 65536) (k : ℕ) {c : Char} (hc : c ≠ ':')
    (rest : List Char) (ip : IP) :
    parseGroups (k + 1) (Nat.toDigits 16 g ++ ':' :: c :: rest) ip ellipsis =
      parseGroups k (c :: rest) (ip ++ bytes [g]) ellipsis := by
  have hcolon : ∀ d ∈ (':' :: c :: rest).head?, hexValue d = none := by
    rintro d ⟨⟩
    decide
  rw [parseGroups]
  simp only [takeWhile_group hcolon, dropWhile_group hcolon, if_neg (length_group hg),
    parseGroup_toDigits]
  split
  · next h => simp at h
  · next h => simp at h
  · next h => simp at h
  · next h => exact absurd (List.cons.inj (List.cons.inj h).2).1 hc
  · next h => rw [← (List.cons.inj h).2]; rfl
  · next h => exact absurd rfl (h (c :: rest))

/-- The last group. -/
theorem parseGroups_singleton {g : ℕ} (hg : g < 65536) (k : ℕ) (ip : IP) :
    parseGroups (k + 1) (Nat.toDigits 16 g) ip ellipsis = some (ip ++ bytes [g], ellipsis) := by
  have hnil : ∀ d ∈ ([] : List Char).head?, hexValue d = none := by simp
  have htake := takeWhile_group (g := g) hnil
  have hdrop := dropWhile_group (g := g) hnil
  rw [List.append_nil] at htake hdrop
  rw [parseGroups]
  simp only [htake, hdrop, if_neg (length_group hg), parseGroup_toDigits]
  rfl

/-- A group in front of the `::`. -/
theorem parseGroups_ellipsis {g : ℕ} (hg : g < 65536) (k : ℕ) (rest : List Char) (ip : IP) :
    parseGroups (k + 1) (Nat.toDigits 16 g ++ ':' :: ':' :: rest) ip none =
      if rest = [] then some (ip ++ bytes [g], some (ip.length + 2))
      else parseGroups k rest (ip ++ bytes [g]) (some (ip.length + 2)) := by
  have hcolon : ∀ d ∈ (':' :: ':' :: rest).head?, hexValue d = none := by
    rintro d ⟨⟩
    decide
  rw [parseGroups]
  simp only [takeWhile_group hcolon, dropWhile_group hcolon, if_neg (length_group hg),
    parseGroup_toDigits]
  rfl

theorem parseGroups_joinHex {g : ℕ} {gs : List ℕ} (hgs : ∀ x ∈ g :: gs, x < 65536) {k : ℕ}
    (hk : gs.length < k) (ip : IP) :
    parseGroups k (joinHex (g :: gs)).toList ip ellipsis =
      some (ip ++ bytes (g :: gs), ellipsis) := by
  induction gs generalizing g k ip with
  | nil =>
      obtain ⟨k, rfl⟩ := Nat.exists_eq_add_of_lt hk
      rw [toList_joinHex_singleton]
      exact parseGroups_singleton (hgs g List.mem_cons_self) _ ip
  | cons g' gs ih =>
      obtain ⟨hg, hgs⟩ := List.forall_mem_cons.mp hgs
      obtain ⟨k, rfl⟩ : ∃ k', k = k' + 1 := ⟨k - 1, by omega⟩
      obtain ⟨c, cs, hc⟩ := List.exists_cons_of_ne_nil (joinHex_ne_nil g' gs)
      rw [toList_joinHex_cons, hc, parseGroups_cons hg k (head_joinHex hc), ← hc,
        ih hgs (by simpa using hk), List.append_assoc]
      rfl

/-- The groups in front of the `::`. -/
theorem parseGroups_joinHex_ellipsis {g : ℕ} {gs : List ℕ} (hgs : ∀ x ∈ g :: gs, x < 65536)
    {k : ℕ} (hk : gs.length < k) (rest : List Char) (ip : IP) :
    parseGroups k ((joinHex (g :: gs)).toList ++ ':' :: ':' :: rest) ip none =
      if rest = [] then some (ip ++ bytes (g :: gs), some ((ip ++ bytes (g :: gs)).length))
      else parseGroups (k - (gs.length + 1)) rest (ip ++ bytes (g :: gs))
        (some ((ip ++ bytes (g :: gs)).length)) := by
  induction gs generalizing g k ip with
  | nil =>
      obtain ⟨k, rfl⟩ : ∃ k', k = k' + 1 := ⟨k - 1, by omega⟩
      rw [toList_joinHex_singleton, parseGroups_ellipsis (hgs g List.mem_cons_self),
        List.length_append, length_bytes]
      rfl
  | cons g' gs ih =>
      obtain ⟨hg, hgs⟩ := List.forall_mem_cons.mp hgs
      obtain ⟨k, rfl⟩ : ∃ k', k = k' + 1 := ⟨k - 1, by omega⟩
      obtain ⟨c, cs, hc⟩ := List.exists_cons_of_ne_nil (joinHex_ne_nil g' gs)
      have hone : ip ++ bytes [g] ++ bytes (g' :: gs) = ip ++ bytes (g :: g' :: gs) := by
        rw [List.append_assoc]
        rfl
      rw [toList_joinHex_cons, hc, List.append_assoc, List.cons_append, List.cons_append,
        parseGroups_cons hg k (head_joinHex hc), ← List.cons_append, ← hc,
        ih hgs (by simpa using hk), hone, List.length_cons, Nat.add_sub_add_right]

/-! ## The longest run of zeros -/

theorem take_zeroRun (gs : List ℕ) : gs.take (zeroRun gs) = List.replicate (zeroRun gs) 0 := by
  have hprefix := List.prefix_iff_eq_take.mp (List.takeWhile_prefix (l := gs) fun g ↦ g = 0)
  rw [zeroRun, ← hprefix]
  refine List.eq_replicate_of_mem fun g hg ↦ ?_
  have hall := List.all_takeWhile (p := fun g : ℕ ↦ decide (g = 0)) (l := gs)
  exact of_decide_eq_true (List.all_eq_true.mp hall g hg)

/-- What `longestZeroRun` finds is a run of zeros, and not a single one. -/
theorem longestZeroRun_eq {gs : List ℕ} {i len : ℕ} (h : longestZeroRun gs = some (i, len)) :
    2 ≤ len ∧ i + len ≤ gs.length ∧
      gs = gs.take i ++ (List.replicate len 0 ++ gs.drop (i + len)) := by
  have hall : ∀ p ∈ longestZeroRun gs, 2 ≤ p.2 ∧ zeroRun (gs.drop p.1) = p.2 := by
    unfold longestZeroRun
    refine List.foldlRecOn
      (motive := fun best : Option (ℕ × ℕ) ↦ ∀ p ∈ best, 2 ≤ p.2 ∧ zeroRun (gs.drop p.1) = p.2)
      _ _ (by simp) ?_
    intro best hbest i _ p hp
    dsimp only at hp
    split at hp
    · split at hp
      · next h2 =>
          obtain rfl := Option.some.inj hp
          exact ⟨h2, rfl⟩
      · cases hp
    · split at hp
      · next h2 =>
          obtain rfl := Option.some.inj hp
          exact ⟨Nat.le_trans (hbest _ rfl).1 (Nat.le_of_lt h2), rfl⟩
      · exact hbest p hp
  obtain ⟨htwo, hrun⟩ := hall (i, len) h
  dsimp only at htwo hrun
  have htake := take_zeroRun (gs.drop i)
  rw [hrun] at htake
  have hlen : i + len ≤ gs.length := by
    have hlength := congrArg List.length htake
    rw [List.length_take, List.length_drop, List.length_replicate] at hlength
    omega
  refine ⟨htwo, hlen, ?_⟩
  rw [← htake, ← List.drop_drop, List.take_append_drop, List.take_append_drop]

/-! ## Whole addresses -/

theorem expand_bytes {before after : List ℕ} {len : ℕ} (hlen : 2 ≤ len)
    (hsum : before.length + len + after.length = 8) :
    expand (bytes before ++ bytes after, some (bytes before).length) =
      some (bytes (before ++ (List.replicate len 0 ++ after))) := by
  have hshort : (bytes before ++ bytes after).length < 16 := by
    rw [List.length_append, length_bytes, length_bytes]
    omega
  have hzeros : 16 - (bytes before ++ bytes after).length = 2 * len := by
    rw [List.length_append, length_bytes, length_bytes]
    omega
  rw [expand, if_pos hshort, Option.map_some, List.take_left, List.drop_left, hzeros,
    ← bytes_replicate_zero, ← bytes_append, ← bytes_append]

theorem parseIPv6_of_ne {s : List Char} {c : Char} (hhead : s.head? = some c) (hc : c ≠ ':')
    (hpercent : '%' ∉ s) : parseIPv6 s = (parseGroups 8 s [] none).bind expand := by
  unfold parseIPv6
  rw [if_neg hpercent]
  split
  · exact absurd (Option.some.inj hhead).symm hc
  · exact absurd (Option.some.inj hhead).symm hc
  · rfl

theorem parseIPv6_colons {rest : List Char} (hrest : rest ≠ [])
    (hpercent : '%' ∉ ':' :: ':' :: rest) :
    parseIPv6 (':' :: ':' :: rest) = (parseGroups 8 rest [] (some 0)).bind expand := by
  unfold parseIPv6
  rw [if_neg hpercent]
  split
  · next heq => exact absurd (List.cons.inj (List.cons.inj heq).2).2 hrest
  · next heq => rw [(List.cons.inj (List.cons.inj heq).2).2]
  · next h => exact absurd rfl (h rest)

theorem mem_joinHex {gs : List ℕ} {c : Char} (hc : c ∈ (joinHex gs).toList) :
    c = ':' ∨ (hexValue c).isSome := by
  induction gs with
  | nil => simp [joinHex] at hc
  | cons g gs ih =>
      cases gs with
      | nil =>
          rw [toList_joinHex_singleton] at hc
          exact Or.inr (isSome_hexValue c hc)
      | cons g' gs =>
          rw [toList_joinHex_cons, List.mem_append, List.mem_cons] at hc
          rcases hc with hc | rfl | hc
          · exact Or.inr (isSome_hexValue c hc)
          · exact Or.inl rfl
          · exact ih hc

theorem percent_notMem_joinHex (gs : List ℕ) : '%' ∉ (joinHex gs).toList := by
  intro hmem
  rcases mem_joinHex hmem with h | h <;> exact absurd h (by decide)

/-- Groups, the `::` and more groups are read as what they stand for. -/
theorem parseIPv6_elided {before after : List ℕ} {len : ℕ}
    (hbefore : ∀ x ∈ before, x < 65536) (hafter : ∀ x ∈ after, x < 65536) (hlen : 2 ≤ len)
    (hsum : before.length + len + after.length = 8) :
    parseIPv6 ((joinHex before).toList ++ ':' :: ':' :: (joinHex after).toList) =
      some (bytes (before ++ (List.replicate len 0 ++ after))) := by
  have hexpand := expand_bytes hlen hsum
  have hpercent :
      '%' ∉ (joinHex before).toList ++ ':' :: ':' :: (joinHex after).toList := by
    simp [percent_notMem_joinHex]
  rcases before with _ | ⟨g, gs⟩
  · -- the text begins with the `::`
    rw [show (joinHex []).toList = [] from rfl, List.nil_append] at hpercent ⊢
    rcases after with _ | ⟨g, gs⟩
    · simp only [List.length_nil] at hsum
      obtain rfl : len = 8 := by omega
      rfl
    · simp only [List.length_nil, List.length_cons] at hsum
      rw [parseIPv6_colons (joinHex_ne_nil g gs) hpercent, parseGroups_joinHex hafter (by omega),
        Option.bind_some]
      exact hexpand
  · simp only [List.length_cons] at hsum
    obtain ⟨c, cs, hc⟩ := List.exists_cons_of_ne_nil (joinHex_ne_nil g gs)
    rw [parseIPv6_of_ne (c := c) (by rw [hc]; rfl) (head_joinHex hc) hpercent,
      parseGroups_joinHex_ellipsis hbefore (by omega), List.nil_append]
    rcases after with _ | ⟨g', gs'⟩
    · rw [if_pos (show (joinHex []).toList = [] from rfl), Option.bind_some]
      rwa [show bytes [] = [] from rfl, List.append_nil] at hexpand
    · simp only [List.length_cons] at hsum
      rw [if_neg (joinHex_ne_nil g' gs'), parseGroups_joinHex hafter (by omega), Option.bind_some]
      exact hexpand

theorem parseIPv6_string6 {ip : IP} (h : ip.length = 16) :
    parseIPv6 (string6 ip).toList = some ip := by
  have hlength : (groups ip).length = 8 := length_groups h
  have hbytes : bytes (groups ip) = ip := bytes_groups (n := 8) h
  unfold string6
  dsimp only
  cases hrun : longestZeroRun (groups ip) with
  | none =>
      obtain ⟨g, gs, hgs⟩ : ∃ g gs, groups ip = g :: gs :=
        List.exists_cons_of_length_eq_add_one hlength
      have hlt : ∀ x ∈ g :: gs, x < 65536 := hgs ▸ lt_of_mem_groups
      obtain ⟨c, cs, hc⟩ := List.exists_cons_of_ne_nil (joinHex_ne_nil g gs)
      rw [hgs, List.length_cons] at hlength
      rw [hgs] at hbytes ⊢
      dsimp only
      rw [parseIPv6_of_ne (c := c) (by rw [hc]; rfl) (head_joinHex hc)
        (percent_notMem_joinHex _), parseGroups_joinHex hlt (by omega), List.nil_append, hbytes,
        Option.bind_some, expand, if_neg (Nat.not_lt.mpr (Nat.le_of_eq h.symm))]
      rfl
  | some run =>
      obtain ⟨i, len⟩ := run
      obtain ⟨htwo, hle, heq⟩ := longestZeroRun_eq hrun
      have htext : (joinHex ((groups ip).take i) ++ "::" ++
          joinHex ((groups ip).drop (i + len))).toList = (joinHex ((groups ip).take i)).toList ++
            ':' :: ':' :: (joinHex ((groups ip).drop (i + len))).toList := by
        simp
      dsimp only
      rw [htext, parseIPv6_elided (fun x hx ↦ lt_of_mem_groups x (List.mem_of_mem_take hx))
        (fun x hx ↦ lt_of_mem_groups x (List.mem_of_mem_drop hx)) htwo
        (by rw [List.length_take, List.length_drop]; omega), ← heq, hbytes]

/-! ## Dotted decimals -/

theorem parseField_toDigits (b : UInt8) : parseField (Nat.toDigits 10 b.toNat) = some b := by
  have hall : ∀ n < 256, parseField (Nat.toDigits 10 n) = some (UInt8.ofNat n) := by
    decide +kernel
  rw [hall b.toNat b.toNat_lt, UInt8.ofNat_toNat]

theorem dot_notMem_toDigits (n : ℕ) : '.' ∉ Nat.toDigits 10 n := fun hmem ↦
  absurd (Nat.isDigit_of_mem_toDigits (by decide) (by decide) hmem) (by decide)

/-- `ip` in dotted decimals. -/
def dotted (ip : IP) : String := String.intercalate "." (ip.map fun b ↦ b.toNat.repr)

theorem parseIPv4Fields_dotted {ip : IP} (h : ip.length = 4) :
    parseIPv4Fields (dotted ip).toList = some ip := by
  match ip with
  | [a, b, c, d] =>
      have htext : (dotted [a, b, c, d]).toList = Nat.toDigits 10 a.toNat ++
          '.' :: (Nat.toDigits 10 b.toNat ++ '.' :: (Nat.toDigits 10 c.toNat ++
            '.' :: Nat.toDigits 10 d.toNat)) := by
        simp [dotted, String.intercalate_cons_cons, Nat.toList_repr]
      have hsplit : (dotted [a, b, c, d]).toList.splitOn '.' = [Nat.toDigits 10 a.toNat,
          Nat.toDigits 10 b.toNat, Nat.toDigits 10 c.toNat, Nat.toDigits 10 d.toNat] := by
        rw [htext, List.splitOn_append_cons_self_of_not_mem (dot_notMem_toDigits _),
          List.splitOn_append_cons_self_of_not_mem (dot_notMem_toDigits _),
          List.splitOn_append_cons_self_of_not_mem (dot_notMem_toDigits _),
          List.splitOn_eq_singleton (dot_notMem_toDigits _)]
      simp only [parseIPv4Fields, hsplit, parseField_toDigits]
      rfl

/-! ## Reading a text back -/

/-- The first separator of a text that has only one kind of them. -/
theorem find_separator {s : List Char} {sep : Char} (hmem : sep ∈ s)
    (hsep : sep = '.' ∨ sep = ':' ∨ sep = '%')
    (honly : ∀ c ∈ s, c = '.' ∨ c = ':' ∨ c = '%' → c = sep) :
    s.find? (fun c ↦ c = '.' ∨ c = ':' ∨ c = '%') = some sep := by
  cases hfind : s.find? (fun c ↦ c = '.' ∨ c = ':' ∨ c = '%') with
  | none => exact absurd (decide_eq_true hsep) (List.find?_eq_none.mp hfind sep hmem)
  | some c =>
      have hc : c = '.' ∨ c = ':' ∨ c = '%' := by simpa using List.find?_some hfind
      rw [honly c (List.mem_of_find?_eq_some hfind) hc]

theorem mem_dotted {ip : IP} {c : Char} (hc : c ∈ (dotted ip).toList) : c = '.' ∨ c.isDigit := by
  induction ip with
  | nil => simp [dotted] at hc
  | cons b ip ih =>
      have hdigits (hmem : c ∈ b.toNat.repr.toList) : c.isDigit := by
        rw [Nat.toList_repr] at hmem
        exact Nat.isDigit_of_mem_toDigits (by decide) (by decide) hmem
      cases ip with
      | nil =>
          rw [dotted, List.map_singleton, String.intercalate_singleton] at hc
          exact Or.inr (hdigits hc)
      | cons b' ip =>
          have htext : dotted (b :: b' :: ip) = b.toNat.repr ++ "." ++ dotted (b' :: ip) := by
            simp only [dotted, List.map_cons, String.intercalate_cons_cons]
          rw [htext, String.toList_append, String.toList_append, List.mem_append,
            List.mem_append] at hc
          rcases hc with (hc | hc) | hc
          · exact Or.inr (hdigits hc)
          · exact Or.inl (List.mem_singleton.mp hc)
          · exact ih hc

theorem find_dotted {ip : IP} (h : ip.length = 4) :
    (dotted ip).toList.find? (fun c ↦ c = '.' ∨ c = ':' ∨ c = '%') = some '.' := by
  refine find_separator ?_ (Or.inl rfl) fun c hc hsep ↦ ?_
  · match ip with
    | [a, b, c, d] => simp [dotted, String.intercalate_cons_cons]
  · rcases mem_dotted hc with rfl | hdigit
    · rfl
    · rcases hsep with rfl | rfl | rfl <;> exact absurd hdigit (by decide)

theorem mem_string6 {ip : IP} {c : Char} (hc : c ∈ (string6 ip).toList) :
    c = ':' ∨ (hexValue c).isSome := by
  unfold string6 at hc
  dsimp only at hc
  split at hc
  · exact mem_joinHex hc
  · rw [String.toList_append, String.toList_append, List.mem_append, List.mem_append] at hc
    rcases hc with (hc | hc) | hc
    · exact mem_joinHex hc
    · have hcolons : c ∈ [':', ':'] := hc
      exact Or.inl (by simpa using hcolons)
    · exact mem_joinHex hc

theorem find_string6 {ip : IP} (h : ip.length = 16) (hfour : ip.to4 = none) :
    (string6 ip).toList.find? (fun c ↦ c = '.' ∨ c = ':' ∨ c = '%') = some ':' := by
  refine find_separator ?_ (Or.inr (Or.inl rfl)) fun c hc hsep ↦ ?_
  · have hcolon := (colon_mem_toString (Or.inr h)).mpr hfour
    rwa [toString, if_neg (by omega), if_neg (by omega), hfour] at hcolon
  · rcases mem_string6 hc with rfl | hhex
    · rfl
    · rcases hsep with rfl | rfl | rfl <;> exact absurd hhex (by decide)

/-- The bytes of `To4` are the last four of `To16`. -/
theorem to16_of_to4 {ip p4 : IP} (h : ip.to4 = some p4) :
    p4.length = 4 ∧ ip.to16 = List.replicate 10 0 ++ ([0xff, 0xff] ++ p4) := by
  unfold to4 at h
  split at h
  · next hfour =>
      obtain rfl := Option.some.inj h
      exact ⟨hfour, if_pos hfour⟩
  · next hfour =>
      split at h
      · next hmapped =>
          obtain rfl := Option.some.inj h
          refine ⟨by rw [List.length_drop, hmapped.1], ?_⟩
          rw [to16, if_neg hfour, if_pos hmapped.1, ← List.append_assoc, ← hmapped.2,
            List.take_append_drop]
      · cases h

theorem length_to16 {ip : IP} (h : ip.length = 4 ∨ ip.length = 16) : ip.to16.length = 16 := by
  rcases h with h | h
  · rw [to16, if_pos h, List.length_append, List.length_append, h]
    rfl
  · rw [to16, if_neg (by omega), if_pos h, h]

theorem to4_to16 {ip : IP} (h : ip.length = 4) : ip.to16.to4 = some ip := by
  have hto16 : ip.to16 = List.replicate 10 0 ++ ([0xff, 0xff] ++ ip) := if_pos h
  have hlength := length_to16 (Or.inl h)
  rw [to4, if_neg (by omega), if_pos ⟨hlength, by rw [hto16]; rfl⟩, hto16]
  rfl

/-- An address of either length is read back from its text. -/
theorem parseIP_toString {ip : IP} (h : ip.length = 4 ∨ ip.length = 16) :
    parseIP ip.toString = some ip.to16 := by
  have hvalid : ¬ (ip.length ≠ 4 ∧ ip.length ≠ 16) := by omega
  rw [toString, if_neg (by omega), if_neg hvalid]
  cases hfour : ip.to4 with
  | some p4 =>
      obtain ⟨hlength, hto16⟩ := to16_of_to4 hfour
      have hparse : parseIP (dotted p4) = parseIPv4 (dotted p4).toList := by
        simp only [parseIP, find_dotted hlength]
      refine hparse.trans ?_
      rw [parseIPv4, parseIPv4Fields_dotted hlength, hto16]
      rfl
  | none =>
      have hlength : ip.length = 16 := by
        refine h.resolve_left fun hlength ↦ ?_
        rw [to4, if_pos hlength] at hfour
        cases hfour
      have hparse : parseIP (string6 ip) = parseIPv6 (string6 ip).toList := by
        simp only [parseIP, find_string6 hlength hfour]
      refine hparse.trans ?_
      rw [parseIPv6_string6 hlength, to16, if_neg (by omega), if_pos hlength]

/-- What a connection can have as its address: nil if the header of a proxy could not be read. -/
def Valid (ip : IP) : Prop := ip = [] ∨ ip.length = 4 ∨ ip.length = 16

theorem Valid.parseIP_toString {ip : IP} (h : ip.Valid) :
    (parseIP ip.toString).getD [] = ip.to16 := by
  rcases h with rfl | h
  · decide
  · rw [IP.parseIP_toString h, Option.getD_some]

theorem Valid.toString_to16 {ip : IP} (h : ip.Valid) : ip.to16.toString = ip.toString := by
  rcases h with rfl | h | h
  · rfl
  · have hlength := length_to16 (Or.inl h)
    rw [toString, if_neg (by omega), if_neg (by omega), to4_to16 h, toString, if_neg (by omega),
      if_neg (by omega), to4, if_pos h]
  · rw [to16, if_neg (by omega), if_pos h]

/-- Addresses have one text exactly if they are one address. -/
theorem toString_eq_iff {a b : IP} (ha : a.Valid) (hb : b.Valid) :
    a.toString = b.toString ↔ a.to16 = b.to16 := by
  constructor
  · intro h
    rw [← ha.parseIP_toString, ← hb.parseIP_toString, h]
  · intro h
    rw [← ha.toString_to16, ← hb.toString_to16, h]

end IP
end Screego
