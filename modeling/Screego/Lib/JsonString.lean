import Screego.Lib.Unicode

/-!
# String literals of JSON

The bytes between the quotes, the units that they stand for, and two ways of
writing units down.  Malformed UTF-8 is accepted and reads as the replacement
character, one for each byte.
-/

namespace Screego
namespace JsonText

open Unicode

/-! ## Hexadecimal digits -/

def isHex (b : UInt8) : Bool :=
  byte '0' ≤ b && b ≤ byte '9' || byte 'a' ≤ b && b ≤ byte 'f' || byte 'A' ≤ b && b ≤ byte 'F'

def hexVal (b : UInt8) : ℕ :=
  if b ≤ byte '9' then b.toNat - 0x30
  else if b ≤ byte 'F' then b.toNat - 0x37
  else b.toNat - 0x57

def hexDigit (n : ℕ) : UInt8 := UInt8.ofNat (if n < 10 then 0x30 + n else 0x57 + n)

def hex4 (a b c d : UInt8) : ℕ := ((hexVal a * 16 + hexVal b) * 16 + hexVal c) * 16 + hexVal d

theorem hexVal_hexDigit : ∀ n < 16, hexVal (hexDigit n) = n := by decide

theorem isHex_hexDigit : ∀ n < 16, isHex (hexDigit n) = true := by decide

/-! ## What may stand between the quotes -/

def quote : UInt8 := byte '"'

def backslash : UInt8 := byte '\\'

/-- The letters of the short escapes, with their units. -/
def shorts : List (UInt8 × ℕ) :=
  [(byte '"', 0x22), (byte '\\', 0x5C), (byte '/', 0x2F), (byte 'b', 0x08), (byte 'f', 0x0C),
    (byte 'n', 0x0A), (byte 'r', 0x0D), (byte 't', 0x09)]

def Plain (b : UInt8) : Prop := 0x20 ≤ b ∧ b ≠ quote ∧ b ≠ backslash

inductive Body : List UInt8 → Prop
  | nil : Body []
  | plain {b : UInt8} {bs : List UInt8} (hb : Plain b) (h : Body bs) : Body (b :: bs)
  | short {e : UInt8} {u : ℕ} {bs : List UInt8} (he : shorts.lookup e = some u) (h : Body bs) :
      Body (backslash :: e :: bs)
  | unicode {a b c d : UInt8} {bs : List UInt8}
      (hhex : isHex a ∧ isHex b ∧ isHex c ∧ isHex d) (h : Body bs) :
      Body (backslash :: byte 'u' :: a :: b :: c :: d :: bs)

/-- Read up to the closing quote. -/
def scan : List UInt8 → Option (List UInt8 × List UInt8)
  | [] => none
  | b :: bs =>
      if b = quote then some ([], bs)
      else if b = backslash then
        match bs with
        | [] => none
        | e :: bs =>
            if e = byte 'u' then
              match bs with
              | a :: b :: c :: d :: bs =>
                  if isHex a ∧ isHex b ∧ isHex c ∧ isHex d then
                    (scan bs).map (Prod.map (backslash :: e :: a :: b :: c :: d :: ·) id)
                  else none
              | _ => none
            else if (shorts.lookup e).isSome then
              (scan bs).map (Prod.map (backslash :: e :: ·) id)
            else none
      else if b < 0x20 then none
      else (scan bs).map (Prod.map (b :: ·) id)

theorem shorts_unicode : shorts.lookup (byte 'u') = none := by decide

theorem Body.scan_append {body : List UInt8} (h : Body body) (rest : List UInt8) :
    scan (body ++ quote :: rest) = some (body, rest) := by
  induction h with
  | nil =>
      rw [List.nil_append]
      unfold scan
      rw [if_pos rfl]
  | plain hb _ ih =>
      rw [List.cons_append]
      unfold scan
      rw [if_neg hb.2.1, if_neg hb.2.2, if_neg (UInt8.not_lt.mpr hb.1), ih, Option.map_some]
      rfl
  | @short e u bs he _ ih =>
      have hne : e ≠ byte 'u' := by
        rintro rfl
        rw [shorts_unicode] at he
        cases he
      rw [List.cons_append, List.cons_append]
      unfold scan
      rw [if_neg (by decide), if_pos rfl]
      dsimp only
      rw [if_neg hne, he, if_pos (by rfl), ih, Option.map_some]
      rfl
  | unicode hhex _ ih =>
      simp only [List.cons_append]
      unfold scan
      rw [if_neg (by decide), if_pos rfl]
      dsimp only
      rw [if_pos rfl, if_pos hhex, ih, Option.map_some]
      rfl

theorem scan_of_map {f : List UInt8 → List UInt8} {bs body rest : List UInt8}
    (h : (scan bs).map (Prod.map f id) = some (body, rest)) :
    ∃ body', scan bs = some (body', rest) ∧ body = f body' := by
  obtain ⟨⟨body', rest'⟩, hscan, heq⟩ := Option.map_eq_some_iff.mp h
  obtain ⟨rfl, rfl⟩ := Prod.mk.inj heq
  exact ⟨body', hscan, rfl⟩

theorem body_of_scan {bs body rest : List UInt8} (h : scan bs = some (body, rest)) :
    Body body ∧ bs = body ++ quote :: rest := by
  fun_induction scan bs generalizing body with
  | case1 => cases h
  | case2 bs =>
      obtain ⟨rfl, rfl⟩ := Prod.mk.inj (Option.some.inj h)
      exact ⟨.nil, rfl⟩
  | case3 => cases h
  | case4 a b c d bs hhex _ ih =>
      obtain ⟨body', hscan, rfl⟩ := scan_of_map h
      obtain ⟨hbody, rfl⟩ := ih hscan
      exact ⟨.unicode hhex hbody, rfl⟩
  | case5 => cases h
  | case6 => cases h
  | case7 e bs _ he _ ih =>
      obtain ⟨body', hscan, rfl⟩ := scan_of_map h
      obtain ⟨hbody, rfl⟩ := ih hscan
      obtain ⟨u, hu⟩ := Option.isSome_iff_exists.mp he
      exact ⟨.short hu hbody, rfl⟩
  | case8 => cases h
  | case9 => cases h
  | case10 b bs hquote hback hctl ih =>
      obtain ⟨body', hscan, rfl⟩ := scan_of_map h
      obtain ⟨hbody, rfl⟩ := ih hscan
      exact ⟨.plain ⟨UInt8.not_lt.mp hctl, hquote, hback⟩ hbody, rfl⟩

/-! ## What a literal stands for -/

/-- The unit of an escape, and how many bytes it takes after the backslash. -/
def escapeUnit : List UInt8 → ℕ × ℕ
  | e :: a :: b :: c :: d :: _ =>
      if e = byte 'u' then (hex4 a b c d, 5) else ((shorts.lookup e).getD 0, 1)
  | e :: _ => ((shorts.lookup e).getD 0, 1)
  | [] => (0, 0)

/-- The units of a literal, after `k` bytes that are already read. -/
def readUnits : ℕ → List UInt8 → List ℕ
  | _, [] => []
  | k + 1, _ :: bs => readUnits k bs
  | 0, b :: bs =>
      if b = backslash then (escapeUnit bs).1 :: readUnits (escapeUnit bs).2 bs
      else
        match rune (b :: bs) with
        | some c => units c ++ readUnits (c.utf8Size - 1) bs
        | none => replacement.toNat :: readUnits 0 bs

theorem readUnits_append (l bs : List UInt8) : readUnits l.length (l ++ bs) = readUnits 0 bs := by
  induction l with
  | nil => rfl
  | cons b l ih => rw [List.length_cons, List.cons_append, readUnits, ih]

theorem readUnits_short {e : UInt8} {u : ℕ} (he : shorts.lookup e = some u) (bs : List UInt8) :
    readUnits 0 (backslash :: e :: bs) = u :: readUnits 0 bs := by
  have hne : e ≠ byte 'u' := by
    rintro rfl
    rw [shorts_unicode] at he
    cases he
  have hunit : escapeUnit (e :: bs) = (u, 1) := by
    unfold escapeUnit
    split
    · next heq =>
        obtain ⟨rfl, -⟩ := List.cons.inj heq
        rw [if_neg hne, he, Option.getD_some]
    · next heq =>
        obtain ⟨rfl, -⟩ := List.cons.inj heq
        rw [he, Option.getD_some]
    · next heq => cases heq
  rw [readUnits, if_pos rfl, hunit, readUnits]

theorem readUnits_unicode (a b c d : UInt8) (bs : List UInt8) :
    readUnits 0 (backslash :: byte 'u' :: a :: b :: c :: d :: bs) =
      hex4 a b c d :: readUnits 0 bs := by
  have hunit : escapeUnit (byte 'u' :: a :: b :: c :: d :: bs) = (hex4 a b c d, 5) := by
    rw [escapeUnit, if_pos rfl]
  rw [readUnits, if_pos rfl, hunit]
  exact congrArg _ (readUnits_append [byte 'u', a, b, c, d] bs)

theorem readUnits_rune {c : Char} (hc : c ≠ '\\') (bs : List UInt8) :
    readUnits 0 (String.utf8EncodeChar c ++ bs) = units c ++ readUnits 0 bs := by
  have hrune := rune_encode c bs
  have hlength := String.length_utf8EncodeChar c
  have hback : backslash ∉ String.utf8EncodeChar c :=
    fun h ↦ hc (eq_of_byte_mem_encode (by decide) h)
  cases hencode : String.utf8EncodeChar c with
  | nil => exact absurd hencode String.utf8EncodeChar_ne_nil
  | cons b t =>
      rw [hencode] at hrune hlength hback
      have hb : b ≠ backslash := fun h ↦ hback (h ▸ List.mem_cons_self)
      rw [List.cons_append] at hrune ⊢
      rw [readUnits, if_neg hb, hrune]
      dsimp only
      rw [← hlength, List.length_cons, Nat.add_sub_cancel, readUnits_append]

theorem readUnits_bad {b : UInt8} {bs : List UInt8} (hb : b ≠ backslash)
    (hrune : rune (b :: bs) = none) :
    readUnits 0 (b :: bs) = replacement.toNat :: readUnits 0 bs := by
  rw [readUnits, if_neg hb, hrune]

/-! ## Writing -/

/-- `\u` and four digits. -/
def unicodeEscape (u : ℕ) : List UInt8 :=
  [backslash, byte 'u', hexDigit (u / 0x1000 % 16), hexDigit (u / 0x100 % 16),
    hexDigit (u / 0x10 % 16), hexDigit (u % 16)]

/-- The characters that are escaped for the sake of HTML and of old JavaScript. -/
def htmlCharacters : List Char := ['<', '>', '&', '\u2028', '\u2029']

/-- The short escapes that are written; the slash has none. -/
def writtenShorts : List (Char × UInt8) :=
  [('"', byte '"'), ('\\', byte '\\'), ('\u0008', byte 'b'), ('\u000C', byte 'f'),
    ('\n', byte 'n'), ('\r', byte 'r'), ('\t', byte 't')]

/-- One character in a literal, with those of HTML escaped or not. -/
def writeCharacter (html : Bool) (c : Char) : List UInt8 :=
  match writtenShorts.lookup c with
  | some e => [backslash, e]
  | none =>
      if c.toNat < 0x20 ∨ html ∧ c ∈ htmlCharacters then unicodeEscape c.toNat
      else String.utf8EncodeChar c

/-- One unit that is no half of a pair. -/
def writeSingle (html : Bool) (u : ℕ) : List UInt8 :=
  if isHigh u || isLow u then unicodeEscape u else writeCharacter html (Char.ofNat u)

def writeUnits (html : Bool) : List ℕ → List UInt8
  | [] => []
  | [u] => writeSingle html u
  | u :: v :: us =>
      if isHigh u && isLow v then String.utf8EncodeChar (pair u v) ++ writeUnits html us
      else writeSingle html u ++ writeUnits html (v :: us)

/-- `l` may come next in a literal, and reads as `us`. -/
structure Chunk (us : List ℕ) (l : List UInt8) : Prop where
  body : ∀ bs, Body bs → Body (l ++ bs)
  units : ∀ bs, readUnits 0 (l ++ bs) = us ++ readUnits 0 bs

theorem Chunk.append {us us' : List ℕ} {l l' : List UInt8} (h : Chunk us l) (h' : Chunk us' l') :
    Chunk (us ++ us') (l ++ l') where
  body bs hbs := by
    rw [List.append_assoc]
    exact h.body _ (h'.body bs hbs)
  units bs := by rw [List.append_assoc, List.append_assoc, h.units, h'.units]

theorem chunk_unicodeEscape {u : ℕ} (hu : u < 0x10000) : Chunk [u] (unicodeEscape u) where
  body bs hbs := by
    refine .unicode ⟨?_, ?_, ?_, ?_⟩ hbs <;> exact isHex_hexDigit _ (Nat.mod_lt _ (by decide))
  units bs := by
    have hvalue : hex4 (hexDigit (u / 0x1000 % 16)) (hexDigit (u / 0x100 % 16))
        (hexDigit (u / 0x10 % 16)) (hexDigit (u % 16)) = u := by
      have hdigit (n : ℕ) := hexVal_hexDigit (n % 16) (Nat.mod_lt n (by decide))
      rw [hex4, hdigit, hdigit, hdigit, hdigit]
      omega
    exact (readUnits_unicode _ _ _ _ bs).trans (by rw [hvalue]; rfl)

theorem le_of_mem_encode {c : Char} (hctl : 0x20 ≤ c.toNat) :
    ∀ b ∈ String.utf8EncodeChar c, 0x20 ≤ b := by
  rcases Nat.lt_or_ge c.toNat 0x80 with hc | hc
  · rw [encode_of_ascii hc, List.forall_mem_singleton, UInt8.le_iff_toNat_le, byte,
      UInt8.toNat_ofNat', Nat.mod_eq_of_lt (by omega)]
    exact hctl
  · obtain ⟨b, t, hencode, hb, ht⟩ := encode_of_not_ascii hc
    rw [hencode, List.forall_mem_cons]
    exact ⟨UInt8.le_trans (by decide) hb, fun x hx ↦ UInt8.le_trans (by decide) (ht x hx).1⟩

theorem chunk_encode {c : Char} (hctl : 0x20 ≤ c.toNat) (hquote : c ≠ '"') (hback : c ≠ '\\') :
    Chunk (units c) (String.utf8EncodeChar c) where
  body bs hbs := by
    have hplain : ∀ b ∈ String.utf8EncodeChar c, Plain b := by
      intro b hb
      refine ⟨?_, ?_, ?_⟩
      · exact le_of_mem_encode hctl b hb
      · rintro rfl
        exact hquote (eq_of_byte_mem_encode (by decide) hb)
      · rintro rfl
        exact hback (eq_of_byte_mem_encode (by decide) hb)
    generalize String.utf8EncodeChar c = l at hplain
    induction l with
    | nil => exact hbs
    | cons b l ih =>
        rw [List.forall_mem_cons] at hplain
        exact .plain hplain.1 (ih hplain.2)
  units bs := readUnits_rune hback bs

theorem chunk_writeCharacter (html : Bool) (c : Char) :
    Chunk (units c) (writeCharacter html c) := by
  unfold writeCharacter
  split
  · next e hlookup =>
      have hshorts : ∀ p ∈ writtenShorts,
          shorts.lookup p.2 = some p.1.toNat ∧ units p.1 = [p.1.toNat] := by decide
      obtain ⟨l, l', hl, -⟩ := List.lookup_eq_some_iff.mp hlookup
      obtain ⟨hshort, hunits⟩ := hshorts (c, e) (by rw [hl]; simp)
      rw [hunits]
      exact ⟨fun bs hbs ↦ .short hshort hbs, readUnits_short hshort⟩
  · next hlookup =>
      split
      · next hspecial =>
          have hlt : c.toNat < 0x10000 := by
            rcases hspecial with hctl | ⟨-, hc⟩
            · omega
            · have hhtml : htmlCharacters.all (fun c ↦ c.toNat < 0x10000) = true := by decide
              exact of_decide_eq_true (List.all_eq_true.mp hhtml c hc)
          rw [units, if_pos hlt]
          exact chunk_unicodeEscape hlt
      · next hspecial =>
          rw [not_or, Nat.not_lt] at hspecial
          refine chunk_encode hspecial.1 ?_ ?_
          · rintro rfl
            cases hlookup
          · rintro rfl
            cases hlookup

theorem chunk_writeSingle (html : Bool) {u : ℕ} (hu : u < 0x10000) :
    Chunk [u] (writeSingle html u) := by
  unfold writeSingle
  split
  · exact chunk_unicodeEscape hu
  · next h =>
      rw [isHigh, isLow] at h
      simp only [Bool.or_eq_true, Bool.and_eq_true, decide_eq_true_eq] at h
      have hvalid : u.isValidChar := by
        unfold Nat.isValidChar
        omega
      have hchunk := chunk_writeCharacter html (Char.ofNat u)
      rwa [units, toNat_ofNat hvalid, if_pos hu] at hchunk

theorem chunk_pair {u v : ℕ} (hu : isHigh u = true) (hv : isLow v = true) :
    Chunk [u, v] (String.utf8EncodeChar (pair u v)) := by
  have hlarge := toNat_pair hu hv
  have hne (c : Char) (hc : c.toNat < 0x10000) : pair u v ≠ c := by
    rintro rfl
    omega
  rw [← units_pair hu hv]
  exact chunk_encode (by omega) (hne _ (by decide)) (hne _ (by decide))

/-- What is written is read back. -/
theorem chunk_writeUnits (html : Bool) {us : List ℕ} (h : ∀ u ∈ us, u < 0x10000) :
    Chunk us (writeUnits html us) := by
  fun_induction writeUnits html us with
  | case1 => exact ⟨fun _ hbs ↦ hbs, fun _ ↦ rfl⟩
  | case2 u => exact chunk_writeSingle html (h u List.mem_cons_self)
  | case3 u v us hpair ih =>
      rw [List.forall_mem_cons, List.forall_mem_cons] at h
      rw [Bool.and_eq_true] at hpair
      exact (chunk_pair hpair.1 hpair.2).append (ih h.2.2)
  | case4 u v us hpair ih =>
      rw [List.forall_mem_cons] at h
      exact (chunk_writeSingle html h.1).append (ih h.2)

end JsonText
end Screego
