import Screego.Lib.JsonText

/-!
# Compacting a text

White space between the tokens is dropped, and the characters that HTML and old
JavaScript take amiss are escaped.  Malformed bytes in a string stay where they
are.  The result is a text of the same document.
-/

namespace Screego
namespace JsonText

open Unicode

/-- The bytes that are escaped for the sake of HTML. -/
def htmlBytes : List UInt8 := [byte '<', byte '>', byte '&']

/-- Compact a text, of which the first argument says whether it begins within a string.  The three
bytes 0xE2, 0x80 and 0xA8 or 0xA9 are a line or paragraph separator. -/
def compact : Bool → List UInt8 → List UInt8
  | _, [] => []
  | false, b :: bs => if isSpace b then compact false bs else b :: compact (b = quote) bs
  | true, b :: bs =>
      if b = backslash then
        match bs with
        | [] => [b]
        | e :: bs => b :: e :: compact true bs
      else if b = quote then b :: compact false bs
      else if b ∈ htmlBytes then unicodeEscape b.toNat ++ compact true bs
      else
        match bs with
        | c :: x :: rest =>
            if b = 0xE2 ∧ c = 0x80 ∧ (x = 0xA8 ∨ x = 0xA9) then
              unicodeEscape (0x2020 + x.toNat % 16) ++ compact true rest
            else b :: compact true (c :: x :: rest)
        | bs => b :: compact true bs

/-! ## Outside of strings -/

theorem compact_spaces {s : List UInt8} (hs : Spaces s) (rest : List UInt8) :
    compact false (s ++ rest) = compact false rest := by
  induction s with
  | nil => rfl
  | cons b s ih =>
      rw [Spaces, List.forall_mem_cons] at hs
      rw [List.cons_append, compact, if_pos hs.1]
      exact ih hs.2

theorem compact_token {b : UInt8} (hspace : isSpace b = false) (hquote : b ≠ quote)
    (rest : List UInt8) : compact false (b :: rest) = b :: compact false rest := by
  rw [compact, if_neg (by simp [hspace])]
  simp [hquote]

theorem compact_tokens {l : List UInt8} (h : ∀ b ∈ l, isSpace b = false ∧ b ≠ quote)
    (rest : List UInt8) : compact false (l ++ rest) = l ++ compact false rest := by
  induction l with
  | nil => rfl
  | cons b l ih =>
      rw [List.forall_mem_cons] at h
      rw [List.cons_append, compact_token h.1.1 h.1.2, ih h.2, List.cons_append]

/-! ## In a string -/

/-- The pieces that a literal is read in. -/
inductive Pieces : List UInt8 → Prop
  | nil : Pieces []
  | short {e : UInt8} {u : ℕ} {bs : List UInt8} (he : shorts.lookup e = some u)
      (h : Pieces bs) : Pieces (backslash :: e :: bs)
  | unicode {a b c d : UInt8} {bs : List UInt8} (hhex : isHex a ∧ isHex b ∧ isHex c ∧ isHex d)
      (h : Pieces bs) : Pieces (backslash :: byte 'u' :: a :: b :: c :: d :: bs)
  | rune {c : Char} {bs : List UInt8} (hctl : 0x20 ≤ c.toNat) (hquote : c ≠ '"')
      (hback : c ≠ '\\') (h : Pieces bs) : Pieces (String.utf8EncodeChar c ++ bs)
  | bad {b : UInt8} {bs : List UInt8} (hb : 0x80 ≤ b) (hrune : rune (b :: bs) = none)
      (h : Pieces bs) : Pieces (b :: bs)

theorem Body.of_cons {b : UInt8} {bs : List UInt8} (h : Body (b :: bs)) (hb : b ≠ backslash) :
    Plain b ∧ Body bs := by
  cases h with
  | plain hplain h => exact ⟨hplain, h⟩
  | short _ _ => exact absurd rfl hb
  | unicode _ _ => exact absurd rfl hb

theorem Body.of_tails {t bs : List UInt8} (h : Body (t ++ bs)) (ht : ∀ x ∈ t, IsTail x) :
    Body bs := by
  induction t with
  | nil => exact h
  | cons b t ih =>
      rw [List.forall_mem_cons] at ht
      refine ih (h.of_cons ?_).2 ht.2
      rintro rfl
      exact absurd ht.1.1 (by decide)

/-- A byte of its own is an ASCII character. -/
theorem rune_of_ascii {b : UInt8} (hb : b < 0x80) (bs : List UInt8) :
    rune (b :: bs) = some (Char.ofNat b.toNat) := by
  rw [UInt8.lt_iff_toNat_lt] at hb
  have hlt : b.toNat < 0x80 := hb
  have hnat : (Char.ofNat b.toNat).toNat = b.toNat := toNat_ofNat (Or.inl (by omega))
  have hbyte : byte (Char.ofNat b.toNat) = b := by rw [byte, hnat, UInt8.ofNat_toNat]
  have hencode := encode_of_ascii (c := Char.ofNat b.toNat) (by omega)
  rw [hbyte] at hencode
  have hrune := rune_encode (Char.ofNat b.toNat) bs
  rwa [hencode] at hrune

theorem le_of_plain {c : Char} (hc : c.toNat < 0x80) (h : Plain (byte c)) : 0x20 ≤ c.toNat := by
  have hle := UInt8.le_iff_toNat_le.mp h.1
  rwa [byte, UInt8.toNat_ofNat', Nat.mod_eq_of_lt (by omega)] at hle

theorem Body.pieces {body : List UInt8} (h : Body body) : Pieces body := by
  induction hn : body.length using Nat.strong_induction_on generalizing body with
  | _ n ih =>
  subst hn
  cases h with
  | nil => exact .nil
  | short he h => exact .short he (ih _ (by simp only [List.length_cons]; omega) h rfl)
  | unicode hhex h =>
      exact .unicode hhex (ih _ (by simp only [List.length_cons]; omega) h rfl)
  | @plain b bs hb h =>
      cases hrune : rune (b :: bs) with
      | none =>
          refine .bad (UInt8.not_lt.mp fun hlt ↦ ?_) hrune (ih _ (by simp) h rfl)
          rw [rune_of_ascii hlt] at hrune
          cases hrune
      | some c =>
          obtain ⟨rest, hrest⟩ := rune_eq_some hrune
          rcases Nat.lt_or_ge c.toNat 0x80 with hc | hc
          · rw [encode_of_ascii hc, List.singleton_append] at hrest
            obtain ⟨rfl, rfl⟩ := List.cons.inj hrest
            have hpiece := Pieces.rune (c := c) (le_of_plain hc hb) ?_ ?_ (ih _ (by simp) h rfl)
            · rwa [encode_of_ascii hc] at hpiece
            · rintro rfl
              exact hb.2.1 rfl
            · rintro rfl
              exact hb.2.2 rfl
          · obtain ⟨b', t, hencode, hb', ht⟩ := encode_of_not_ascii hc
            rw [hencode, List.cons_append] at hrest
            obtain ⟨rfl, rfl⟩ := List.cons.inj hrest
            have hpiece := Pieces.rune (c := c) (by omega) ?_ ?_
              (ih rest.length (by simp only [List.length_cons, List.length_append]; omega)
                (h.of_tails ht) rfl)
            · rwa [hencode] at hpiece
            · rintro rfl
              exact absurd hc (by decide)
            · rintro rfl
              exact absurd hc (by decide)

/-- A byte that is copied within a string, whatever comes next but for the separators. -/
theorem compact_copy {b : UInt8} {bs : List UInt8} (hback : b ≠ backslash) (hquote : b ≠ quote)
    (hhtml : b ∉ htmlBytes)
    (hsep : ∀ x rest, b = 0xE2 → bs = 0x80 :: x :: rest → x ≠ 0xA8 ∧ x ≠ 0xA9) :
    compact true (b :: bs) = b :: compact true bs := by
  conv_lhs => unfold compact
  rw [if_neg hback, if_neg hquote, if_neg hhtml]
  split
  · next c x rest =>
      refine if_neg ?_
      rintro ⟨hb, rfl, hx⟩
      obtain ⟨h8, h9⟩ := hsep x rest hb rfl
      exact hx.elim h8 h9
  · rfl

theorem notMem_htmlBytes {b : UInt8} (hb : 0x80 ≤ b) :
    b ≠ backslash ∧ b ≠ quote ∧ b ∉ htmlBytes := by
  have hne (c : UInt8) (hc : c < 0x80) : b ≠ c := by
    rintro rfl
    exact absurd hc (UInt8.not_lt.mpr hb)
  refine ⟨hne _ (by decide), hne _ (by decide), fun hmem ↦ ?_⟩
  simp only [htmlBytes, List.mem_cons, List.not_mem_nil, or_false] at hmem
  rcases hmem with h | h | h <;> exact hne _ (by decide) h

theorem compact_tails {t : List UInt8} (ht : ∀ x ∈ t, IsTail x) (bs : List UInt8) :
    compact true (t ++ bs) = t ++ compact true bs := by
  induction t with
  | nil => rfl
  | cons b t ih =>
      rw [List.forall_mem_cons] at ht
      obtain ⟨hback, hquote, hhtml⟩ := notMem_htmlBytes ht.1.1
      rw [List.cons_append, compact_copy hback hquote hhtml, ih ht.2, List.cons_append]
      rintro x rest rfl
      exact absurd ht.1.2 (by decide)

/-- The literal `body` becomes `body'`. -/
structure Compacted (body body' : List UInt8) : Prop where
  wellFormed : Body body'
  sameUnits : readUnits 0 body' = readUnits 0 body
  /-- No character is completed by what was moved next to it. -/
  tails : ∀ p, (∀ x ∈ p, IsTail x) → p <+: body' → p <+: body
  compacts : ∀ rest, compact true (body ++ quote :: rest) = body' ++ quote :: compact false rest

theorem eq_nil_of_tails {b : UInt8} {p l : List UInt8} (hb : ¬ IsTail b) (hp : ∀ x ∈ p, IsTail x)
    (h : p <+: b :: l) : p = [] := by
  cases p with
  | nil => rfl
  | cons c p =>
      obtain ⟨rfl, -⟩ := List.cons_prefix_cons.mp h
      exact absurd (hp c List.mem_cons_self) hb

theorem not_isTail_backslash : ¬ IsTail backslash := fun h ↦ absurd h.1 (by decide)

section Compacted

variable {bs bs' : List UInt8}

theorem Compacted.short (h : Compacted bs bs') {e : UInt8} {u : ℕ} (he : shorts.lookup e = some u) :
    Compacted (backslash :: e :: bs) (backslash :: e :: bs') where
  wellFormed := .short he h.wellFormed
  sameUnits := by rw [readUnits_short he, readUnits_short he, h.sameUnits]
  tails p hp hpre := by
    rw [eq_nil_of_tails not_isTail_backslash hp hpre]
    exact List.nil_prefix
  compacts rest := by
    rw [List.cons_append, List.cons_append]
    conv_lhs => unfold JsonText.compact
    rw [if_pos rfl]
    dsimp only
    rw [h.compacts rest]
    rfl

theorem compact_hex {b : UInt8} (hb : isHex b = true) (l : List UInt8) :
    compact true (b :: l) = b :: compact true l := by
  have hne (c : UInt8) (hc : isHex c = false) : b ≠ c := by
    rintro rfl
    rw [hc] at hb
    cases hb
  refine compact_copy (hne _ (by decide)) (hne _ (by decide)) (fun hmem ↦ ?_)
    fun _ _ h ↦ absurd h (hne _ (by decide))
  simp only [htmlBytes, List.mem_cons, List.not_mem_nil, or_false] at hmem
  rcases hmem with h | h | h <;> exact hne _ (by decide) h

theorem Compacted.unicode (h : Compacted bs bs') {a b c d : UInt8}
    (hhex : isHex a ∧ isHex b ∧ isHex c ∧ isHex d) :
    Compacted (backslash :: byte 'u' :: a :: b :: c :: d :: bs)
      (backslash :: byte 'u' :: a :: b :: c :: d :: bs') where
  wellFormed := .unicode hhex h.wellFormed
  sameUnits := by rw [readUnits_unicode, readUnits_unicode, h.sameUnits]
  tails p hp hpre := by
    rw [eq_nil_of_tails not_isTail_backslash hp hpre]
    exact List.nil_prefix
  compacts rest := by
    simp only [List.cons_append]
    conv_lhs => unfold JsonText.compact
    rw [if_pos rfl]
    dsimp only
    rw [compact_hex hhex.1, compact_hex hhex.2.1, compact_hex hhex.2.2.1, compact_hex hhex.2.2.2,
      h.compacts rest]

/-- A character that is escaped. -/
theorem Compacted.escape (h : Compacted bs bs') {c : Char} (hback : c ≠ '\\')
    (hc : c.toNat < 0x10000)
    (hcompact : ∀ l, compact true (String.utf8EncodeChar c ++ l) =
      unicodeEscape c.toNat ++ compact true l) :
    Compacted (String.utf8EncodeChar c ++ bs) (unicodeEscape c.toNat ++ bs') where
  wellFormed := (chunk_unicodeEscape hc).body bs' h.wellFormed
  sameUnits := by
    rw [(chunk_unicodeEscape hc).units, readUnits_rune hback, h.sameUnits, Unicode.units, if_pos hc]
  tails p hp hpre := by
    rw [eq_nil_of_tails not_isTail_backslash hp hpre]
    exact List.nil_prefix
  compacts rest := by
    rw [List.append_assoc, hcompact, h.compacts rest, List.append_assoc]

/-- The first byte of a character, and the bytes in the middle of it. -/
theorem encode_eq_cons (c : Char) :
    ∃ b t, String.utf8EncodeChar c = b :: t ∧ ¬ IsTail b ∧ ∀ x ∈ t, IsTail x := by
  rcases Nat.lt_or_ge c.toNat 0x80 with hc | hc
  · refine ⟨byte c, [], encode_of_ascii hc, fun h ↦ ?_, fun x hx ↦ absurd hx List.not_mem_nil⟩
    have hle := UInt8.le_iff_toNat_le.mp h.1
    rw [byte, UInt8.toNat_ofNat', Nat.mod_eq_of_lt (by omega)] at hle
    exact absurd hle (Nat.not_le_of_lt hc)
  · obtain ⟨b, t, hencode, hb, ht⟩ := encode_of_not_ascii hc
    exact ⟨b, t, hencode, fun h ↦ absurd h.2 (UInt8.not_lt.mpr hb), ht⟩

theorem rune_separator (rest : List UInt8) :
    rune (0xE2 :: 0x80 :: 0xA8 :: rest) = some '\u2028' ∧
      rune (0xE2 :: 0x80 :: 0xA9 :: rest) = some '\u2029' :=
  ⟨rune_encode '\u2028' rest, rune_encode '\u2029' rest⟩

theorem compact_encode {c : Char} (hquote : c ≠ '"') (hback : c ≠ '\\') (hhtml : c ∉ htmlCharacters)
    (l : List UInt8) :
    compact true (String.utf8EncodeChar c ++ l) = String.utf8EncodeChar c ++ compact true l := by
  have hrune := rune_encode c l
  have hne {x : Char} (hx : x.toNat < 0x80) (hcx : c ≠ x) : byte x ∉ String.utf8EncodeChar c :=
    fun h ↦ hcx (eq_of_byte_mem_encode hx h)
  obtain ⟨b, t, hencode, -, ht⟩ := encode_eq_cons c
  have hb {x : Char} (hx : x.toNat < 0x80) (hcx : c ≠ x) : b ≠ byte x := by
    rintro rfl
    exact hne hx hcx (by rw [hencode]; exact List.mem_cons_self)
  simp only [htmlCharacters, List.mem_cons, List.not_mem_nil, or_false, not_or] at hhtml
  obtain ⟨hlt, hgt, hamp, hline, hparagraph⟩ := hhtml
  rw [hencode] at hrune ⊢
  rw [List.cons_append, compact_copy (hb (by decide) hback) (hb (by decide) hquote),
    compact_tails ht, List.cons_append]
  · intro hmem
    simp only [htmlBytes, List.mem_cons, List.not_mem_nil, or_false] at hmem
    rcases hmem with h | h | h
    · exact hb (by decide) hlt h
    · exact hb (by decide) hgt h
    · exact hb (by decide) hamp h
  · rintro x rest rfl hrest
    rw [List.cons_append, hrest] at hrune
    constructor
    · rintro rfl
      exact hline (Option.some.inj (hrune.symm.trans (rune_separator rest).1))
    · rintro rfl
      exact hparagraph (Option.some.inj (hrune.symm.trans (rune_separator rest).2))

theorem compact_html {c : Char} (hc : c ∈ htmlCharacters) (l : List UInt8) :
    compact true (String.utf8EncodeChar c ++ l) = unicodeEscape c.toNat ++ compact true l := by
  have hbyte (b : UInt8) (hb : b ∈ htmlBytes) (hback : b ≠ backslash) (hquote : b ≠ quote) :
      compact true (b :: l) = unicodeEscape b.toNat ++ compact true l := by
    conv_lhs => unfold compact
    rw [if_neg hback, if_neg hquote, if_pos hb]
  have hseparator (x : UInt8) (hx : x = 0xA8 ∨ x = 0xA9) :
      compact true (0xE2 :: 0x80 :: x :: l) =
        unicodeEscape (0x2020 + x.toNat % 16) ++ compact true l := by
    conv_lhs => unfold compact
    rw [if_neg (by decide), if_neg (by decide), if_neg (by decide)]
    exact if_pos ⟨rfl, rfl, hx⟩
  simp only [htmlCharacters, List.mem_cons, List.not_mem_nil, or_false] at hc
  rcases hc with rfl | rfl | rfl | rfl | rfl
  · exact hbyte _ (by decide) (by decide) (by decide)
  · exact hbyte _ (by decide) (by decide) (by decide)
  · exact hbyte _ (by decide) (by decide) (by decide)
  · exact hseparator 0xA8 (Or.inl rfl)
  · exact hseparator 0xA9 (Or.inr rfl)

theorem Compacted.rune (h : Compacted bs bs') {c : Char} (hctl : 0x20 ≤ c.toNat) (hquote : c ≠ '"')
    (hback : c ≠ '\\') : ∃ body', Compacted (String.utf8EncodeChar c ++ bs) body' := by
  by_cases hhtml : c ∈ htmlCharacters
  · have hlt : htmlCharacters.all (fun c ↦ c.toNat < 0x10000) = true := by decide
    exact ⟨_, h.escape hback (of_decide_eq_true (List.all_eq_true.mp hlt c hhtml))
      (compact_html hhtml)⟩
  · refine ⟨String.utf8EncodeChar c ++ bs', ?_, ?_, ?_, ?_⟩
    · exact (chunk_encode hctl hquote hback).body bs' h.wellFormed
    · rw [readUnits_rune hback, readUnits_rune hback, h.sameUnits]
    · intro p hp hpre
      obtain ⟨b, t, hencode, hb, -⟩ := encode_eq_cons c
      rw [hencode] at hpre
      rw [eq_nil_of_tails hb hp hpre]
      exact List.nil_prefix
    · intro rest
      rw [List.append_assoc, compact_encode hquote hback hhtml, h.compacts rest, List.append_assoc]

theorem Compacted.bad (h : Compacted bs bs') {b : UInt8} (hb : 0x80 ≤ b)
    (hrune : Unicode.rune (b :: bs) = none) : Compacted (b :: bs) (b :: bs') := by
  obtain ⟨hback, hquote, hhtml⟩ := notMem_htmlBytes hb
  -- a character that is whole after the change was whole before it
  have hrune' : Unicode.rune (b :: bs') = none := by
    cases hsome : Unicode.rune (b :: bs') with
    | none => rfl
    | some c =>
        obtain ⟨r, hr⟩ := rune_eq_some hsome
        obtain ⟨b', t, hencode, -, ht⟩ := encode_eq_cons c
        rw [hencode, List.cons_append] at hr
        obtain ⟨rfl, hbs'⟩ := List.cons.inj hr
        obtain ⟨r', hbs⟩ := h.tails t ht ⟨r, hbs'.symm⟩
        have hold := rune_encode c r'
        rw [hencode, List.cons_append, hbs, hrune] at hold
        cases hold
  refine ⟨?_, ?_, ?_, ?_⟩
  · exact .plain ⟨UInt8.le_trans (by decide) hb, hquote, hback⟩ h.wellFormed
  · rw [readUnits_bad hback hrune, readUnits_bad hback hrune', h.sameUnits]
  · intro p hp hpre
    cases p with
    | nil => exact List.nil_prefix
    | cons x p =>
        rw [List.forall_mem_cons] at hp
        obtain ⟨rfl, htail⟩ := List.cons_prefix_cons.mp hpre
        exact List.cons_prefix_cons.mpr ⟨rfl, h.tails p hp.2 htail⟩
  · intro rest
    rw [List.cons_append, compact_copy hback hquote hhtml, h.compacts rest, List.cons_append]
    rintro x r rfl hr
    cases bs with
    | nil => exact absurd (List.cons.inj hr).1 (by decide)
    | cons c bs =>
        obtain ⟨rfl, hnext⟩ := List.cons.inj hr
        cases bs with
        | nil =>
            obtain rfl := (List.cons.inj hnext).1
            exact ⟨by decide, by decide⟩
        | cons y bs =>
            obtain rfl := (List.cons.inj hnext).1
            constructor
            · rintro rfl
              rw [(rune_separator bs).1] at hrune
              cases hrune
            · rintro rfl
              rw [(rune_separator bs).2] at hrune
              cases hrune

end Compacted

/-- A literal is compacted to a literal of the same units. -/
theorem Pieces.compacted {body : List UInt8} (h : Pieces body) :
    ∃ body', Compacted body body' := by
  induction h with
  | nil =>
      refine ⟨[], .nil, rfl, fun _ _ hpre ↦ hpre, fun rest ↦ ?_⟩
      rw [List.nil_append, List.nil_append]
      conv_lhs => unfold compact
      rw [if_neg (by decide), if_pos rfl]
  | short he _ ih =>
      obtain ⟨bs', hbs'⟩ := ih
      exact ⟨_, hbs'.short he⟩
  | unicode hhex _ ih =>
      obtain ⟨bs', hbs'⟩ := ih
      exact ⟨_, hbs'.unicode hhex⟩
  | rune hctl hquote hback _ ih =>
      obtain ⟨bs', hbs'⟩ := ih
      exact hbs'.rune hctl hquote hback
  | bad hb hrune _ ih =>
      obtain ⟨bs', hbs'⟩ := ih
      exact ⟨_, hbs'.bad hb hrune⟩

/-! ## Documents -/

theorem compact_string {body : List UInt8} (h : Body body) :
    ∃ body', Body body' ∧ readUnits 0 body' = readUnits 0 body ∧
      ∀ rest, compact false (quote :: (body ++ quote :: rest)) =
        quote :: (body' ++ quote :: compact false rest) := by
  obtain ⟨body', hbody⟩ := h.pieces.compacted
  refine ⟨body', hbody.wellFormed, hbody.sameUnits, fun rest ↦ ?_⟩
  rw [compact, if_neg (by decide)]
  simp [hbody.compacts rest]

theorem compact_key {key : List ℕ} {k : List UInt8} (h : Key key k) :
    ∃ k', Key key k' ∧ ∀ rest, compact false (k ++ rest) = k' ++ compact false rest := by
  cases h with
  | @mk body s s' hbody hs hs' =>
      obtain ⟨body', hbody', hunits, hcompact⟩ := compact_string hbody
      have hkey := Key.mk hbody' spaces_nil spaces_nil
      rw [hunits] at hkey
      refine ⟨_, hkey, fun rest ↦ ?_⟩
      have hrest : quote :: (body ++ quote :: (s ++ byte ':' :: s')) ++ rest =
          quote :: (body ++ quote :: (s ++ byte ':' :: (s' ++ rest))) := by simp
      rw [hrest, hcompact, compact_spaces hs, compact_token (by decide) (by decide),
        compact_spaces hs']
      simp

theorem number_tokens {q : NumberState} {l : List UInt8}
    (h : NumberState.scan q l = some (l, [])) : ∀ b ∈ l, isSpace b = false ∧ b ≠ quote := by
  induction l generalizing q with
  | nil => exact fun b hb ↦ absurd hb List.not_mem_nil
  | cons b l ih =>
      rw [NumberState.scan] at h
      cases hstep : q.step b with
      | none =>
          rw [hstep] at h
          dsimp only at h
          split at h <;> simp at h
      | some q' =>
          rw [hstep] at h
          dsimp only at h
          obtain ⟨⟨l', rest⟩, hscan, heq⟩ := Option.map_eq_some_iff.mp h
          obtain ⟨hl, rfl⟩ := Prod.mk.inj heq
          obtain rfl := (List.cons.inj hl).2
          refine List.forall_mem_cons.mpr ⟨⟨?_, ?_⟩, ih hscan⟩
          · cases hspace : isSpace b with
            | false => rfl
            | true =>
                rw [step_of_isSpace hspace q] at hstep
                cases hstep
          · rintro rfl
            cases q <;> cases hstep

/-- The text `t` of a part is compacted to a text of the same part.  An object then keeps other
bytes of its members. -/
def Compacts (d : ℕ) (t : List UInt8) : Part → Prop
  | .value v => ∃ t', Text d (.value v) t' ∧
      ∀ rest, compact false (t ++ rest) = t' ++ compact false rest
  | .items vs => ∃ t', Text d (.items vs) t' ∧
      ∀ rest, compact false (t ++ rest) = t' ++ compact false rest
  | .members ms => ∃ ms' t', ms'.map Entry.field = ms.map Entry.field ∧
      Text d (.members ms') t' ∧ ∀ rest, compact false (t ++ rest) = t' ++ compact false rest

theorem Text.compacts {d : ℕ} {p : Part} {t : List UInt8} (h : Text d p t) : Compacts d t p := by
  induction h with
  | nullName => exact ⟨_, .nullName, compact_tokens (by decide +kernel)⟩
  | trueName => exact ⟨_, .trueName, compact_tokens (by decide +kernel)⟩
  | falseName => exact ⟨_, .falseName, compact_tokens (by decide +kernel)⟩
  | number h => exact ⟨_, .number h, compact_tokens (number_tokens h)⟩
  | @string d body h =>
      obtain ⟨body', hbody', hunits, hcompact⟩ := compact_string h
      have htext := Text.string (d := d) hbody'
      rw [hunits] at htext
      refine ⟨_, htext, fun rest ↦ ?_⟩
      simpa using hcompact rest
  | @emptyArray d s hs =>
      refine ⟨_, .emptyArray spaces_nil, fun rest ↦ ?_⟩
      have hrest : byte '[' :: (s ++ [byte ']']) ++ rest = byte '[' :: (s ++ byte ']' :: rest) := by
        simp
      rw [hrest, compact_token (by decide) (by decide), compact_spaces hs,
        compact_token (by decide) (by decide)]
      rfl
  | @array d s t vs hs _ ih =>
      obtain ⟨t', ht', hcompact⟩ := ih
      refine ⟨_, .array spaces_nil ht', fun rest ↦ ?_⟩
      rw [List.cons_append, List.append_assoc, compact_token (by decide) (by decide),
        compact_spaces hs, hcompact]
      rfl
  | @lastItem d v t s _ hs ih =>
      obtain ⟨t', ht', hcompact⟩ := ih
      refine ⟨_, .lastItem ht' spaces_nil, fun rest ↦ ?_⟩
      have hrest : t ++ (s ++ [byte ']']) ++ rest = t ++ (s ++ byte ']' :: rest) := by simp
      rw [hrest, hcompact, compact_spaces hs, compact_token (by decide) (by decide)]
      simp
  | @item d v vs t s s' t₁ _ hs hs' _ ih ih' =>
      obtain ⟨t', ht', hcompact⟩ := ih
      obtain ⟨t₁', ht₁', hcompact'⟩ := ih'
      refine ⟨_, .item ht' spaces_nil spaces_nil ht₁', fun rest ↦ ?_⟩
      have hrest : t ++ (s ++ byte ',' :: (s' ++ t₁)) ++ rest =
          t ++ (s ++ byte ',' :: (s' ++ (t₁ ++ rest))) := by simp
      rw [hrest, hcompact, compact_spaces hs, compact_token (by decide) (by decide),
        compact_spaces hs', hcompact']
      simp
  | @emptyObject d s hs =>
      refine ⟨_, .emptyObject spaces_nil, fun rest ↦ ?_⟩
      have hrest : byte '\x7b' :: (s ++ [byte '\x7d']) ++ rest =
          byte '\x7b' :: (s ++ byte '\x7d' :: rest) := by simp
      rw [hrest, compact_token (by decide) (by decide), compact_spaces hs,
        compact_token (by decide) (by decide)]
      rfl
  | @object d s t ms hs _ ih =>
      obtain ⟨ms', t', hsame, ht', hcompact⟩ := ih
      have htext := Text.object spaces_nil ht'
      rw [hsame] at htext
      refine ⟨_, htext, fun rest ↦ ?_⟩
      rw [List.cons_append, List.append_assoc, compact_token (by decide) (by decide),
        compact_spaces hs, hcompact]
      rfl
  | @lastMember d key v k t s hk _ hs ih =>
      obtain ⟨k', hk', hkey⟩ := compact_key hk
      obtain ⟨t', ht', hcompact⟩ := ih
      refine ⟨_, _, ?_, .lastMember hk' ht' spaces_nil, fun rest ↦ ?_⟩
      · rfl
      have hrest : k ++ (t ++ (s ++ [byte '\x7d'])) ++ rest =
          k ++ (t ++ (s ++ byte '\x7d' :: rest)) := by simp
      rw [hrest, hkey, hcompact, compact_spaces hs, compact_token (by decide) (by decide)]
      simp
  | @member d key v ms k t s s' t₁ hk _ hs hs' _ ih ih' =>
      obtain ⟨k', hk', hkey⟩ := compact_key hk
      obtain ⟨t', ht', hcompact⟩ := ih
      obtain ⟨ms', t₁', hsame, ht₁', hcompact'⟩ := ih'
      refine ⟨_, _, ?_, .member hk' ht' spaces_nil spaces_nil ht₁', fun rest ↦ ?_⟩
      · rw [List.map_cons, List.map_cons, hsame]
        rfl
      have hrest : k ++ (t ++ (s ++ byte ',' :: (s' ++ t₁))) ++ rest =
          k ++ (t ++ (s ++ byte ',' :: (s' ++ (t₁ ++ rest)))) := by simp
      rw [hrest, hkey, hcompact, compact_spaces hs, compact_token (by decide) (by decide),
        compact_spaces hs', hcompact']
      simp

end JsonText
end Screego
