import Screego.Lib.JsonWrite

/-!
# Decoding documents into records

A record is filled from the members of an object, in their order.  Case does not
matter for a key, members that the record has no field for are passed over, and
`null` leaves everything as it is.
-/

namespace Screego
namespace JsonText

open Unicode

/-! ## Documents -/

/-- Read a document after white space, and leave what comes after it. -/
def readDocument (d : ℕ) (bs : List UInt8) : Option (Value × List UInt8) :=
  readValue (2 * bs.length) d (skip bs)

theorem readDocument_append {d : ℕ} {v : Value} {s t rest : List UInt8} (hs : Spaces s)
    (h : Text d (.value v) t) (hrest : Ends rest) :
    readDocument d (s ++ (t ++ rest)) = some (v, rest) := by
  have hread : Reads d t (.value v) := h.reads
  rw [readDocument, h.skip_append hs]
  refine hread _ rest ?_ hrest
  simp only [List.length_append]
  omega

/-- The document, if there is nothing after it but white space. -/
def parse (d : ℕ) (bs : List UInt8) : Option Value :=
  (readDocument d bs).bind fun p ↦ if skip p.2 = [] then some p.1 else none

theorem parse_append {d : ℕ} {v : Value} {t s : List UInt8} (h : Text d (.value v) t)
    (hs : Spaces s) : parse d (t ++ s) = some v := by
  have hends : Ends s := by
    intro b hb
    exact step_of_isSpace (hs b (List.mem_of_mem_head? hb))
  have hread := readDocument_append spaces_nil h hends
  have hskip := skip_append hs []
  rw [List.append_nil] at hskip
  rw [List.nil_append] at hread
  rw [parse, hread, Option.bind_some]
  exact if_pos hskip

/-! ## Objects -/

/-- A text of an object with the given members. -/
inductive Object : ℕ → List Entry → List UInt8 → Prop
  | empty {d : ℕ} {s : List UInt8} (hs : Spaces s) :
      Object (d + 1) [] (byte '\x7b' :: (s ++ [byte '\x7d']))
  | members {d : ℕ} {s t : List UInt8} {ms : List Entry} (hs : Spaces s)
      (h : Text d (.members ms) t) : Object (d + 1) ms (byte '\x7b' :: (s ++ t))

theorem Object.mono {d d' : ℕ} {ms : List Entry} {t : List UInt8} (h : Object d ms t)
    (hd : d ≤ d') : Object d' ms t := by
  obtain ⟨k, rfl⟩ := Nat.exists_eq_add_of_le' hd
  cases h with
  | empty hs => exact .empty hs
  | members hs h => exact .members hs (h.mono (Nat.le_add_left _ _))

theorem Object.text {d : ℕ} {ms : List Entry} {t : List UInt8} (h : Object d ms t) :
    Text d (.value (.object (ms.map Entry.field))) t := by
  cases h with
  | empty hs => exact .emptyObject hs
  | members hs h => exact .object hs h

/-- The member can be written: its key is in order, and its bytes are a text of its value. -/
structure Entry.Written (d : ℕ) (m : Entry) : Prop where
  key : ∀ u ∈ m.key, u < 0x10000
  text : Text d (.value m.value) m.raw

theorem object_writeObject (html : Bool) {d : ℕ} {ms : List Entry} (h : ∀ m ∈ ms, m.Written d) :
    Object (d + 1) ms (writeObject html ms) := by
  cases ms with
  | nil => exact .empty spaces_nil
  | cons m ms =>
      exact .members (s := []) spaces_nil (text_writeMembers (List.cons_ne_nil m ms)
        (fun m hm ↦ (h m hm).key) fun m hm ↦ (h m hm).text)

/-- The values of the members have texts of their own. -/
theorem Object.forall_text {d : ℕ} {ms : List Entry} {t : List UInt8} (h : Object (d + 1) ms t) :
    ∀ m ∈ ms, Text d (.value m.value) m.raw := by
  have hmembers : ∀ {d : ℕ} {p : Part} {t : List UInt8}, Text d p t → ∀ ms, p = .members ms →
      ∀ m ∈ ms, Text d (.value m.value) m.raw := by
    intro d p t h
    induction h with
    | lastMember _ h _ _ =>
        rintro ms ⟨⟩ m hm
        obtain rfl := List.mem_singleton.mp hm
        exact h
    | member _ h _ _ _ _ ih =>
        rintro ms ⟨⟩ m hm
        rcases List.mem_cons.mp hm with rfl | hm
        · exact h
        · exact ih _ rfl m hm
    | _ =>
        rintro ms ⟨⟩
  cases h with
  | empty _ => exact fun m hm ↦ absurd hm List.not_mem_nil
  | members _ h => exact hmembers h _ rfl

/-- A document whose text begins with a brace is an object. -/
theorem Text.object_of_head {d : ℕ} {v : Value} {t : List UInt8} (h : Text d (.value v) t)
    (hhead : t.head? = some (byte '\x7b')) : ∃ ms, Object d ms t := by
  cases h with
  | emptyObject hs => exact ⟨_, .empty hs⟩
  | object hs h => exact ⟨_, .members hs h⟩
  | number h =>
      obtain ⟨b, t, q, rfl, hstep⟩ := h.exists_cons
      exact absurd (Option.some.inj hhead) (begins_of_step hstep).2.2.2.1
  | _ => exact absurd (Option.some.inj hhead) (by decide)

/-- The members, after the opening brace. -/
def readObject : ℕ → List UInt8 → Option (List Entry × List UInt8)
  | 0, _ => none
  | d + 1, bs =>
      if (skip bs).head? = some (byte '\x7d') then some ([], (skip bs).tail)
      else readMembers (2 * bs.length + 1) d (skip bs)

/-- Fill the record `zero` from the document at the start of the bytes. -/
def readRecord {σ : Type} (set : σ → Entry → Option σ) (zero : σ) (d : ℕ) (bs : List UInt8) :
    Option (σ × List UInt8) :=
  if (skip bs).head? = some (byte '\x7b') then
    (readObject d (skip bs).tail).bind fun p ↦ (p.1.foldlM set zero).map fun x ↦ (x, p.2)
  else
    (readDocument d bs).bind fun p ↦
      match p.1 with
      | .null => some (zero, p.2)
      | _ => none

/-- Fill the record from bytes that are one document. -/
def unmarshal {σ : Type} (set : σ → Entry → Option σ) (zero : σ) (d : ℕ) (bs : List UInt8) :
    Option σ :=
  (readRecord set zero d bs).bind fun p ↦ if skip p.2 = [] then some p.1 else none

section Record

variable {σ : Type} {set : σ → Entry → Option σ} {zero : σ} {d : ℕ} {ms : List Entry}
  {s t : List UInt8}

theorem Object.exists_cons (h : Object d ms t) : ∃ t', t = byte '\x7b' :: t' := by
  cases h with
  | empty hs => exact ⟨_, rfl⟩
  | members hs h => exact ⟨_, rfl⟩

theorem Object.readObject {t' : List UInt8} (h : Object d ms (byte '\x7b' :: t'))
    (rest : List UInt8) : readObject d (t' ++ rest) = some (ms, rest) := by
  generalize ht : byte '\x7b' :: t' = t at h
  cases h with
  | @empty d s hs =>
      obtain rfl := (List.cons.inj ht).2
      rw [JsonText.readObject, List.append_assoc]
      exact ite_close (by decide) hs rest (fun rest ↦ some (([] : List Entry), rest)) _
  | @members d s t ms hs h =>
      obtain rfl := (List.cons.inj ht).2
      have hread : Reads d t (.members ms) := h.reads
      rw [JsonText.readObject, List.append_assoc]
      refine (ite_open h hs (fun b hb ↦ hb.2.2) rest _ fun bs ↦ readMembers _ d bs).trans ?_
      refine hread _ rest ?_
      simp only [List.length_append]
      omega

theorem Object.readRecord (h : Object d ms t) (set : σ → Entry → Option σ) (zero : σ)
    (hs : Spaces s) (rest : List UInt8) :
    readRecord set zero d (s ++ (t ++ rest)) = (ms.foldlM set zero).map fun x ↦ (x, rest) := by
  obtain ⟨t', rfl⟩ := h.exists_cons
  rw [JsonText.readRecord, h.text.skip_append hs, List.cons_append, List.head?_cons, if_pos rfl,
    List.tail_cons, h.readObject rest, Option.bind_some]

theorem ends_nil : Ends [] := by
  rintro b ⟨⟩

theorem Object.unmarshal (h : Object d ms t) :
    unmarshal set zero d t = ms.foldlM set zero := by
  have hread := h.readRecord set zero spaces_nil []
  rw [List.nil_append, List.append_nil] at hread
  rw [JsonText.unmarshal, hread]
  cases ms.foldlM set zero with
  | none => rfl
  | some x => rfl

/-- A record is filled from the members of an object, or left alone. -/
theorem Text.of_unmarshal {d' : ℕ} {v : Value} {x : σ} (h : Text d (.value v) t) (hd : d ≤ d')
    (hx : JsonText.unmarshal set zero d' t = some x) :
    x = zero ∨ ∃ ms, Object d ms t ∧ ms.foldlM set zero = some x := by
  by_cases hhead : t.head? = some (byte '\x7b')
  · obtain ⟨ms, hobject⟩ := h.object_of_head hhead
    rw [(hobject.mono hd).unmarshal] at hx
    exact Or.inr ⟨ms, hobject, hx⟩
  · have hskip := h.skip_append spaces_nil []
    rw [List.nil_append, List.append_nil] at hskip
    obtain ⟨⟨y, rest⟩, hread, hrest⟩ := Option.bind_eq_some_iff.mp hx
    rw [readRecord, hskip, if_neg hhead] at hread
    obtain ⟨⟨w, rest'⟩, -, hw⟩ := Option.bind_eq_some_iff.mp hread
    dsimp only at hrest
    split at hrest
    · cases w with
      | null =>
          obtain ⟨rfl, -⟩ := Prod.mk.inj (Option.some.inj hw)
          exact Or.inl (Option.some.inj hrest).symm
      | _ => cases hw
    · cases hrest

/-- What holds of a record while its fields are set. -/
theorem foldlM_invariant {P : σ → Prop} {x : σ} (hzero : P zero)
    (hset : ∀ m ∈ ms, ∀ y y', P y → set y m = some y' → P y') (h : ms.foldlM set zero = some x) :
    P x := by
  induction ms generalizing zero with
  | nil =>
      obtain rfl := Option.some.inj h
      exact hzero
  | cons m ms ih =>
      rw [List.foldlM_cons] at h
      obtain ⟨y, hy, h⟩ := Option.bind_eq_some_iff.mp h
      exact ih (hset m List.mem_cons_self _ _ hzero hy)
        (fun m hm ↦ hset m (List.mem_cons_of_mem _ hm)) h

/-- What an object was read from. -/
theorem of_readObject {bs rest : List UInt8} (h : readObject d bs = some (ms, rest)) :
    ∃ t, Object d ms (byte '\x7b' :: t) ∧ bs = t ++ rest := by
  cases d with
  | zero => cases h
  | succ d =>
      obtain ⟨s, hs, hskip⟩ := exists_spaces bs
      rw [JsonText.readObject] at h
      split at h
      · next hclose =>
          obtain ⟨rfl, rfl⟩ := Prod.mk.inj (Option.some.inj h)
          obtain ⟨tail, htail⟩ := List.head?_eq_some_iff.mp hclose
          refine ⟨_, .empty hs, ?_⟩
          rw [htail, List.tail_cons]
          rw [htail] at hskip
          rw [hskip]
          simp
      · obtain ⟨t, ht, hrest⟩ := (sound_read _).2.2 d _ _ _ h
        refine ⟨_, .members hs ht, ?_⟩
        rw [List.append_assoc, ← hrest]
        exact hskip

/-- What a record was read from. -/
theorem of_readRecord {x : σ} {bs rest : List UInt8}
    (h : readRecord set zero d bs = some (x, rest)) :
    ((∃ ms s t, Spaces s ∧ Object d ms t ∧ bs = s ++ (t ++ rest) ∧ ms.foldlM set zero = some x) ∨
      x = zero) := by
  obtain ⟨s, hs, hskip⟩ := exists_spaces bs
  rw [JsonText.readRecord] at h
  split at h
  · next hopen =>
      obtain ⟨tail, htail⟩ := List.head?_eq_some_iff.mp hopen
      obtain ⟨⟨ms, rest'⟩, hread, hfold⟩ := Option.bind_eq_some_iff.mp h
      obtain ⟨y, hy, heq⟩ := Option.map_eq_some_iff.mp hfold
      obtain ⟨rfl, rfl⟩ := Prod.mk.inj heq
      rw [htail, List.tail_cons] at hread
      obtain ⟨t, ht, rfl⟩ := of_readObject hread
      refine Or.inl ⟨ms, s, _, hs, ht, ?_, hy⟩
      rw [htail] at hskip
      exact hskip
  · obtain ⟨⟨v, rest'⟩, -, hv⟩ := Option.bind_eq_some_iff.mp h
    cases v with
    | null =>
        obtain ⟨rfl, -⟩ := Prod.mk.inj (Option.some.inj hv)
        exact Or.inr rfl
    | _ => cases hv

end Record

/-! ## Fields -/

/-- A letter without its case.  Two more characters have the case of an ASCII letter. -/
def fold (c : Char) : Char :=
  if c = '\u017F' then 'S' else if c = '\u212A' then 'K' else c.toUpper

def sameName (key : List ℕ) (name : String) : Bool :=
  (text key).toList.map fold = name.toList.map fold

theorem sameName_textUnits (key name : String) :
    sameName (textUnits key) name = decide (key.toList.map fold = name.toList.map fold) := by
  rw [sameName, text_textUnits]

def decodeString (old : String) : Value → Option String
  | .string us => some (text us)
  | .null => some old
  | _ => none

def decodeBool (old : Bool) : Value → Option Bool
  | .bool b => some b
  | .null => some old
  | _ => none

/-- One field of a record, and how it is set. -/
structure RecordField (σ : Type) where
  name : String
  set : σ → Entry → Option σ

/-- Set the field that a member names. -/
def setField {σ : Type} (fields : List (RecordField σ)) (x : σ) (m : Entry) : Option σ :=
  match fields.find? fun field ↦ sameName m.key field.name with
  | some field => field.set x m
  | none => some x

theorem setField_eq_some {σ : Type} {fields : List (RecordField σ)} {x y : σ} {m : Entry}
    (h : setField fields x m = some y) : y = x ∨ ∃ field ∈ fields, field.set x m = some y := by
  rw [setField] at h
  cases hfind : fields.find? fun field ↦ sameName m.key field.name with
  | none =>
      rw [hfind] at h
      exact Or.inl (Option.some.inj h).symm
  | some field =>
      rw [hfind] at h
      exact Or.inr ⟨field, List.mem_of_find?_eq_some hfind, h⟩

end JsonText
end Screego
