import Mathlib.Data.List.TakeWhile
import Screego.Lib.JsonString

/-!
# The text of JSON documents

A grammar of documents over bytes, and a reader for it.  Both bound how deep
arrays and objects are nested.  The reader keeps the bytes of each member of an
object, since a program may want to look into them later, or to pass them on.
-/

namespace Screego
namespace JsonText

open Unicode

/-! ## White space -/

def isSpace (b : UInt8) : Bool :=
  b = byte ' ' || b = byte '\t' || b = byte '\r' || b = byte '\n'

def Spaces (s : List UInt8) : Prop := ∀ b ∈ s, isSpace b = true

theorem spaces_nil : Spaces [] := fun _ hb ↦ absurd hb List.not_mem_nil

def skip (bs : List UInt8) : List UInt8 := bs.dropWhile isSpace

theorem skip_cons {b : UInt8} (hb : isSpace b = false) (bs : List UInt8) :
    skip (b :: bs) = b :: bs :=
  List.dropWhile_cons_of_neg (by simp [hb])

theorem skip_append {s : List UInt8} (hs : Spaces s) (bs : List UInt8) :
    skip (s ++ bs) = skip bs := by
  induction s with
  | nil => rfl
  | cons b s ih =>
      rw [Spaces, List.forall_mem_cons] at hs
      rw [List.cons_append, skip, List.dropWhile_cons_of_pos hs.1]
      exact ih hs.2

theorem exists_spaces (bs : List UInt8) : ∃ s, Spaces s ∧ bs = s ++ skip bs :=
  ⟨bs.takeWhile isSpace, fun _ hb ↦ List.mem_takeWhile_imp hb, List.takeWhile_append_dropWhile.symm⟩

/-! ## Numbers -/

inductive NumberState where
  | start
  | minus
  | zero
  | int
  | dot
  | frac
  | exp
  | expSign
  | expDigits
  deriving DecidableEq

namespace NumberState

def isDigit (b : UInt8) : Bool := byte '0' ≤ b && b ≤ byte '9'

/-- The state after a byte, if the number goes on with it. -/
def step (b : UInt8) : NumberState → Option NumberState
  | start =>
      if b = byte '-' then some minus
      else if b = byte '0' then some zero
      else if isDigit b then some int else none
  | minus => if b = byte '0' then some zero else if isDigit b then some int else none
  | zero =>
      if b = byte '.' then some dot else if b = byte 'e' ∨ b = byte 'E' then some exp else none
  | int =>
      if isDigit b then some int
      else if b = byte '.' then some dot
      else if b = byte 'e' ∨ b = byte 'E' then some exp else none
  | dot => if isDigit b then some frac else none
  | frac =>
      if isDigit b then some frac else if b = byte 'e' ∨ b = byte 'E' then some exp else none
  | exp =>
      if b = byte '+' ∨ b = byte '-' then some expSign
      else if isDigit b then some expDigits else none
  | expSign => if isDigit b then some expDigits else none
  | expDigits => if isDigit b then some expDigits else none

def accepts : NumberState → Bool
  | zero | int | frac | expDigits => true
  | _ => false

/-- Read on as far as the number goes. -/
def scan (q : NumberState) : List UInt8 → Option (List UInt8 × List UInt8)
  | [] => if q.accepts then some ([], []) else none
  | b :: bs =>
      match q.step b with
      | some q' => (scan q' bs).map (Prod.map (b :: ·) id)
      | none => if q.accepts then some ([], b :: bs) else none

theorem scan_append {q : NumberState} {l : List UInt8} (h : scan q l = some (l, []))
    {rest : List UInt8} (hrest : ∀ b ∈ rest.head?, ∀ q : NumberState, q.step b = none) :
    scan q (l ++ rest) = some (l, rest) := by
  induction l generalizing q with
  | nil =>
      have haccepts : q.accepts = true := by
        by_contra hnot
        rw [scan, if_neg hnot] at h
        cases h
      cases rest with
      | nil => exact h
      | cons b rest =>
          rw [List.nil_append, scan, hrest b rfl]
          exact if_pos haccepts
  | cons b l ih =>
      rw [scan] at h
      rw [List.cons_append, scan]
      cases hstep : q.step b with
      | none =>
          rw [hstep] at h
          dsimp only at h
          split at h <;> simp at h
      | some q' =>
          rw [hstep] at h
          dsimp only at h ⊢
          obtain ⟨⟨l', rest'⟩, hscan, heq⟩ := Option.map_eq_some_iff.mp h
          obtain ⟨hl, rfl⟩ := Prod.mk.inj heq
          obtain rfl := (List.cons.inj hl).2
          rw [ih hscan]
          rfl

theorem scan_eq_some {q : NumberState} {bs l rest : List UInt8} (h : scan q bs = some (l, rest)) :
    bs = l ++ rest ∧ scan q l = some (l, []) := by
  induction bs generalizing q l with
  | nil =>
      rw [scan] at h
      split at h
      · next haccepts =>
          obtain ⟨rfl, rfl⟩ := Prod.mk.inj (Option.some.inj h)
          exact ⟨rfl, by rw [scan, if_pos haccepts]⟩
      · cases h
  | cons b bs ih =>
      rw [scan] at h
      cases hstep : q.step b with
      | none =>
          rw [hstep] at h
          dsimp only at h
          split at h
          · next haccepts =>
              obtain ⟨rfl, rfl⟩ := Prod.mk.inj (Option.some.inj h)
              exact ⟨rfl, by rw [scan, if_pos haccepts]⟩
          · cases h
      | some q' =>
          rw [hstep] at h
          dsimp only at h
          obtain ⟨⟨l', rest'⟩, hscan, heq⟩ := Option.map_eq_some_iff.mp h
          obtain ⟨rfl, rfl⟩ := Prod.mk.inj heq
          obtain ⟨rfl, hself⟩ := ih hscan
          refine ⟨rfl, ?_⟩
          rw [scan, hstep]
          dsimp only
          rw [hself]
          rfl

end NumberState

/-- The bytes are a number as a whole. -/
def IsNumber (l : List UInt8) : Prop := NumberState.scan .start l = some (l, [])

/-- No number goes on with what comes next. -/
def Ends (rest : List UInt8) : Prop := ∀ b ∈ rest.head?, ∀ q : NumberState, q.step b = none

/-! ## Documents -/

inductive Value where
  | null
  | bool (b : Bool)
  | number (literal : List UInt8)
  | string (units : List ℕ)
  | array (items : List Value)
  | object (fields : List (List ℕ × Value))

/-- One member of an object, with the bytes of its value. -/
structure Entry where
  key : List ℕ
  raw : List UInt8
  value : Value

def Entry.field (m : Entry) : List ℕ × Value := (m.key, m.value)

/-- A document, or what comes after the bracket that opens one. -/
inductive Part where
  | value (v : Value)
  | items (vs : List Value)
  | members (ms : List Entry)

/-- A key with its colon and the white space after it. -/
inductive Key : List ℕ → List UInt8 → Prop
  | mk {body s s' : List UInt8} (hbody : Body body) (hs : Spaces s) (hs' : Spaces s') :
      Key (readUnits 0 body) (quote :: (body ++ quote :: (s ++ byte ':' :: s')))

/-- The bytes are a text of the document, which is nested at most `d` deep. -/
inductive Text : ℕ → Part → List UInt8 → Prop
  | nullName {d : ℕ} : Text d (.value .null) [byte 'n', byte 'u', byte 'l', byte 'l']
  | trueName {d : ℕ} : Text d (.value (.bool true)) [byte 't', byte 'r', byte 'u', byte 'e']
  | falseName {d : ℕ} :
      Text d (.value (.bool false)) [byte 'f', byte 'a', byte 'l', byte 's', byte 'e']
  | number {d : ℕ} {l : List UInt8} (h : IsNumber l) : Text d (.value (.number l)) l
  | string {d : ℕ} {body : List UInt8} (h : Body body) :
      Text d (.value (.string (readUnits 0 body))) (quote :: (body ++ [quote]))
  | emptyArray {d : ℕ} {s : List UInt8} (hs : Spaces s) :
      Text (d + 1) (.value (.array [])) (byte '[' :: (s ++ [byte ']']))
  | array {d : ℕ} {s t : List UInt8} {vs : List Value} (hs : Spaces s) (h : Text d (.items vs) t) :
      Text (d + 1) (.value (.array vs)) (byte '[' :: (s ++ t))
  | lastItem {d : ℕ} {v : Value} {t s : List UInt8} (h : Text d (.value v) t) (hs : Spaces s) :
      Text d (.items [v]) (t ++ (s ++ [byte ']']))
  | item {d : ℕ} {v : Value} {vs : List Value} {t s s' t' : List UInt8}
      (h : Text d (.value v) t) (hs : Spaces s) (hs' : Spaces s') (h' : Text d (.items vs) t') :
      Text d (.items (v :: vs)) (t ++ (s ++ byte ',' :: (s' ++ t')))
  | emptyObject {d : ℕ} {s : List UInt8} (hs : Spaces s) :
      Text (d + 1) (.value (.object [])) (byte '\x7b' :: (s ++ [byte '\x7d']))
  | object {d : ℕ} {s t : List UInt8} {ms : List Entry} (hs : Spaces s)
      (h : Text d (.members ms) t) :
      Text (d + 1) (.value (.object (ms.map Entry.field))) (byte '\x7b' :: (s ++ t))
  | lastMember {d : ℕ} {key : List ℕ} {v : Value} {k t s : List UInt8} (hk : Key key k)
      (h : Text d (.value v) t) (hs : Spaces s) :
      Text d (.members [⟨key, t, v⟩]) (k ++ (t ++ (s ++ [byte '\x7d'])))
  | member {d : ℕ} {key : List ℕ} {v : Value} {ms : List Entry} {k t s s' t' : List UInt8}
      (hk : Key key k) (h : Text d (.value v) t) (hs : Spaces s) (hs' : Spaces s')
      (h' : Text d (.members ms) t') :
      Text d (.members (⟨key, t, v⟩ :: ms)) (k ++ (t ++ (s ++ byte ',' :: (s' ++ t'))))

theorem Text.mono {d d' : ℕ} {p : Part} {t : List UInt8} (h : Text d p t) (hd : d ≤ d') :
    Text d' p t := by
  induction h generalizing d' with
  | nullName => exact .nullName
  | trueName => exact .trueName
  | falseName => exact .falseName
  | number h => exact .number h
  | string h => exact .string h
  | emptyArray hs =>
      obtain ⟨k, rfl⟩ := Nat.exists_eq_add_of_le' hd
      exact .emptyArray hs
  | array hs _ ih =>
      obtain ⟨k, rfl⟩ := Nat.exists_eq_add_of_le' hd
      exact .array hs (ih (Nat.le_add_left _ _))
  | lastItem _ hs ih => exact .lastItem (ih hd) hs
  | item _ hs hs' _ ih ih' => exact .item (ih hd) hs hs' (ih' hd)
  | emptyObject hs =>
      obtain ⟨k, rfl⟩ := Nat.exists_eq_add_of_le' hd
      exact .emptyObject hs
  | object hs _ ih =>
      obtain ⟨k, rfl⟩ := Nat.exists_eq_add_of_le' hd
      exact .object hs (ih (Nat.le_add_left _ _))
  | lastMember hk _ hs ih => exact .lastMember hk (ih hd) hs
  | member hk _ hs hs' _ ih ih' => exact .member hk (ih hd) hs hs' (ih' hd)

/-! ## Reading -/

/-- A literal name, after its first byte. -/
def readName (name : List UInt8) (v : Value) (bs : List UInt8) : Option (Value × List UInt8) :=
  (bs.dropPrefix? name).map fun rest ↦ (v, rest)

/-- A string, after its opening quote. -/
def readString (bs : List UInt8) : Option (List ℕ × List UInt8) :=
  (scan bs).map (Prod.map (readUnits 0) id)

/-- A key, up to where its value begins. -/
def readKey : List UInt8 → Option (List ℕ × List UInt8)
  | [] => none
  | b :: bs =>
      if b = quote then
        (readString bs).bind fun p ↦
          match skip p.2 with
          | [] => none
          | c :: rest => if c = byte ':' then some (p.1, skip rest) else none
      else none

mutual

/-- Read a document at the start of the bytes.  The first argument bounds the recursion, and the
second one how deep the document may be nested. -/
def readValue : ℕ → ℕ → List UInt8 → Option (Value × List UInt8)
  | n + 1, d, b :: bs =>
      if b = quote then (readString bs).map (Prod.map .string id)
      else if b = byte '[' then
        match d with
        | 0 => none
        | d + 1 =>
            if (skip bs).head? = some (byte ']') then some (.array [], (skip bs).tail)
            else (readItems n d (skip bs)).map (Prod.map .array id)
      else if b = byte '\x7b' then
        match d with
        | 0 => none
        | d + 1 =>
            if (skip bs).head? = some (byte '\x7d') then some (.object [], (skip bs).tail)
            else (readMembers n d (skip bs)).map (Prod.map (.object ∘ List.map Entry.field) id)
      else if b = byte 'n' then readName [byte 'u', byte 'l', byte 'l'] .null bs
      else if b = byte 't' then readName [byte 'r', byte 'u', byte 'e'] (.bool true) bs
      else if b = byte 'f' then
        readName [byte 'a', byte 'l', byte 's', byte 'e'] (.bool false) bs
      else (NumberState.scan .start (b :: bs)).map (Prod.map .number id)
  | _, _, _ => none

/-- Read items up to the closing bracket. -/
def readItems : ℕ → ℕ → List UInt8 → Option (List Value × List UInt8)
  | n + 1, d, bs =>
      (readValue n d bs).bind fun p ↦
        match skip p.2 with
        | [] => none
        | b :: rest =>
            if b = byte ']' then some ([p.1], rest)
            else if b = byte ',' then (readItems n d (skip rest)).map (Prod.map (p.1 :: ·) id)
            else none
  | _, _, _ => none

/-- Read members up to the closing brace. -/
def readMembers : ℕ → ℕ → List UInt8 → Option (List Entry × List UInt8)
  | n + 1, d, bs =>
      (readKey bs).bind fun k ↦
        (readValue n d k.2).bind fun p ↦
          match skip p.2 with
          | [] => none
          | b :: rest =>
              if b = byte '\x7d' then
                some ([⟨k.1, k.2.take (k.2.length - p.2.length), p.1⟩], rest)
              else if b = byte ',' then
                (readMembers n d (skip rest)).map
                  (Prod.map (⟨k.1, k.2.take (k.2.length - p.2.length), p.1⟩ :: ·) id)
              else none
  | _, _, _ => none

end

/-! ## What is read has the grammar -/

theorem of_readString {bs : List UInt8} {us : List ℕ} {rest : List UInt8}
    (h : readString bs = some (us, rest)) :
    ∃ body, Body body ∧ us = readUnits 0 body ∧ bs = body ++ quote :: rest := by
  obtain ⟨⟨body, rest'⟩, hscan, heq⟩ := Option.map_eq_some_iff.mp h
  obtain ⟨rfl, rfl⟩ := Prod.mk.inj heq
  obtain ⟨hbody, rfl⟩ := body_of_scan hscan
  exact ⟨body, hbody, rfl, rfl⟩

theorem of_readKey {bs : List UInt8} {key : List ℕ} {rest : List UInt8}
    (h : readKey bs = some (key, rest)) : ∃ k, Key key k ∧ bs = k ++ rest := by
  unfold readKey at h
  split at h
  · cases h
  split at h
  · next bs hquote =>
      obtain ⟨⟨us, rest'⟩, hstring, hcolon⟩ := Option.bind_eq_some_iff.mp h
      obtain ⟨body, hbody, rfl, rfl⟩ := of_readString hstring
      obtain ⟨s, hs, hskip⟩ := exists_spaces rest'
      dsimp only at hcolon
      split at hcolon
      · cases hcolon
      split at hcolon
      · next c rest'' hrest hc =>
          obtain ⟨rfl, rfl⟩ := Prod.mk.inj (Option.some.inj hcolon)
          obtain ⟨s', hs', hskip'⟩ := exists_spaces rest''
          rw [hrest, hc] at hskip
          refine ⟨_, .mk hbody hs hs', ?_⟩
          rw [hquote, hskip]
          nth_rewrite 1 [hskip']
          simp
      · cases hcolon
  · cases h

theorem of_readName {name : List UInt8} {v w : Value} {bs rest : List UInt8}
    (h : readName name v bs = some (w, rest)) : w = v ∧ bs = name ++ rest := by
  obtain ⟨rest', hdrop, heq⟩ := Option.map_eq_some_iff.mp h
  obtain ⟨rfl, rfl⟩ := Prod.mk.inj heq
  obtain ⟨p, rfl, hp⟩ := List.dropPrefix?_eq_some_iff.mp hdrop
  exact ⟨rfl, by rw [eq_of_beq hp]⟩

/-- The reader `read` takes a text of `p x` off the bytes where it gives `x`. -/
def Sound {α : Type} (d : ℕ) (p : α → Part) (read : List UInt8 → Option (α × List UInt8)) : Prop :=
  ∀ bs x rest, read bs = some (x, rest) → ∃ t, Text d (p x) t ∧ bs = t ++ rest

section Sound

variable {n d : ℕ}

theorem sound_readItems (hvalue : Sound d .value (readValue n d))
    (hitems : Sound d .items (readItems n d)) : Sound d .items (readItems (n + 1) d) := by
  intro bs vs rest h
  rw [readItems] at h
  obtain ⟨⟨v, rest'⟩, hv, hnext⟩ := Option.bind_eq_some_iff.mp h
  obtain ⟨t, ht, rfl⟩ := hvalue _ _ _ hv
  obtain ⟨s, hs, hskip⟩ := exists_spaces rest'
  dsimp only at hnext
  split at hnext
  · cases hnext
  next b rest'' hrest =>
  rw [hrest] at hskip
  split at hnext
  · next hb =>
      obtain ⟨rfl, rfl⟩ := Prod.mk.inj (Option.some.inj hnext)
      exact ⟨_, .lastItem ht hs, by rw [hskip, hb]; simp⟩
  split at hnext
  · next hb =>
      obtain ⟨⟨vs', rest₁⟩, hvs, heq⟩ := Option.map_eq_some_iff.mp hnext
      obtain ⟨rfl, rfl⟩ := Prod.mk.inj heq
      obtain ⟨t', ht', hrest'⟩ := hitems _ _ _ hvs
      obtain ⟨s', hs', hskip'⟩ := exists_spaces rest''
      refine ⟨_, .item ht hs hs' ht', ?_⟩
      rw [hrest'] at hskip'
      rw [hskip, hb, hskip']
      simp
  · cases hnext

theorem sound_readMembers (hvalue : Sound d .value (readValue n d))
    (hmembers : Sound d .members (readMembers n d)) :
    Sound d .members (readMembers (n + 1) d) := by
  intro bs ms rest h
  rw [readMembers] at h
  obtain ⟨⟨key, rest₀⟩, hkey, hmember⟩ := Option.bind_eq_some_iff.mp h
  obtain ⟨k, hk, rfl⟩ := of_readKey hkey
  obtain ⟨⟨v, rest'⟩, hv, hnext⟩ := Option.bind_eq_some_iff.mp hmember
  obtain ⟨t, ht, hrest₀⟩ := hvalue _ _ _ hv
  dsimp only at hrest₀ hnext
  have hraw : rest₀.take (rest₀.length - rest'.length) = t := by
    rw [hrest₀, List.length_append, Nat.add_sub_cancel, List.take_left]
  rw [hraw] at hnext
  obtain ⟨s, hs, hskip⟩ := exists_spaces rest'
  split at hnext
  · cases hnext
  next b rest'' hrest =>
  rw [hrest] at hskip
  split at hnext
  · next hb =>
      obtain ⟨rfl, rfl⟩ := Prod.mk.inj (Option.some.inj hnext)
      exact ⟨_, .lastMember hk ht hs, by rw [hrest₀, hskip, hb]; simp⟩
  split at hnext
  · next hb =>
      obtain ⟨⟨ms', rest₁⟩, hms, heq⟩ := Option.map_eq_some_iff.mp hnext
      obtain ⟨rfl, rfl⟩ := Prod.mk.inj heq
      obtain ⟨t', ht', hrest'⟩ := hmembers _ _ _ hms
      obtain ⟨s', hs', hskip'⟩ := exists_spaces rest''
      refine ⟨_, .member hk ht hs hs' ht', ?_⟩
      rw [hrest'] at hskip'
      rw [hrest₀, hskip, hb, hskip']
      simp
  · cases hnext

/-- An opening bracket, with nothing or with `p xs` before the closing one. -/
theorem of_bracket {α : Type} {p : List α → Part} {read : List UInt8 → Option (List α × List UInt8)}
    {close : UInt8} {w : List α → Value} (hread : Sound d p read) {bs rest : List UInt8}
    {v : Value} (h : (if (skip bs).head? = some close then some (w [], (skip bs).tail)
      else (read (skip bs)).map (Prod.map w id)) = some (v, rest)) :
    (v = w [] ∧ ∃ s, Spaces s ∧ bs = s ++ close :: rest) ∨
      ∃ s xs t, Spaces s ∧ Text d (p xs) t ∧ v = w xs ∧ bs = s ++ (t ++ rest) := by
  obtain ⟨s, hs, hskip⟩ := exists_spaces bs
  split at h
  · next hclose =>
      obtain ⟨rfl, rfl⟩ := Prod.mk.inj (Option.some.inj h)
      obtain ⟨tail, htail⟩ := List.head?_eq_some_iff.mp hclose
      rw [htail] at hskip ⊢
      exact Or.inl ⟨rfl, s, hs, hskip⟩
  · obtain ⟨⟨xs, rest'⟩, hxs, heq⟩ := Option.map_eq_some_iff.mp h
    obtain ⟨rfl, rfl⟩ := Prod.mk.inj heq
    obtain ⟨t, ht, hrest⟩ := hread _ _ _ hxs
    rw [hrest] at hskip
    exact Or.inr ⟨s, xs, t, hs, ht, rfl, hskip⟩

theorem sound_readValue (hitems : ∀ d, Sound d .items (readItems n d))
    (hmembers : ∀ d, Sound d .members (readMembers n d)) :
    Sound d .value (readValue (n + 1) d) := by
  intro bs v rest h
  cases bs with
  | nil => cases h
  | cons b bs =>
  unfold readValue at h
  split at h
  · next hb =>
      obtain ⟨⟨us, rest'⟩, hstring, heq⟩ := Option.map_eq_some_iff.mp h
      obtain ⟨rfl, rfl⟩ := Prod.mk.inj heq
      obtain ⟨body, hbody, rfl, rfl⟩ := of_readString hstring
      exact ⟨_, .string hbody, by rw [hb]; simp⟩
  split at h
  · next hb =>
      cases d with
      | zero => cases h
      | succ d =>
          rcases of_bracket (hitems d) h with ⟨rfl, s, hs, rfl⟩ | ⟨s, vs, t, hs, ht, rfl, rfl⟩
          · exact ⟨_, .emptyArray hs, by rw [hb]; simp⟩
          · exact ⟨_, .array hs ht, by rw [hb]; simp⟩
  split at h
  · next hb =>
      cases d with
      | zero => cases h
      | succ d =>
          rcases of_bracket (w := .object ∘ List.map Entry.field) (hmembers d) h with
            ⟨rfl, s, hs, rfl⟩ | ⟨s, ms, t, hs, ht, rfl, rfl⟩
          · exact ⟨_, .emptyObject hs, by rw [hb]; simp⟩
          · exact ⟨_, .object hs ht, by rw [hb]; simp⟩
  split at h
  · next hb =>
      obtain ⟨rfl, rfl⟩ := of_readName h
      exact ⟨_, .nullName, by rw [hb]; rfl⟩
  split at h
  · next hb =>
      obtain ⟨rfl, rfl⟩ := of_readName h
      exact ⟨_, .trueName, by rw [hb]; rfl⟩
  split at h
  · next hb =>
      obtain ⟨rfl, rfl⟩ := of_readName h
      exact ⟨_, .falseName, by rw [hb]; rfl⟩
  · obtain ⟨⟨l, rest'⟩, hscan, heq⟩ := Option.map_eq_some_iff.mp h
    obtain ⟨rfl, rfl⟩ := Prod.mk.inj heq
    obtain ⟨hl, hnumber⟩ := NumberState.scan_eq_some hscan
    exact ⟨l, .number hnumber, hl⟩

theorem sound_read (n : ℕ) :
    (∀ d, Sound d .value (readValue n d)) ∧ (∀ d, Sound d .items (readItems n d)) ∧
      ∀ d, Sound d .members (readMembers n d) := by
  induction n with
  | zero =>
      refine ⟨?_, ?_, ?_⟩ <;> intro d bs x rest h <;> cases h
  | succ n ih =>
      obtain ⟨hvalue, hitems, hmembers⟩ := ih
      exact ⟨fun _ ↦ sound_readValue hitems hmembers,
        fun d ↦ sound_readItems (hvalue d) (hitems d),
        fun d ↦ sound_readMembers (hvalue d) (hmembers d)⟩

end Sound

/-! ## What has the grammar is read -/

/-- A byte that a document may begin with. -/
def Begins (b : UInt8) : Prop :=
  isSpace b = false ∧ b ≠ byte ']' ∧ b ≠ byte '\x7d'

instance (b : UInt8) : Decidable (Begins b) := inferInstanceAs (Decidable (_ ∧ _))

theorem begins_of_step {b : UInt8} {q : NumberState} (h : NumberState.start.step b = some q) :
    Begins b ∧ b ≠ quote ∧ b ≠ byte '[' ∧ b ≠ byte '\x7b' ∧ b ≠ byte 'n' ∧ b ≠ byte 't' ∧
      b ≠ byte 'f' := by
  have hne (c : UInt8) (hc : NumberState.start.step c = none) : b ≠ c := by
    rintro rfl
    rw [hc] at h
    cases h
  refine ⟨⟨?_, hne _ (by decide), hne _ (by decide)⟩, hne _ (by decide), hne _ (by decide),
    hne _ (by decide), hne _ (by decide), hne _ (by decide), hne _ (by decide)⟩
  simp only [isSpace, Bool.or_eq_false_iff, decide_eq_false_iff_not]
  exact ⟨⟨⟨hne _ (by decide), hne _ (by decide)⟩, hne _ (by decide)⟩, hne _ (by decide)⟩

theorem IsNumber.exists_cons {l : List UInt8} (h : IsNumber l) :
    ∃ b t q, l = b :: t ∧ NumberState.start.step b = some q := by
  cases l with
  | nil => cases h
  | cons b t =>
      cases hstep : NumberState.start.step b with
      | some q => exact ⟨b, t, q, rfl, hstep⟩
      | none =>
          rw [IsNumber, NumberState.scan, hstep] at h
          cases h

theorem Text.begins {d : ℕ} {p : Part} {t : List UInt8} (h : Text d p t) :
    ∃ b t', t = b :: t' ∧ Begins b := by
  induction h with
  | nullName => exact ⟨_, _, rfl, by decide⟩
  | trueName => exact ⟨_, _, rfl, by decide⟩
  | falseName => exact ⟨_, _, rfl, by decide⟩
  | number h =>
      obtain ⟨b, t, q, rfl, hstep⟩ := h.exists_cons
      exact ⟨b, t, rfl, (begins_of_step hstep).1⟩
  | string _ => exact ⟨_, _, rfl, by decide⟩
  | emptyArray _ => exact ⟨_, _, rfl, by decide⟩
  | array _ _ _ => exact ⟨_, _, rfl, by decide⟩
  | lastItem _ _ ih =>
      obtain ⟨b, t', rfl, hb⟩ := ih
      exact ⟨b, _, rfl, hb⟩
  | item _ _ _ _ ih _ =>
      obtain ⟨b, t', rfl, hb⟩ := ih
      exact ⟨b, _, rfl, hb⟩
  | emptyObject _ => exact ⟨_, _, rfl, by decide⟩
  | object _ _ _ => exact ⟨_, _, rfl, by decide⟩
  | lastMember hk _ _ _ =>
      cases hk with
      | mk => exact ⟨_, _, rfl, by decide⟩
  | member hk _ _ _ _ _ _ =>
      cases hk with
      | mk => exact ⟨_, _, rfl, by decide⟩

theorem Text.ne_nil {d : ℕ} {p : Part} {t : List UInt8} (h : Text d p t) : t ≠ [] := by
  obtain ⟨b, t', rfl, -⟩ := h.begins
  exact List.cons_ne_nil b t'

/-- White space before a document is skipped, and no more. -/
theorem Text.skip_append {d : ℕ} {p : Part} {t s : List UInt8} (h : Text d p t) (hs : Spaces s)
    (rest : List UInt8) : skip (s ++ (t ++ rest)) = t ++ rest := by
  obtain ⟨b, t', rfl, hb⟩ := h.begins
  rw [JsonText.skip_append hs, List.cons_append, skip_cons hb.1]

theorem readName_append (name : List UInt8) (v : Value) (rest : List UInt8) :
    readName name v (name ++ rest) = some (v, rest) := by
  rw [readName, List.dropPrefix?_eq_some_iff.mpr ⟨_, rfl, beq_self_eq_true _⟩, Option.map_some]

theorem readString_append {body : List UInt8} (h : Body body) (rest : List UInt8) :
    readString (body ++ quote :: rest) = some (readUnits 0 body, rest) := by
  rw [readString, h.scan_append]
  rfl

/-- After a key comes something other than white space. -/
theorem Key.read_append {key : List ℕ} {k t rest : List UInt8} {d : ℕ} {p : Part}
    (h : Key key k) (ht : Text d p t) : readKey (k ++ (t ++ rest)) = some (key, t ++ rest) := by
  cases h with
  | @mk body s s' hbody hs hs' =>
      have hrest : quote :: (body ++ quote :: (s ++ byte ':' :: s')) ++ (t ++ rest) =
          quote :: (body ++ quote :: (s ++ byte ':' :: (s' ++ (t ++ rest)))) := by simp
      have hskip : skip (s ++ byte ':' :: (s' ++ (t ++ rest))) =
          byte ':' :: (s' ++ (t ++ rest)) := by
        rw [JsonText.skip_append hs, skip_cons (by decide)]
      rw [hrest, readKey, if_pos rfl, readString_append hbody, Option.bind_some]
      dsimp only
      rw [hskip]
      dsimp only
      rw [if_pos rfl, ht.skip_append hs']

theorem step_of_isSpace {b : UInt8} (hb : isSpace b = true) (q : NumberState) :
    q.step b = none := by
  simp only [isSpace, Bool.or_eq_true, decide_eq_true_eq] at hb
  rcases hb with ((rfl | rfl) | rfl) | rfl <;> cases q <;> decide

theorem ends_append {s : List UInt8} (hs : Spaces s) {b : UInt8}
    (hb : ∀ q : NumberState, q.step b = none) (rest : List UInt8) : Ends (s ++ b :: rest) := by
  cases s with
  | nil =>
      rintro c ⟨⟩
      exact hb
  | cons c s =>
      rintro c ⟨⟩
      exact step_of_isSpace (hs _ List.mem_cons_self)

theorem step_comma (q : NumberState) : q.step (byte ',') = none := by cases q <;> decide

theorem step_bracket (q : NumberState) : q.step (byte ']') = none := by cases q <;> decide

theorem step_brace (q : NumberState) : q.step (byte '\x7d') = none := by cases q <;> decide

section Heads

variable (n d : ℕ) (bs : List UInt8)

theorem readValue_quote :
    readValue (n + 1) d (quote :: bs) = (readString bs).map (Prod.map .string id) := by
  unfold readValue
  rw [if_pos rfl]

theorem readValue_bracket : readValue (n + 1) (d + 1) (byte '[' :: bs) =
    if (skip bs).head? = some (byte ']') then some (.array [], (skip bs).tail)
    else (readItems n d (skip bs)).map (Prod.map .array id) := by
  unfold readValue
  rw [if_neg (by decide), if_pos rfl]

theorem readValue_brace : readValue (n + 1) (d + 1) (byte '\x7b' :: bs) =
    if (skip bs).head? = some (byte '\x7d') then some (.object [], (skip bs).tail)
    else (readMembers n d (skip bs)).map (Prod.map (.object ∘ List.map Entry.field) id) := by
  unfold readValue
  rw [if_neg (by decide), if_neg (by decide), if_pos rfl]

theorem readValue_null :
    readValue (n + 1) d (byte 'n' :: (byte 'u' :: byte 'l' :: byte 'l' :: bs)) =
      some (.null, bs) := by
  unfold readValue
  rw [if_neg (by decide), if_neg (by decide), if_neg (by decide), if_pos rfl]
  exact readName_append [byte 'u', byte 'l', byte 'l'] .null bs

theorem readValue_true :
    readValue (n + 1) d (byte 't' :: (byte 'r' :: byte 'u' :: byte 'e' :: bs)) =
      some (.bool true, bs) := by
  unfold readValue
  rw [if_neg (by decide), if_neg (by decide), if_neg (by decide), if_neg (by decide), if_pos rfl]
  exact readName_append [byte 'r', byte 'u', byte 'e'] (.bool true) bs

theorem readValue_false :
    readValue (n + 1) d (byte 'f' :: (byte 'a' :: byte 'l' :: byte 's' :: byte 'e' :: bs)) =
      some (.bool false, bs) := by
  unfold readValue
  rw [if_neg (by decide), if_neg (by decide), if_neg (by decide), if_neg (by decide),
    if_neg (by decide), if_pos rfl]
  exact readName_append [byte 'a', byte 'l', byte 's', byte 'e'] (.bool false) bs

theorem readValue_number {l rest : List UInt8} (hl : IsNumber l) (hrest : Ends rest) :
    readValue (n + 1) d (l ++ rest) = some (.number l, rest) := by
  obtain ⟨b, t, q, rfl, hstep⟩ := hl.exists_cons
  obtain ⟨-, hquote, hbracket, hbrace, hn, ht, hf⟩ := begins_of_step hstep
  rw [List.cons_append]
  unfold readValue
  rw [if_neg hquote, if_neg hbracket, if_neg hbrace, if_neg hn, if_neg ht, if_neg hf,
    ← List.cons_append, NumberState.scan_append hl hrest]
  rfl

end Heads

/-- Given enough fuel, the reader takes exactly the text `t` off the bytes. -/
def Reads (d : ℕ) (t : List UInt8) : Part → Prop
  | .value v => ∀ n rest, 2 * t.length ≤ n → Ends rest →
      readValue n d (t ++ rest) = some (v, rest)
  | .items vs => ∀ n rest, 2 * t.length + 1 ≤ n → readItems n d (t ++ rest) = some (vs, rest)
  | .members ms => ∀ n rest, 2 * t.length + 1 ≤ n → readMembers n d (t ++ rest) = some (ms, rest)

theorem exists_fuel {b : UInt8} {t : List UInt8} {n : ℕ} (hn : 2 * (b :: t).length ≤ n) :
    ∃ m, n = m + 1 ∧ 2 * t.length + 1 ≤ m := by
  rw [List.length_cons] at hn
  exact ⟨n - 1, by omega, by omega⟩

section Reads

variable {d : ℕ} {s s' t t' : List UInt8}

/-- An opening bracket with white space and the closing one behind it. -/
theorem ite_close {α : Type} {close : UInt8} (hclose : isSpace close = false) (hs : Spaces s)
    (rest : List UInt8) (f : List UInt8 → α) (e : α) :
    (if (skip (s ++ close :: rest)).head? = some close then f (skip (s ++ close :: rest)).tail
      else e) = f rest := by
  rw [JsonText.skip_append hs, skip_cons hclose]
  exact if_pos rfl

/-- An opening bracket with a text behind it. -/
theorem ite_open {α : Type} {close : UInt8} {p : Part} (ht : Text d p t) (hs : Spaces s)
    (hclose : ∀ b, Begins b → b ≠ close) (rest : List UInt8) (e : α) (f : List UInt8 → α) :
    (if (skip (s ++ (t ++ rest))).head? = some close then e else f (skip (s ++ (t ++ rest)))) =
      f (t ++ rest) := by
  obtain ⟨b, t', rfl, hb⟩ := ht.begins
  rw [ht.skip_append hs]
  exact if_neg fun h ↦ hclose b hb (Option.some.inj h)

theorem Reads.lastItem {v : Value} (h : Reads d t (.value v)) (hs : Spaces s) :
    Reads d (t ++ (s ++ [byte ']'])) (.items [v]) := by
  intro n rest hn
  cases n with
  | zero => omega
  | succ n =>
      rw [List.length_append] at hn
      have hrest : t ++ (s ++ [byte ']']) ++ rest = t ++ (s ++ byte ']' :: rest) := by simp
      have hv := h n (s ++ byte ']' :: rest) (by omega) (ends_append hs step_bracket rest)
      rw [hrest, readItems, hv, Option.bind_some]
      dsimp only
      rw [JsonText.skip_append hs, skip_cons (by decide)]
      exact if_pos rfl

theorem Reads.item {v : Value} {vs : List Value} (h : Reads d t (.value v)) (hs : Spaces s)
    (hs' : Spaces s') (ht' : Text d (.items vs) t') (h' : Reads d t' (.items vs)) :
    Reads d (t ++ (s ++ byte ',' :: (s' ++ t'))) (.items (v :: vs)) := by
  intro n rest hn
  cases n with
  | zero => omega
  | succ n =>
      rw [List.length_append, List.length_append, List.length_cons, List.length_append] at hn
      have hrest : t ++ (s ++ byte ',' :: (s' ++ t')) ++ rest =
          t ++ (s ++ byte ',' :: (s' ++ (t' ++ rest))) := by simp
      have hv := h n (s ++ byte ',' :: (s' ++ (t' ++ rest))) (by omega)
        (ends_append hs step_comma _)
      rw [hrest, readItems, hv, Option.bind_some]
      dsimp only
      rw [JsonText.skip_append hs, skip_cons (by decide)]
      dsimp only
      rw [if_neg (by decide), if_pos rfl, ht'.skip_append hs', h' n rest (by omega)]
      rfl

theorem Reads.lastMember {key : List ℕ} {k : List UInt8} {v : Value} (hk : Key key k)
    (ht : Text d (.value v) t) (h : Reads d t (.value v)) (hs : Spaces s) :
    Reads d (k ++ (t ++ (s ++ [byte '\x7d']))) (.members [⟨key, t, v⟩]) := by
  intro n rest hn
  cases n with
  | zero => omega
  | succ n =>
      rw [List.length_append, List.length_append] at hn
      have hrest : k ++ (t ++ (s ++ [byte '\x7d'])) ++ rest =
          k ++ (t ++ (s ++ byte '\x7d' :: rest)) := by simp
      have hv := h n (s ++ byte '\x7d' :: rest) (by omega) (ends_append hs step_brace rest)
      rw [hrest, readMembers, hk.read_append ht, Option.bind_some]
      dsimp only
      rw [hv, Option.bind_some]
      dsimp only
      rw [JsonText.skip_append hs, skip_cons (by decide), List.length_append, Nat.add_sub_cancel,
        List.take_left]
      exact if_pos rfl

theorem Reads.member {key : List ℕ} {k : List UInt8} {v : Value} {ms : List Entry}
    (hk : Key key k) (ht : Text d (.value v) t) (h : Reads d t (.value v)) (hs : Spaces s)
    (hs' : Spaces s') (ht' : Text d (.members ms) t') (h' : Reads d t' (.members ms)) :
    Reads d (k ++ (t ++ (s ++ byte ',' :: (s' ++ t')))) (.members (⟨key, t, v⟩ :: ms)) := by
  intro n rest hn
  cases n with
  | zero => omega
  | succ n =>
      rw [List.length_append, List.length_append, List.length_append, List.length_cons,
        List.length_append] at hn
      have hrest : k ++ (t ++ (s ++ byte ',' :: (s' ++ t'))) ++ rest =
          k ++ (t ++ (s ++ byte ',' :: (s' ++ (t' ++ rest)))) := by simp
      have hv := h n (s ++ byte ',' :: (s' ++ (t' ++ rest))) (by omega)
        (ends_append hs step_comma _)
      rw [hrest, readMembers, hk.read_append ht, Option.bind_some]
      dsimp only
      rw [hv, Option.bind_some]
      dsimp only
      rw [JsonText.skip_append hs, skip_cons (by decide), List.length_append, Nat.add_sub_cancel,
        List.take_left]
      dsimp only
      rw [if_neg (by decide), if_pos rfl, ht'.skip_append hs', h' n rest (by omega)]
      rfl

end Reads

theorem Text.reads {d : ℕ} {p : Part} {t : List UInt8} (h : Text d p t) : Reads d t p := by
  induction h with
  | nullName =>
      intro n rest hn _
      obtain ⟨n, rfl, -⟩ := exists_fuel hn
      exact readValue_null n _ rest
  | trueName =>
      intro n rest hn _
      obtain ⟨n, rfl, -⟩ := exists_fuel hn
      exact readValue_true n _ rest
  | falseName =>
      intro n rest hn _
      obtain ⟨n, rfl, -⟩ := exists_fuel hn
      exact readValue_false n _ rest
  | number h =>
      intro n rest hn hrest
      obtain ⟨b, t, q, rfl, -⟩ := h.exists_cons
      obtain ⟨n, rfl, -⟩ := exists_fuel hn
      exact readValue_number n _ h hrest
  | @string d body h =>
      intro n rest hn _
      obtain ⟨n, rfl, -⟩ := exists_fuel hn
      have hrest : quote :: (body ++ [quote]) ++ rest = quote :: (body ++ quote :: rest) := by simp
      rw [hrest, readValue_quote, readString_append h]
      rfl
  | @emptyArray d s hs =>
      intro n rest hn _
      obtain ⟨n, rfl, -⟩ := exists_fuel hn
      have hrest : byte '[' :: (s ++ [byte ']']) ++ rest = byte '[' :: (s ++ byte ']' :: rest) := by
        simp
      rw [hrest, readValue_bracket]
      exact ite_close (by decide) hs rest (fun rest ↦ some (Value.array [], rest)) _
  | @array d s t vs hs ht ih =>
      intro n rest hn _
      obtain ⟨n, rfl, hfuel⟩ := exists_fuel hn
      rw [List.length_append] at hfuel
      rw [List.cons_append, List.append_assoc, readValue_bracket]
      refine (ite_open ht hs (fun b hb ↦ hb.2.1) rest _
        fun bs ↦ (readItems n d bs).map (Prod.map Value.array id)).trans ?_
      rw [ih n rest (by omega)]
      rfl
  | lastItem _ hs ih => exact ih.lastItem hs
  | item _ hs hs' ht' ih ih' => exact ih.item hs hs' ht' ih'
  | @emptyObject d s hs =>
      intro n rest hn _
      obtain ⟨n, rfl, -⟩ := exists_fuel hn
      have hrest : byte '\x7b' :: (s ++ [byte '\x7d']) ++ rest =
          byte '\x7b' :: (s ++ byte '\x7d' :: rest) := by simp
      rw [hrest, readValue_brace]
      exact ite_close (by decide) hs rest (fun rest ↦ some (Value.object [], rest)) _
  | @object d s t ms hs ht ih =>
      intro n rest hn _
      obtain ⟨n, rfl, hfuel⟩ := exists_fuel hn
      rw [List.length_append] at hfuel
      rw [List.cons_append, List.append_assoc, readValue_brace]
      refine (ite_open ht hs (fun b hb ↦ hb.2.2) rest _
        fun bs ↦ (readMembers n d bs).map
          (Prod.map (Value.object ∘ List.map Entry.field) id)).trans ?_
      rw [ih n rest (by omega)]
      rfl
  | lastMember hk ht hs ih => exact Reads.lastMember hk ht ih hs
  | member hk ht hs hs' ht' ih ih' => exact Reads.member hk ht ih hs hs' ht' ih'

end JsonText
end Screego
