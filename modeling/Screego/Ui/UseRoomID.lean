import Screego.Lib.Text

/-!
# The room in the address bar

`useRoomID` writes the id of a room into the query of the page and reads it back
when a link is opened.  The writer does not escape and the reader does not
decode; what the browser does in between is a parameter.
-/

namespace Screego
namespace UseRoomID

def hexDigit (n : ℕ) : Char := Char.ofNat (if n < 10 then '0'.toNat + n else 'A'.toNat + n - 10)

def percentEncode (c : Char) : List Char :=
  (String.utf8EncodeChar c).flatMap fun byte ↦
    ['%', hexDigit (byte.toNat / 16), hexDigit (byte.toNat % 16)]

/-- Which characters of a query the browser encodes. -/
structure Browser where
  encodes : Char → Bool
  keeps : ∀ c, c.isAlphanum ∨ c = '&' ∨ c = '=' ∨ c = '%' → encodes c = false

variable (b : Browser)

def Browser.send (c : Char) : List Char := if b.encodes c then percentEncode c else [c]

/-- What the browser keeps of a query: the fragment begins at `#`. -/
def Browser.query (s : List Char) : List Char := (s.takeWhile (· ≠ '#')).flatMap b.send

/-- `window.location.search` after a page with the given query was opened. -/
def Browser.search (url : String) : String :=
  let query := b.query (url.toList.drop 1)
  if query = [] then "" else "?" ++ String.ofList query

/-- The `find` and the `split` of `getFromURL`. -/
def lookupParam (key : String) (params : List String) : Option String :=
  (params.find? fun param ↦ Strings.hasPrefix param (key ++ "=")).bind fun param ↦
    (Strings.split param '=')[1]?

def getFromURL (key search : String) : Option String :=
  lookupParam key (Strings.split (String.ofList (search.toList.drop 1)) '&')

/-- The address that the setter of `useRoomID` pushes for an id. -/
def roomURL : Option String → String
  | some id => if id = "" then "?" else "?room=" ++ id
  | none => "?"

def paramText (param : String × String) : String := param.1 ++ ("=" ++ param.2)

/-- A query made of parameters. -/
def queryURL (params : List (String × String)) : String :=
  "?" ++ String.intercalate "&" (params.map paramText)

/-- No character is a delimiter or gets encoded. -/
def Browser.Plain (s : String) : Prop :=
  ∀ c ∈ s.toList, c ≠ '&' ∧ c ≠ '=' ∧ c ≠ '#' ∧ b.encodes c = false

instance (s : String) : Decidable (b.Plain s) :=
  List.decidableBAll (fun c ↦ c ≠ '&' ∧ c ≠ '=' ∧ c ≠ '#' ∧ b.encodes c = false) s.toList

/-! ## What the browser keeps -/

section Browser

variable {b}

theorem Browser.Plain.notMem {s : String} (h : b.Plain s) : '&' ∉ s.toList ∧ '=' ∉ s.toList :=
  ⟨fun hmem ↦ (h _ hmem).1 rfl, fun hmem ↦ (h _ hmem).2.1 rfl⟩

theorem query_cons (c : Char) (rest : List Char) :
    b.query (c :: rest) = if c = '#' then [] else b.send c ++ b.query rest := by
  unfold Browser.query
  by_cases hc : c = '#'
  · simp [hc]
  · simp [hc]

theorem send_of_keeps {c : Char} (h : b.encodes c = false) : b.send c = [c] := by
  simp [Browser.send, h]

theorem query_delimiter {c : Char} (h : c = '&' ∨ c = '=') (rest : List Char) :
    b.query (c :: rest) = c :: b.query rest := by
  have hhash : c ≠ '#' := by
    rcases h with rfl | rfl <;> decide
  rw [query_cons, if_neg hhash, send_of_keeps (b.keeps c (Or.inr (h.imp_right Or.inl)))]
  rfl

theorem query_append {s : String} (h : b.Plain s) (rest : List Char) :
    b.query (s.toList ++ rest) = s.toList ++ b.query rest := by
  unfold Browser.Plain at h
  generalize s.toList = l at h
  induction l with
  | nil => rfl
  | cons c l ih =>
      obtain ⟨-, -, hhash, hencodes⟩ := h c List.mem_cons_self
      rw [List.cons_append, query_cons, if_neg hhash, send_of_keeps hencodes,
        ih fun c hc ↦ h c (List.mem_cons_of_mem _ hc)]
      rfl

/-- What is read for a value, with the rest of the query behind it. -/
def Browser.read (b : Browser) (s rest : List Char) : List Char :=
  ((b.query (s ++ rest)).takeWhile (· ≠ '&')).takeWhile (· ≠ '=')

theorem percentEncode_head (c : Char) : ∃ rest, percentEncode c = '%' :: rest := by
  have hne : String.utf8EncodeChar c ≠ [] := by
    intro hnil
    have hlength := String.length_utf8EncodeChar c
    rw [hnil] at hlength
    have hpos := c.utf8Size_pos
    simp at hlength
    omega
  obtain ⟨byte, bytes, hbytes⟩ := List.exists_cons_of_ne_nil hne
  rw [percentEncode, hbytes]
  exact ⟨_, rfl⟩

/-- A value is read as it was written exactly if it is plain. -/
theorem read_eq_iff {s rest : List Char} (hrest : rest = [] ∨ ∃ tail, rest = '&' :: tail) :
    b.read s rest = s ↔ ∀ c ∈ s, c ≠ '&' ∧ c ≠ '=' ∧ c ≠ '#' ∧ b.encodes c = false := by
  induction s with
  | nil =>
      refine iff_of_true ?_ (by simp)
      rcases hrest with rfl | ⟨tail, rfl⟩
      · rfl
      · simp [Browser.read, query_delimiter (Or.inl rfl)]
  | cons c s ih =>
      rw [List.forall_mem_cons, ← ih]
      unfold Browser.read
      rw [List.cons_append, query_cons]
      by_cases hhash : c = '#'
      · simp [hhash]
      rw [if_neg hhash]
      cases hencodes : b.encodes c with
      | true =>
          -- the text begins with the percent sign, which stays as it is
          obtain ⟨encoded, heq⟩ := percentEncode_head c
          have hsend : b.send c = '%' :: encoded := by simp [Browser.send, hencodes, heq]
          rw [hsend]
          refine iff_of_false ?_ (by simp)
          intro hread
          have hpercent : c = '%' := by
            simp at hread
            exact hread.1.symm
          rw [hpercent, b.keeps '%' (Or.inr (Or.inr (Or.inr rfl)))] at hencodes
          cases hencodes
      | false =>
          rw [send_of_keeps hencodes, List.singleton_append]
          by_cases hand : c = '&'
          · simp [hand]
          by_cases heq : c = '='
          · simp [heq]
          simp [hhash, hand, heq]

end Browser

end UseRoomID
end Screego
