import Mathlib.Algebra.Group.Nat.Defs
import Mathlib.Data.List.Basic

/-!
# Splitting text and reading numbers

`Split` cuts a text at every separator, so the pieces and the text determine
each other.  `ParseUint` in base ten accepts a numeral in digits only, and it
stops at the first digit that takes the value over the bit size.
-/

namespace Strings

/-- `Split(s, sep)` for a separator of one character. -/
def split (s : String) (sep : Char) : List String := (s.toList.splitOn sep).map String.ofList

/-- A text without the separator is its only piece. -/
theorem split_of_notMem {s : String} {sep : Char} (h : sep ∉ s.toList) : split s sep = [s] := by
  rw [split, List.splitOn_eq_singleton h, List.map_singleton, String.ofList_toList]

theorem split_append {s t : String} {sep : Char} (h : sep ∉ s.toList) :
    split (s ++ (String.singleton sep ++ t)) sep = s :: split t sep := by
  rw [split, String.toList_append, String.toList_append, String.toList_singleton,
    List.singleton_append, List.splitOn_append_cons_self_of_not_mem h, List.map_cons,
    String.ofList_toList]
  rfl

theorem takeWhile_append {l : List Char} {sep : Char} (h : sep ∉ l) (rest : List Char) :
    (l ++ sep :: rest).takeWhile (· ≠ sep) = l := by
  induction l with
  | nil => simp
  | cons c l ih =>
      obtain ⟨hc, hl⟩ := not_or.mp (mt List.mem_cons.mpr h)
      simpa [Ne.symm hc] using ih hl

theorem splitOn_eq_cons (l : List Char) (sep : Char) :
    ∃ tail, l.splitOn sep = l.takeWhile (· ≠ sep) :: tail := by
  induction l with
  | nil => exact ⟨[], rfl⟩
  | cons c l ih =>
      obtain ⟨tail, htail⟩ := ih
      rw [List.splitOn_cons_eq_if_modifyHead, htail]
      by_cases hc : c = sep
      · simp [hc]
      · simp [hc]

/-- The first piece ends where the separator comes for the first time. -/
theorem split_eq_cons (s : String) (sep : Char) :
    ∃ tail, split s sep = String.ofList (s.toList.takeWhile (· ≠ sep)) :: tail := by
  obtain ⟨tail, htail⟩ := splitOn_eq_cons s.toList sep
  exact ⟨tail.map String.ofList, by rw [split, htail, List.map_cons]⟩

theorem split_eq_pair {s a b : String} {sep : Char} (h : split s sep = [a, b]) :
    s = a ++ (String.singleton sep ++ b) := by
  have hpieces : s.toList.splitOn sep = [a.toList, b.toList] := by
    have hmap := congrArg (List.map String.toList) h
    simpa [split, List.map_map, Function.comp_def] using hmap
  have hjoin : List.intercalate [sep] (s.toList.splitOn sep) = s.toList :=
    List.intercalate_splitOn sep
  rw [hpieces] at hjoin
  apply String.toList_injective
  rw [← hjoin]
  simp [List.intercalate]

/-- `HasPrefix(s, start)`. -/
def hasPrefix (s start : String) : Bool := start.toList.isPrefixOf s.toList

/-- `TrimPrefix(s, start)`. -/
def trimPrefix (s start : String) : String :=
  if hasPrefix s start then String.ofList (s.toList.drop start.toList.length) else s

/-- `SplitN(s, sep, 2)`: what stands before the first separator and what stands behind it. -/
def splitTwo (s : String) (sep : Char) : String × Option String :=
  match s.toList.dropWhile (· ≠ sep) with
  | [] => (s, none)
  | _ :: rest => (String.ofList (s.toList.takeWhile (· ≠ sep)), some (String.ofList rest))

end Strings

namespace Strconv

inductive ParseError where
  | errSyntax
  | errRange
  deriving DecidableEq

/-- `NumError` of the function `ParseUint`. -/
structure NumError where
  num : String
  err : ParseError
  deriving DecidableEq

/-- The loop of `ParseUint` in base ten; `maxVal` is the largest value of the bit size. -/
def parseDigits (maxVal : ℕ) : ℕ → List Char → Except ParseError ℕ
  | n, [] => .ok n
  | n, c :: cs =>
      if c.isDigit then
        if maxVal < 10 * n + (c.toNat - '0'.toNat) then .error .errRange
        else parseDigits maxVal (10 * n + (c.toNat - '0'.toNat)) cs
      else .error .errSyntax

/-- `ParseUint(s, 10, bitSize)`. -/
def parseUint (s : String) (bitSize : ℕ) : Except NumError ℕ :=
  if s = "" then .error ⟨s, .errSyntax⟩
  else (parseDigits (2 ^ bitSize - 1) 0 s.toList).mapError fun err ↦ ⟨s, err⟩

theorem le_ofDigitChars (n : ℕ) (cs : List Char) : n ≤ Nat.ofDigitChars 10 cs n := by
  induction cs generalizing n with
  | nil => exact Nat.le_of_eq Nat.ofDigitChars_nil.symm
  | cons c cs ih =>
      rw [Nat.ofDigitChars_cons]
      exact Nat.le_trans (by omega) (ih _)

theorem parseDigits_eq_ok {maxVal n m : ℕ} (hn : n ≤ maxVal) {cs : List Char} :
    parseDigits maxVal n cs = .ok m ↔
      (∀ c ∈ cs, c.isDigit) ∧ Nat.ofDigitChars 10 cs n = m ∧ m ≤ maxVal := by
  induction cs generalizing n with
  | nil =>
      rw [parseDigits, Nat.ofDigitChars_nil, Except.ok.injEq]
      constructor
      · rintro rfl
        exact ⟨by simp, rfl, hn⟩
      · exact fun h ↦ h.2.1
  | cons c cs ih =>
      rw [parseDigits, Nat.ofDigitChars_cons, List.forall_mem_cons]
      by_cases hdigit : c.isDigit
      · rw [if_pos hdigit]
        by_cases hover : maxVal < 10 * n + (c.toNat - '0'.toNat)
        · rw [if_pos hover]
          refine ⟨nofun, ?_⟩
          rintro ⟨-, rfl, hle⟩
          have hgrow := le_ofDigitChars (10 * n + (c.toNat - '0'.toNat)) cs
          omega
        · rw [if_neg hover, ih (Nat.le_of_not_lt hover), and_iff_right hdigit]
      · rw [if_neg hdigit]
        exact ⟨nofun, fun h ↦ absurd h.1.1 hdigit⟩

/-- What `ParseUint` accepts, and as which number. -/
theorem parseUint_eq_ok {s : String} {bitSize m : ℕ} : parseUint s bitSize = .ok m ↔
    s ≠ "" ∧ (∀ c ∈ s.toList, c.isDigit) ∧ Nat.ofDigitChars 10 s.toList 0 = m ∧
      m < 2 ^ bitSize := by
  have hpos := Nat.two_pow_pos bitSize
  have hdigits : parseDigits (2 ^ bitSize - 1) 0 s.toList = .ok m ↔ _ :=
    parseDigits_eq_ok (Nat.zero_le _)
  rw [Nat.le_sub_one_iff_lt hpos] at hdigits
  unfold parseUint
  split
  · next hempty => exact ⟨nofun, fun h ↦ absurd hempty h.1⟩
  · next hne =>
      rw [← hdigits, and_iff_right hne]
      cases parseDigits (2 ^ bitSize - 1) 0 s.toList <;> simp [Except.mapError]

theorem notMem_of_parseUint {s : String} {bitSize m : ℕ} (h : parseUint s bitSize = .ok m)
    {c : Char} (hc : ¬ c.isDigit) : c ∉ s.toList :=
  fun hmem ↦ hc ((parseUint_eq_ok.mp h).2.1 c hmem)

end Strconv
