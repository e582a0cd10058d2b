import Mathlib.Data.List.Sort
import Screego.Lib.GoMap
import Screego.Net.IP

/-!
# What the server draws from outside

Everything the main loop cannot compute itself is a parameter: the `xid`
package, the address provider, the random sources, the clock and the order in
which `range` walks a map.  Each of them is a stream, and the process counts its
draws, so the `n`-th draw of a run is the stream at `n`.
-/

namespace Screego

/-- The package `github.com/rs/xid`: `new` gives the id made by the `n`-th draw, and no two draws
give the same id. -/
structure Xid (XID : Type) where
  new : ℕ → XID
  new_injective : Function.Injective new
  nilID : XID
  toString : XID → String
  fromString : String → Option XID
  fromString_toString : ∀ id, fromString (toString id) = some id
  /-- `ID.MarshalJSON`: the string that it writes, or none for `null`. -/
  marshalJSON : XID → Option String
  marshalJSON_nilID : marshalJSON nilID = none
  marshalJSON_of_ne : ∀ id, id ≠ nilID → marshalJSON id = some (toString id)

theorem Xid.toString_injective {XID : Type} (x : Xid XID) : Function.Injective x.toString := by
  intro a b h
  have hs : some a = some b := by
    rw [← x.fromString_toString a, ← x.fromString_toString b, h]
  exact Option.some.inj hs

/-- The part of `config.Config` that the main loop reads. -/
structure Config where
  authMode : String
  turnPort : String

def authModeTurn : String := "turn"
def authModeAll : String := "all"
def authModeNone : String := "none"

structure Env (XID : Type) where
  xid : Xid XID
  config : Config
  /-- The order of the `range` statement that makes the draw. -/
  range : ℕ → RangeOrder XID
  /-- `config.TurnIPProvider.Get`. -/
  turnIPProvider : ℕ → Except String (IP × IP)
  /-- The random sources: `Intn(n)` is the draw modulo `n`. -/
  rand : ℕ → ℕ
  /-- `time.Now`, in seconds. -/
  now : ℕ → ℤ
  /-- `turn.GenerateAuthKey(username, realm, password)`. -/
  generateAuthKey : String → String → String → List UInt8
  /-- The base64 text of the HMAC-SHA1 of a message under a secret. -/
  hmacSHA1 : List UInt8 → String → String
  /-- `cases.Title(language.English)`. -/
  title : String → String

/-! ## A sample environment -/

def twentyDigits (n : ℕ) : String :=
  String.ofList (List.replicate (20 - (Nat.toDigits 10 n).length) '0' ++ Nat.toDigits 10 n)

/-- Ids counted upwards and written with twenty digits. -/
def Xid.counter : Xid ℕ where
  new := id
  new_injective := Function.injective_id
  nilID := 0
  toString := twentyDigits
  fromString s :=
    if s.toList.length < 20 ∨ s.toList.any fun c ↦ ¬ c.isDigit then none
    else some (Nat.ofDigitChars 10 s.toList 0)
  fromString_toString n := by
    have hdigits : ∀ c ∈ Nat.toDigits 10 n, c.isDigit = true := fun c hc ↦
      Nat.isDigit_of_mem_toDigits (by decide) (by decide) hc
    have hvalue : Nat.ofDigitChars 10 (List.replicate (20 - (Nat.toDigits 10 n).length) '0' ++
        Nat.toDigits 10 n) 0 = n := by
      rw [Nat.ofDigitChars_append, Nat.ofDigitChars_replicate_zero, Nat.mul_zero]
      exact Nat.ofDigitChars_ten_toDigits
    rw [twentyDigits, String.toList_ofList, if_neg, hvalue]
    rintro (hlen | hany)
    · rw [List.length_append, List.length_replicate] at hlen
      omega
    · obtain ⟨c, hc, hnot⟩ := List.any_eq_true.mp hany
      rcases List.mem_append.mp hc with hc | hc
      · simp [List.eq_of_mem_replicate hc] at hnot
      · simp [hdigits c hc] at hnot
  marshalJSON n := if n = 0 then none else some (twentyDigits n)
  marshalJSON_nilID := rfl
  marshalJSON_of_ne _ h := if_neg h

/-- Every `range` visits the keys in ascending order. -/
def RangeOrder.ascending : RangeOrder ℕ where
  visit s := Quot.liftOn s.val (List.insertionSort (· ≤ ·)) fun l l' h ↦
    List.Perm.eq_of_pairwise' (List.pairwise_insertionSort _ l) (List.pairwise_insertionSort _ l')
      (((List.perm_insertionSort _ l).trans h).trans (List.perm_insertionSort _ l').symm)
  coe_visit s := by
    obtain ⟨l, hl⟩ := Quot.exists_rep s.val
    rw [← hl]
    exact Quot.sound (List.perm_insertionSort _ l)

/-- An environment for an auth mode in which the provider answers with one IPv4 address. -/
def Env.sample (authMode : String) : Env ℕ where
  xid := Xid.counter
  config := ⟨authMode, "3478"⟩
  range _ := RangeOrder.ascending
  turnIPProvider _ := .ok ([203, 0, 113, 9], [])
  rand _ := 0
  now _ := 0
  generateAuthKey username realm password :=
    (username ++ ":" ++ realm ++ ":" ++ password).toUTF8.toList
  hmacSHA1 _ message := message
  title := id

end Screego
