import Mathlib.Data.List.Basic

/-!
# IP addresses

`net.IP` is a byte slice of length 4 or 16; the nil address is the empty slice.
The textual form is the one of the standard library: dotted decimals for IPv4
and for mapped addresses, and the compressed hexadecimal form for the rest.
-/

namespace Screego

/-- `net.IP`. -/
abbrev IP := List UInt8

namespace IP

/-- `To4`: the last four bytes of an IPv4 address in either length. -/
def to4 (ip : IP) : Option IP :=
  if ip.length = 4 then some ip
  else if ip.length = 16 ∧ ip.take 12 = List.replicate 10 0 ++ [0xff, 0xff] then some (ip.drop 12)
  else none

def hexDigits (n : ℕ) : String := String.ofList (Nat.toDigits 16 n)

def hexByte (b : UInt8) : String :=
  if b.toNat < 16 then "0" ++ hexDigits b.toNat else hexDigits b.toNat

/-- The eight 16-bit groups of an address. -/
def groups : IP → List ℕ
  | hi :: lo :: rest => (hi.toNat * 256 + lo.toNat) :: groups rest
  | _ => []

/-- The length of the run of zero groups at the front. -/
def zeroRun (gs : List ℕ) : ℕ := (gs.takeWhile (· = 0)).length

/-- Start and length of the first longest run of at least two zero groups. -/
def longestZeroRun (gs : List ℕ) : Option (ℕ × ℕ) :=
  (List.range gs.length).foldl (fun best i ↦
    let len := zeroRun (gs.drop i)
    match best with
    | none => if 2 ≤ len then some (i, len) else none
    | some (_, old) => if old < len then some (i, len) else best) none

def joinHex (gs : List ℕ) : String := String.intercalate ":" (gs.map hexDigits)

def string6 (ip : IP) : String :=
  let gs := groups ip
  match longestZeroRun gs with
  | none => joinHex gs
  | some (i, len) => joinHex (gs.take i) ++ "::" ++ joinHex (gs.drop (i + len))

/-- `String`. -/
def toString (ip : IP) : String :=
  if ip.length = 0 then "<nil>"
  else if ip.length ≠ 4 ∧ ip.length ≠ 16 then "?" ++ String.join (ip.map hexByte)
  else
    match ip.to4 with
    | some p4 => String.intercalate "." (p4.map fun b ↦ b.toNat.repr)
    | none => string6 ip

example : toString [10, 0, 0, 7] = "10.0.0.7" := by decide

example : toString [0x20, 0x01, 0x0d, 0xb8, 0, 0, 0, 0, 0, 0, 0, 0, 0, 0, 0, 1] =
    "2001:db8::1" := by
  decide

end IP

end Screego
