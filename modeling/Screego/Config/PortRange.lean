import Screego.Lib.Text

/-!
# The port range for relays

`SCREEGO_TURN_PORT_RANGE` is read twice: `Get` reports what is wrong with it,
and `PortRange` reads it again when the TURN server starts and ignores errors.
-/

namespace Screego

/-- The levels at which `Get` reports on a setting. -/
inductive Level where
  | warn
  | fatal
  deriving DecidableEq

/-- A message from the time before the log level is known. -/
structure FutureLog where
  level : Level
  msg : String
  deriving DecidableEq

def futureFatal (msg : String) : FutureLog := ⟨.fatal, msg⟩

variable (quote : String → String)

/-- `NumError.Error`; `quote` is the function of that name in `strconv`. -/
def numErrorText (e : Strconv.NumError) : String :=
  "strconv.ParseUint: parsing " ++ quote e.num ++ ": " ++
    match e.err with
    | .errSyntax => "invalid syntax"
    | .errRange => "value out of range"

def parsePortRange (turnPortRange : String) : Except String (UInt16 × UInt16) :=
  if turnPortRange = "" then .ok (0, 0)
  else
    match Strings.split turnPortRange ':' with
    | [stringMin, stringMax] =>
        match Strconv.parseUint stringMin 16 with
        | .error err => .error ("invalid min: " ++ numErrorText quote err)
        | .ok min64 =>
            match Strconv.parseUint stringMax 16 with
            | .error err => .error ("invalid max: " ++ numErrorText quote err)
            | .ok max64 => .ok (UInt16.ofNat min64, UInt16.ofNat max64)
    | _ => .error "must include one colon"

/-- `PortRange`: the bounds, and whether they are used. -/
def portRange (turnPortRange : String) : UInt16 × UInt16 × Bool :=
  let (min, max) := match parsePortRange quote turnPortRange with
    | .ok range => range
    | .error _ => (0, 0)
  (min, max, min ≠ 0 ∧ max ≠ 0)

/-- What `Get` logs about the setting. -/
def portRangeLogs (turnPortRange : String) : List FutureLog :=
  match parsePortRange quote turnPortRange with
  | .error err => [futureFatal ("invalid SCREEGO_TURN_PORT_RANGE: " ++ err)]
  | .ok (min, max) =>
      if min = 0 ∧ max = 0 then []  -- valid; no port range
      else if min = 0 ∨ max = 0 then
        [futureFatal "invalid SCREEGO_TURN_PORT_RANGE: min or max port is 0"]
      else if max < min then
        [futureFatal ("invalid SCREEGO_TURN_PORT_RANGE: min port (" ++ min.toNat.repr ++
          ") is higher than max port (" ++ max.toNat.repr ++ ")")]
      else if max - min < 40 then
        [⟨.warn, "Less than 40 ports are available for turn. " ++
          "When using multiple TURN connections this may not be enough"⟩]
      else []

section Reading

variable {quote} {turnPortRange : String}

/-- The two numbers of a range are those of its two parts. -/
theorem parsePortRange_eq_ok (hne : turnPortRange ≠ "") {min max : UInt16} :
    parsePortRange quote turnPortRange = .ok (min, max) ↔
      ∃ a b, turnPortRange = a ++ (":" ++ b) ∧ Strconv.parseUint a 16 = .ok min.toNat ∧
        Strconv.parseUint b 16 = .ok max.toNat := by
  have hcast {s : String} {n : ℕ} (h : Strconv.parseUint s 16 = .ok n) :
      (UInt16.ofNat n).toNat = n :=
    UInt16.toNat_ofNat_of_lt' (Strconv.parseUint_eq_ok.mp h).2.2.2
  rw [parsePortRange, if_neg hne]
  constructor
  · intro h
    split at h
    · next a b hsplit =>
        cases ha : Strconv.parseUint a 16 with
        | error err =>
            rw [ha] at h
            cases h
        | ok n =>
            cases hb : Strconv.parseUint b 16 with
            | error err =>
                rw [ha, hb] at h
                cases h
            | ok m =>
                simp only [ha, hb, Except.ok.injEq, Prod.mk.injEq] at h
                obtain ⟨rfl, rfl⟩ := h
                rw [hcast ha, hcast hb]
                exact ⟨a, b, Strings.split_eq_pair hsplit, ha, hb⟩
    · cases h
  · rintro ⟨a, b, rfl, ha, hb⟩
    have hsplit : Strings.split (a ++ (":" ++ b)) ':' = [a, b] := by
      have hcolon := Strings.split_append (t := b)
        (Strconv.notMem_of_parseUint ha (c := ':') (by decide))
      rwa [Strings.split_of_notMem (Strconv.notMem_of_parseUint hb (by decide))] at hcolon
    simp only [hsplit, ha, hb, UInt16.ofNat_toNat]

/-- A setting that is not fatal is empty, or it has two bounds that are zero or in order. -/
theorem parsePortRange_of_not_fatal (h : ∀ log ∈ portRangeLogs quote turnPortRange,
    log.level ≠ .fatal) : ∃ min max, parsePortRange quote turnPortRange = .ok (min, max) ∧
      ((min = 0 ∧ max = 0) ∨ (min ≠ 0 ∧ max ≠ 0 ∧ min ≤ max)) := by
  have hfatal {msg : String} (hlogs : portRangeLogs quote turnPortRange = [futureFatal msg]) :
      False := by
    rw [hlogs] at h
    exact h _ List.mem_cons_self rfl
  cases hparse : parsePortRange quote turnPortRange with
  | error err => exact (hfatal (by rw [portRangeLogs, hparse])).elim
  | ok range =>
      obtain ⟨min, max⟩ := range
      refine ⟨min, max, rfl, ?_⟩
      by_cases hboth : min = 0 ∧ max = 0
      · exact Or.inl hboth
      by_cases hone : min = 0 ∨ max = 0
      · have hlogs : portRangeLogs quote turnPortRange =
            [futureFatal "invalid SCREEGO_TURN_PORT_RANGE: min or max port is 0"] := by
          simp only [portRangeLogs, hparse, if_neg hboth, if_pos hone]
        exact (hfatal hlogs).elim
      by_cases horder : max < min
      · have hlogs : portRangeLogs quote turnPortRange =
            [futureFatal ("invalid SCREEGO_TURN_PORT_RANGE: min port (" ++ min.toNat.repr ++
              ") is higher than max port (" ++ max.toNat.repr ++ ")")] := by
          simp only [portRangeLogs, hparse, if_neg hboth, if_neg hone, if_pos horder]
        exact (hfatal hlogs).elim
      rw [not_or] at hone
      exact Or.inr ⟨hone.1, hone.2, UInt16.not_lt.mp horder⟩

end Reading

end Screego
