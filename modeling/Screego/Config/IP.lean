import Screego.Config.IPDNS
import Screego.Config.PortRange

/-!
# The configured addresses

`SCREEGO_EXTERNAL_IP` and `SCREEGO_TURN_EXTERNAL_IP` hold one domain to look up,
or one address, or one address of each family.
-/

namespace Screego

open IPDNS

variable (config : String)

/-- `applyIPTo`: whether the address is an IPv4 one, and the record with it. -/
def applyIPTo (ip : String) (static : Static) : Except (List FutureLog) (Bool × Static) :=
  match IP.parseIP ip with
  | none => .error [futureFatal ("invalid " ++ config ++ ": " ++ ip)]
  | some parsed =>
      if ip = "0.0.0.0" then .error [futureFatal ("invalid " ++ config ++ ": " ++ ip)]
      else if parsed.to4.isSome then .ok (true, { static with v4 := parsed })
      else .ok (false, { static with v6 := parsed })

/-- `parseStatic` of a list with a first entry. -/
def parseStatic (first : String) (rest : List String) : Except (List FutureLog) Static := do
  let (firstV4, static) ← applyIPTo config first ⟨[], []⟩
  match rest with
  | [] => return static
  | second :: more =>
      let (secondV4, static) ← applyIPTo config second static
      if firstV4 = secondV4 then
        throw [futureFatal ("invalid " ++ config ++
          ": the ips must be of different type ipv4/ipv6")]
      else if more ≠ [] then
        throw [futureFatal ("invalid " ++ config ++ ": too many ips supplied")]
      else return static

def parseDNS (dnsString : String) : DNS :=
  let (domain, server) := Strings.splitTwo dnsString '@'
  { dns := server.getD "system", resolver := server, domain := domain,
    refetch := 0, v4 := [], v6 := [], err := none }

/-- `parseIPProvider`; it panics on an empty list. -/
def parseIPProvider (ips : List String) : Option (Except (List FutureLog) Provider) :=
  match ips with
  | [] => none
  | first :: rest =>
      if Strings.hasPrefix first "dns:" then
        if rest ≠ [] then
          some (.error [futureFatal ("invalid " ++ config ++
            ": when dns server is specified, only one value is allowed")])
        else some (.ok (.dns (parseDNS (Strings.trimPrefix first "dns:"))))
      else some ((parseStatic config first rest).map .static)

/-! ## What is accepted -/

/-- The entry is read as the address. -/
def ReadsAs (ip : String) (parsed : IP) : Prop := IP.parseIP ip = some parsed ∧ ip ≠ "0.0.0.0"

variable {config} {ip : String} {parsed : IP} {static : Static}

theorem applyIPTo_ok (h : ReadsAs ip parsed) : applyIPTo config ip static =
    .ok (parsed.to4.isSome, if parsed.to4.isSome then { static with v4 := parsed }
      else { static with v6 := parsed }) := by
  simp only [applyIPTo, h.1, if_neg h.2]
  split
  · next hfour => rw [hfour]
  · next hfour => rw [eq_false_of_ne_true hfour]

theorem applyIPTo_error (h : ∀ parsed, ¬ ReadsAs ip parsed) :
    applyIPTo config ip static = .error [futureFatal ("invalid " ++ config ++ ": " ++ ip)] := by
  unfold applyIPTo
  cases hparse : IP.parseIP ip with
  | none => rfl
  | some parsed =>
      have hzero : ip = "0.0.0.0" := by
        by_contra hne
        exact h parsed ⟨hparse, hne⟩
      simp only [if_pos hzero]

theorem applyIPTo_eq_ok {r : Bool × Static} (h : applyIPTo config ip static = .ok r) :
    ∃ parsed, ReadsAs ip parsed := by
  by_contra hnone
  rw [applyIPTo_error (not_exists.mp hnone)] at h
  cases h

/-- The record of one address. -/
def Static.one (parsed : IP) : Static := if parsed.to4.isSome then ⟨parsed, []⟩ else ⟨[], parsed⟩

/-- The record of two addresses of different families. -/
def Static.two (parsed parsed' : IP) : Static :=
  if parsed.to4.isSome then ⟨parsed, parsed'⟩ else ⟨parsed', parsed⟩

variable {first second : String} {rest : List String} {parsed' : IP}

theorem parseStatic_one (h : ReadsAs first parsed) :
    parseStatic config first [] = .ok (Static.one parsed) := by
  rw [parseStatic, applyIPTo_ok h]
  rfl

theorem parseStatic_two (h : ReadsAs first parsed) (h' : ReadsAs second parsed')
    (hne : parsed.to4.isSome ≠ parsed'.to4.isSome) :
    parseStatic config first [second] = .ok (Static.two parsed parsed') := by
  have hsecond : parsed'.to4.isSome = !parsed.to4.isSome := by
    rw [Bool.eq_not]
    exact hne.symm
  simp only [parseStatic, applyIPTo_ok h, applyIPTo_ok h', hsecond, Static.two]
  cases parsed.to4.isSome <;> rfl

/-- Nothing else is accepted. -/
theorem parseStatic_eq_ok {s : Static} (h : parseStatic config first rest = .ok s) :
    ∃ parsed, ReadsAs first parsed ∧ (rest = [] ∨ ∃ second parsed', rest = [second] ∧
      ReadsAs second parsed' ∧ parsed.to4.isSome ≠ parsed'.to4.isSome) := by
  cases hfirst : applyIPTo config first ⟨[], []⟩ with
  | error logs =>
      rw [parseStatic, hfirst] at h
      cases h
  | ok r =>
      obtain ⟨parsed, hparsed⟩ := applyIPTo_eq_ok hfirst
      refine ⟨parsed, hparsed, ?_⟩
      rw [applyIPTo_ok hparsed] at hfirst
      obtain rfl := Except.ok.inj hfirst
      cases rest with
      | nil => exact Or.inl rfl
      | cons second more =>
          by_cases hread : ∃ parsed', ReadsAs second parsed'
          swap
          · rw [parseStatic, applyIPTo_ok hparsed] at h
            simp only [bind, Except.bind, applyIPTo_error (not_exists.mp hread)] at h
            cases h
          obtain ⟨parsed', hparsed'⟩ := hread
          rw [parseStatic, applyIPTo_ok hparsed] at h
          simp only [bind, Except.bind, applyIPTo_ok hparsed'] at h
          split at h
          · cases h
          · next hne =>
              split at h
              · cases h
              · next hmore =>
                  exact Or.inr ⟨second, parsed', by rw [not_not.mp hmore], hparsed', hne⟩

/-- An address is no entry for a lookup. -/
theorem ReadsAs.not_dns (h : ReadsAs first parsed) : Strings.hasPrefix first "dns:" = false := by
  by_contra hdns
  obtain ⟨rest, hrest⟩ := List.isPrefixOf_iff_prefix.mp (Bool.not_eq_false _ ▸ hdns)
  have hnone : IP.parseIP first = none := by
    have hfind : first.toList.find? (fun c ↦ c = '.' ∨ c = ':' ∨ c = '%') = some ':' := by
      rw [← hrest]
      rfl
    simp only [IP.parseIP, hfind, IP.parseIPv6]
    split
    · rfl
    · rw [← hrest]
      rfl
  rw [h.1] at hnone
  cases hnone

/-! ## The provider -/

/-- An entry that stands for a lookup, an address, or one address of each family. -/
inductive Accepted : List String → Prop
  | dns {entry : String} (h : Strings.hasPrefix entry "dns:") : Accepted [entry]
  | one {ip : String} {parsed : IP} (h : ReadsAs ip parsed) : Accepted [ip]
  | two {ip ip' : String} {parsed parsed' : IP} (h : ReadsAs ip parsed) (h' : ReadsAs ip' parsed')
      (hne : parsed.to4.isSome ≠ parsed'.to4.isSome) : Accepted [ip, ip']

theorem parseIPProvider_dns (h : Strings.hasPrefix first "dns:") :
    parseIPProvider config [first] =
      some (.ok (.dns (parseDNS (Strings.trimPrefix first "dns:")))) := by
  simp [parseIPProvider, h]

theorem parseIPProvider_static (h : ReadsAs first parsed) :
    parseIPProvider config (first :: rest) =
      some ((parseStatic config first rest).map .static) := by
  simp [parseIPProvider, h.not_dns]

/-- What `parseIPProvider` accepts, and what it makes of it. -/
theorem parseIPProvider_eq_ok {ips : List String} {p : Provider} :
    parseIPProvider config ips = some (.ok p) ↔
      (∃ entry, ips = [entry] ∧ Strings.hasPrefix entry "dns:" ∧
        p = .dns (parseDNS (Strings.trimPrefix entry "dns:"))) ∨
      (∃ ip parsed, ips = [ip] ∧ ReadsAs ip parsed ∧ p = .static (Static.one parsed)) ∨
      ∃ ip ip' parsed parsed', ips = [ip, ip'] ∧ ReadsAs ip parsed ∧ ReadsAs ip' parsed' ∧
        parsed.to4.isSome ≠ parsed'.to4.isSome ∧ p = .static (Static.two parsed parsed') := by
  constructor
  · intro h
    cases ips with
    | nil => cases h
    | cons first rest =>
        by_cases hdns : Strings.hasPrefix first "dns:"
        · by_cases hrest : rest = []
          · subst hrest
            rw [parseIPProvider_dns hdns] at h
            exact Or.inl ⟨first, rfl, hdns, (Except.ok.inj (Option.some.inj h)).symm⟩
          · simp [parseIPProvider, hdns, hrest] at h
        · simp only [parseIPProvider, if_neg hdns] at h
          cases hstatic : parseStatic config first rest with
          | error logs =>
              rw [hstatic] at h
              cases h
          | ok s =>
              rw [hstatic] at h
              obtain rfl := Except.ok.inj (Option.some.inj h)
              obtain ⟨parsed, hread, rfl | ⟨second, parsed', rfl, hread', hne⟩⟩ :=
                parseStatic_eq_ok hstatic
              · rw [parseStatic_one hread] at hstatic
                obtain rfl := Except.ok.inj hstatic
                exact Or.inr (Or.inl ⟨first, parsed, rfl, hread, rfl⟩)
              · rw [parseStatic_two hread hread' hne] at hstatic
                obtain rfl := Except.ok.inj hstatic
                exact Or.inr (Or.inr ⟨first, second, parsed, parsed', rfl, hread, hread', hne, rfl⟩)
  · rintro (⟨entry, rfl, hdns, rfl⟩ | ⟨ip, parsed, rfl, hread, rfl⟩ |
      ⟨ip, ip', parsed, parsed', rfl, hread, hread', hne, rfl⟩)
    · exact parseIPProvider_dns hdns
    · rw [parseIPProvider_static hread, parseStatic_one hread]
      rfl
    · rw [parseIPProvider_static hread, parseStatic_two hread hread' hne]
      rfl

theorem exists_provider_iff (config : String) (ips : List String) :
    (∃ p, parseIPProvider config ips = some (.ok p)) ↔ Accepted ips := by
  constructor
  · rintro ⟨p, h⟩
    rcases parseIPProvider_eq_ok.mp h with ⟨entry, rfl, hdns, -⟩ | ⟨ip, parsed, rfl, hread, -⟩ |
      ⟨ip, ip', parsed, parsed', rfl, hread, hread', hne, -⟩
    · exact .dns hdns
    · exact .one hread
    · exact .two hread hread' hne
  · intro h
    cases h with
    | dns hdns => exact ⟨_, parseIPProvider_dns hdns⟩
    | one hread => exact ⟨_, parseIPProvider_eq_ok.mpr (Or.inr (Or.inl ⟨_, _, rfl, hread, rfl⟩))⟩
    | two hread hread' hne =>
        exact ⟨_, parseIPProvider_eq_ok.mpr
          (Or.inr (Or.inr ⟨_, _, _, _, rfl, hread, hread', hne, rfl⟩))⟩

/-- A list with an entry is no panic. -/
theorem exists_result (config : String) {ips : List String} (h : ips ≠ []) :
    ∃ result, parseIPProvider config ips = some result := by
  cases ips with
  | nil => exact absurd rfl h
  | cons first rest =>
      unfold parseIPProvider
      split
      · cases ‹first :: rest = []›
      · split
        · split
          · exact ⟨_, rfl⟩
          · exact ⟨_, rfl⟩
        · exact ⟨_, rfl⟩

/-- A refusal is fatal. -/
theorem parseIPProvider_error {ips : List String} {logs : List FutureLog}
    (h : parseIPProvider config ips = some (.error logs)) : ∃ msg, logs = [futureFatal msg] := by
  have happly {ip : String} {static : Static} {logs : List FutureLog}
      (h : applyIPTo config ip static = .error logs) : ∃ msg, logs = [futureFatal msg] := by
    by_cases hread : ∃ parsed, ReadsAs ip parsed
    · obtain ⟨parsed, hread⟩ := hread
      rw [applyIPTo_ok hread] at h
      cases h
    · rw [applyIPTo_error (not_exists.mp hread)] at h
      exact ⟨_, (Except.error.inj h).symm⟩
  cases ips with
  | nil => cases h
  | cons first rest =>
      by_cases hdns : Strings.hasPrefix first "dns:"
      · by_cases hrest : rest = []
        · subst hrest
          rw [parseIPProvider_dns hdns] at h
          cases h
        · simp only [parseIPProvider, if_pos hdns, if_pos hrest] at h
          exact ⟨_, (Except.error.inj (Option.some.inj h)).symm⟩
      · simp only [parseIPProvider, if_neg hdns, parseStatic] at h
        cases hfirst : applyIPTo config first ⟨[], []⟩ with
        | error logs' =>
            rw [hfirst] at h
            obtain rfl := Except.error.inj (Option.some.inj h)
            exact happly hfirst
        | ok r =>
            rw [hfirst] at h
            cases rest with
            | nil => cases h
            | cons second more =>
                simp only [bind, Except.bind] at h
                cases hsecond : applyIPTo config second r.2 with
                | error logs' =>
                    rw [hsecond] at h
                    obtain rfl := Except.error.inj (Option.some.inj h)
                    exact happly hsecond
                | ok r' =>
                    simp only [hsecond] at h
                    split at h
                    · exact ⟨_, (Except.error.inj (Option.some.inj h)).symm⟩
                    · split at h
                      · exact ⟨_, (Except.error.inj (Option.some.inj h)).symm⟩
                      · cases h

/-! ## The provider is sound -/

theorem ReadsAs.ne_nil (h : ReadsAs ip parsed) : parsed ≠ [] :=
  IP.ne_nil_of_length (Or.inr (IP.length_parseIP h.1))

theorem addressed_one (h : ReadsAs ip parsed) :
    ByFamily (Static.one parsed).v4 (Static.one parsed).v6 := by
  have hne := h.ne_nil
  unfold Static.one
  split
  · next hfour => exact ⟨Or.inl hne, fun _ ↦ hfour, absurd rfl⟩
  · next hfour =>
      exact ⟨Or.inr hne, absurd rfl, fun _ ↦ Option.not_isSome_iff_eq_none.mp hfour⟩

theorem addressed_two (h : ReadsAs first parsed)
    (hne : parsed.to4.isSome ≠ parsed'.to4.isSome) (h' : ReadsAs second parsed') :
    ByFamily (Static.two parsed parsed').v4 (Static.two parsed parsed').v6 := by
  unfold Static.two
  split
  · next hfour =>
      refine ⟨Or.inl h.ne_nil, fun _ ↦ hfour, fun _ ↦ Option.not_isSome_iff_eq_none.mp ?_⟩
      exact fun hother ↦ hne (hfour.trans hother.symm)
  · next hfour =>
      refine ⟨Or.inl h'.ne_nil, fun _ ↦ ?_, fun _ ↦ Option.not_isSome_iff_eq_none.mp hfour⟩
      by_contra hother
      exact hne ((eq_false_of_ne_true hfour).trans (eq_false_of_ne_true hother).symm)

theorem provider_sound {ips : List String} {p : Provider}
    (h : parseIPProvider config ips = some (.ok p)) : p.Sound := by
  rcases parseIPProvider_eq_ok.mp h with ⟨entry, -, -, rfl⟩ | ⟨ip, parsed, -, hread, rfl⟩ |
    ⟨ip, ip', parsed, parsed', -, hread, hread', hne, rfl⟩
  · exact fun hfetched ↦ absurd hfetched (lt_irrefl _)
  · exact addressed_one hread
  · exact addressed_two hread hne hread'

end Screego
