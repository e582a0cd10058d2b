import Mathlib.Data.Int.Order.Basic
import Screego.Lib.Machine
import Screego.Net.ParseIP

/-!
# Providers of the external address

The address of the server is fixed, or it is looked up in the DNS.  A lookup is
kept for a minute, a failed one for a second, and the first `Get` always looks
up because the zero time is in the past.
-/

namespace Screego
namespace IPDNS

/-- Times are nanoseconds since the zero time. -/
def second : ℤ := 1000000000

def minute : ℤ := 60 * second

/-- An address in an answer of the DNS. -/
abbrev Address := {ip : IP // ip.length = 4 ∨ ip.length = 16}

/-- `net.DNSError`, as far as its text goes. -/
structure DNSError where
  err : String
  name : String
  server : String

def DNSError.text (e : DNSError) : String :=
  "lookup " ++ e.name ++ (if e.server ≠ "" then " on " ++ e.server else "") ++ ": " ++ e.err

inductive LookupError where
  | dnsError (e : DNSError)
  | other (msg : String)

/-- The outside of a provider: the clock and the resolver, which is asked about a domain through
a server of its own or through the system. -/
structure Network where
  now : ℕ → ℤ
  now_pos : ∀ n, 0 < now n
  lookupIP : ℕ → Option String → String → Except LookupError (List Address)

structure Static where
  v4 : IP
  v6 : IP
  deriving DecidableEq

structure DNS where
  dns : String
  /-- The server that `Resolver` dials. -/
  resolver : Option String
  domain : String
  refetch : ℤ
  v4 : IP
  v6 : IP
  err : Option String

inductive Provider where
  | static (s : Static)
  | dns (s : DNS)

variable (network : Network)

/-- The body of the loop in `lookup`. -/
def pick (best : IP × IP) (ip : IP) : IP × IP :=
  if ':' ∈ ip.toString.toList ∧ best.2 = [] then (best.1, ip)
  else if ':' ∉ ip.toString.toList ∧ best.1 = [] then (ip, best.2)
  else best

def DNS.lookup (tick : ℕ) (s : DNS) : Except String (IP × IP) :=
  match network.lookupIP tick s.resolver s.domain with
  | .error (.dnsError e) =>
      .error (if s.dns ≠ "system" then { e with server := "" } else e).text
  | .error (.other msg) => .error msg
  | .ok ips =>
      let best := ips.foldl (fun best ip ↦ pick best ip.val) ([], [])
      if best.1 = [] ∧ best.2 = [] then .error "dns record doesn't have an A or AAAA record"
      else .ok best

/-- The result `s.v4, s.v6, s.err`. -/
def DNS.result (s : DNS) : Except String (IP × IP) :=
  match s.err with
  | none => .ok (s.v4, s.v6)
  | some err => .error err

/-- `DNS.Get`: the result and the record it leaves behind. -/
def DNS.get (tick : ℕ) (s : DNS) : Except String (IP × IP) × DNS :=
  let s := if s.refetch < network.now tick then
    match s.lookup network tick with
    | .ok (v4, v6) =>
        { s with v4 := v4, v6 := v6, err := none, refetch := network.now (tick + 1) + minute }
    | .error err =>
        -- don't spam the dns server
        { s with v4 := [], v6 := [], err := some err, refetch := network.now (tick + 1) + second }
    else s
  (s.result, s)

def Provider.get (tick : ℕ) : Provider → Except String (IP × IP) × Provider
  | .static s => (.ok (s.v4, s.v6), .static s)
  | .dns s => ((s.get network tick).1, .dns (s.get network tick).2)

/-- A provider from one `Get` to the next.  The clock may go either way in between. -/
def machine (p : Provider) : Machine Provider ℕ where
  init := p
  step p tick p' := p' = (p.get network tick).2

/-! ## What a provider gives -/

/-- There is an address, and each one is of the family that its place is for. -/
structure ByFamily (v4 v6 : IP) : Prop where
  exists_address : v4 ≠ [] ∨ v6 ≠ []
  v4 : v4 ≠ [] → v4.to4.isSome
  v6 : v6 ≠ [] → v6.to4 = none

def Provider.Sound : Provider → Prop
  | .static s => ByFamily s.v4 s.v6
  | .dns s => 0 < s.refetch → s.err = none → ByFamily s.v4 s.v6

/-- What was picked so far is in its place. -/
theorem foldl_pick {best : IP × IP} (hv4 : best.1 ≠ [] → best.1.to4.isSome)
    (hv6 : best.2 ≠ [] → best.2.to4 = none) (ips : List Address) :
    ((ips.foldl (fun best ip ↦ pick best ip.val) best).1 ≠ [] →
      (ips.foldl (fun best ip ↦ pick best ip.val) best).1.to4.isSome) ∧
    ((ips.foldl (fun best ip ↦ pick best ip.val) best).2 ≠ [] →
      (ips.foldl (fun best ip ↦ pick best ip.val) best).2.to4 = none) := by
  induction ips generalizing best with
  | nil => exact ⟨hv4, hv6⟩
  | cons ip ips ih =>
      rw [List.foldl_cons]
      have hcolon := IP.colon_mem_toString ip.property
      unfold pick
      split
      · next h => exact ih hv4 fun _ ↦ hcolon.mp h.1
      · split
        · next h => exact ih (fun _ ↦ Option.ne_none_iff_isSome.mp (mt hcolon.mpr h.1)) hv6
        · exact ih hv4 hv6

theorem DNS.lookup_ok {s : DNS} {tick : ℕ} {v4 v6 : IP}
    (h : s.lookup network tick = .ok (v4, v6)) : ByFamily v4 v6 := by
  unfold DNS.lookup at h
  split at h
  · cases h
  · cases h
  · next ips _ =>
      obtain ⟨hv4, hv6⟩ := @foldl_pick ([], []) (absurd rfl) (absurd rfl) ips
      dsimp only at h
      split at h
      · cases h
      · next hnone =>
          have hbest := Except.ok.inj h
          rw [hbest] at hv4 hv6 hnone
          exact ⟨not_and_or.mp hnone, hv4, hv6⟩

theorem DNS.result_ok {s : DNS} {v4 v6 : IP} (h : s.result = .ok (v4, v6)) :
    s.err = none ∧ s.v4 = v4 ∧ s.v6 = v6 := by
  unfold DNS.result at h
  cases herr : s.err with
  | some err =>
      rw [herr] at h
      cases h
  | none =>
      rw [herr] at h
      obtain ⟨rfl, rfl⟩ := Prod.mk.inj (Except.ok.inj h)
      exact ⟨rfl, rfl, rfl⟩

/-- A `Get` looks up, or it finds an earlier lookup. -/
theorem DNS.get_addressed {s : DNS} (h : 0 < s.refetch → s.err = none → ByFamily s.v4 s.v6)
    (tick : ℕ) (hnone : (s.get network tick).2.err = none) :
    ByFamily (s.get network tick).2.v4 (s.get network tick).2.v6 := by
  unfold DNS.get at hnone ⊢
  by_cases hdue : s.refetch < network.now tick
  · cases hlookup : s.lookup network tick with
    | error err => simp [if_pos hdue, hlookup] at hnone
    | ok best =>
        simp only [if_pos hdue]
        exact DNS.lookup_ok network hlookup
  · simp only [if_neg hdue] at hnone ⊢
    exact h (lt_of_lt_of_le (network.now_pos tick) (not_lt.mp hdue)) hnone

/-- One `Get`: a result that is no error has an address. -/
theorem Provider.get_sound {p : Provider} (h : p.Sound) (tick : ℕ) :
    (p.get network tick).2.Sound ∧
      ∀ v4 v6, (p.get network tick).1 = .ok (v4, v6) → ByFamily v4 v6 := by
  cases p with
  | static s =>
      refine ⟨h, fun v4 v6 hok ↦ ?_⟩
      cases hok
      exact h
  | dns s =>
      have haddressed := DNS.get_addressed network h tick
      refine ⟨fun _ ↦ haddressed, fun v4 v6 hok ↦ ?_⟩
      obtain ⟨hnone, rfl, rfl⟩ := DNS.result_ok hok
      exact haddressed hnone

/-- Whatever happened before, a `Get` without an error gives an address. -/
theorem reachable_addressed {p p' : Provider} (hp : p.Sound)
    (h : (machine network p).Reachable p') {tick : ℕ} {v4 v6 : IP}
    (hok : (p'.get network tick).1 = .ok (v4, v6)) : ByFamily v4 v6 := by
  have hsound : p'.Sound := by
    refine h.invariant hp ?_
    rintro q q' tick - hq rfl
    exact (q.get_sound network hq tick).1
  exact (p'.get_sound network hsound tick).2 v4 v6 hok

/-! ## Where an address is from -/

/-- An answer about the domain of the record has the address. -/
def DNS.Answers (s : DNS) (ip : IP) : Prop :=
  ∃ tick ips, network.lookupIP tick s.resolver s.domain = .ok ips ∧ ip ∈ ips.map Subtype.val

/-- A record that comes from another one: it asks the same, and what it holds was answered. -/
structure DNS.Follows (s s' : DNS) : Prop where
  resolver : s'.resolver = s.resolver
  domain : s'.domain = s.domain
  answered : 0 < s'.refetch → s'.err = none → (s'.v4 ≠ [] → s.Answers network s'.v4) ∧
    (s'.v6 ≠ [] → s.Answers network s'.v6)

/-- What is picked is an address of the list, or it was there before. -/
theorem foldl_pick_mem {best : IP × IP} (ips : List Address) :
    ((ips.foldl (fun best ip ↦ pick best ip.val) best).1 = best.1 ∨
      (ips.foldl (fun best ip ↦ pick best ip.val) best).1 ∈ ips.map Subtype.val) ∧
    ((ips.foldl (fun best ip ↦ pick best ip.val) best).2 = best.2 ∨
      (ips.foldl (fun best ip ↦ pick best ip.val) best).2 ∈ ips.map Subtype.val) := by
  induction ips generalizing best with
  | nil => exact ⟨Or.inl rfl, Or.inl rfl⟩
  | cons ip ips ih =>
      have hpick : ((pick best ip.val).1 = best.1 ∨ (pick best ip.val).1 = ip.val) ∧
          ((pick best ip.val).2 = best.2 ∨ (pick best ip.val).2 = ip.val) := by
        unfold pick
        split
        · exact ⟨Or.inl rfl, Or.inr rfl⟩
        · split
          · exact ⟨Or.inr rfl, Or.inl rfl⟩
          · exact ⟨Or.inl rfl, Or.inl rfl⟩
      have hstep {picked old chosen : IP} (h : picked = chosen ∨ picked ∈ ips.map Subtype.val)
          (hchosen : chosen = old ∨ chosen = ip.val) :
          picked = old ∨ picked ∈ (ip :: ips).map Subtype.val := by
        rw [List.map_cons, List.mem_cons]
        rcases h with rfl | h
        · exact hchosen.imp_right Or.inl
        · exact Or.inr (Or.inr h)
      rw [List.foldl_cons]
      exact ⟨hstep ih.1 hpick.1, hstep ih.2 hpick.2⟩

theorem DNS.lookup_answers {s : DNS} {tick : ℕ} {v4 v6 : IP}
    (h : s.lookup network tick = .ok (v4, v6)) :
    (v4 ≠ [] → s.Answers network v4) ∧ (v6 ≠ [] → s.Answers network v6) := by
  unfold DNS.lookup at h
  split at h
  · cases h
  · cases h
  · next ips hips =>
      obtain ⟨hv4, hv6⟩ := @foldl_pick_mem ([], []) ips
      dsimp only at h
      split at h
      · cases h
      · have hbest := Except.ok.inj h
        rw [hbest] at hv4 hv6
        exact ⟨fun hne ↦ ⟨tick, ips, hips, hv4.resolve_left hne⟩,
          fun hne ↦ ⟨tick, ips, hips, hv6.resolve_left hne⟩⟩

theorem DNS.Follows.get {s s' : DNS} (h : s.Follows network s') (tick : ℕ) :
    s.Follows network (s'.get network tick).2 := by
  unfold DNS.get
  by_cases hdue : s'.refetch < network.now tick
  · cases hlookup : s'.lookup network tick with
    | error err =>
        simp only [if_pos hdue]
        exact ⟨h.resolver, h.domain, fun _ ↦ nofun⟩
    | ok best =>
        obtain ⟨hv4, hv6⟩ := DNS.lookup_answers network hlookup
        simp only [DNS.Answers, h.resolver, h.domain] at hv4 hv6
        simp only [if_pos hdue]
        exact ⟨h.resolver, h.domain, fun _ _ ↦ ⟨hv4, hv6⟩⟩
  · simp only [if_neg hdue]
    exact h

/-- After a `Get` the record was fetched. -/
theorem DNS.refetch_pos {s : DNS} (tick : ℕ) : 0 < (s.get network tick).2.refetch := by
  unfold DNS.get
  by_cases hdue : s.refetch < network.now tick
  · have hnow := network.now_pos (tick + 1)
    have hsecond : 0 < second := by decide
    have hminute : 0 < minute := by decide
    cases hlookup : s.lookup network tick with
    | error err =>
        simp only [if_pos hdue]
        omega
    | ok best =>
        simp only [if_pos hdue]
        omega
  · simp only [if_neg hdue]
    exact lt_of_lt_of_le (network.now_pos tick) (not_lt.mp hdue)

theorem reachable_static {s : Static} {p : Provider}
    (h : (machine network (.static s)).Reachable p) : p = .static s := by
  refine h.invariant (I := fun p ↦ p = .static s) rfl ?_
  rintro _ _ tick - rfl rfl
  rfl

theorem reachable_dns {s : DNS} (hs : s.refetch ≤ 0) {p : Provider}
    (h : (machine network (.dns s)).Reachable p) : ∃ s', p = .dns s' ∧ s.Follows network s' := by
  refine h.invariant (I := fun p ↦ ∃ s', p = .dns s' ∧ s.Follows network s')
    ⟨s, rfl, rfl, rfl, fun hpos ↦ absurd hpos (not_lt.mpr hs)⟩ ?_
  rintro _ _ tick - ⟨s', rfl, hs'⟩ rfl
  exact ⟨_, rfl, hs'.get network tick⟩

/-- The addresses of a DNS provider are from answers about its domain. -/
theorem reachable_answers {s : DNS} (hs : s.refetch ≤ 0) {p : Provider}
    (h : (machine network (.dns s)).Reachable p) {tick : ℕ} {v4 v6 : IP}
    (hok : (p.get network tick).1 = .ok (v4, v6)) :
    (v4 ≠ [] → s.Answers network v4) ∧ (v6 ≠ [] → s.Answers network v6) := by
  obtain ⟨s', rfl, hs'⟩ := reachable_dns network hs h
  obtain ⟨hnone, rfl, rfl⟩ := DNS.result_ok hok
  exact (hs'.get network tick).answered (DNS.refetch_pos network tick) hnone

end IPDNS
end Screego
