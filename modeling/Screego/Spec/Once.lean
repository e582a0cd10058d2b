import Screego.Ws.Once

/-!
# One function at most

What `Do` is for, said without fields and without a mutex: nobody's function
runs, or one caller's does, from its start to its end.  Every interleaving of
calls is a run of that.  What orders the calls is that `done` is checked and
set while the mutex is held; the call that sets it is the only one that may
start its function, whenever it comes to it.
-/

namespace Screego.Once

variable {ι σ A W : Type}

/-! ## One step of one call -/

namespace Caller

/-- The call holds the mutex. -/
def Holds : Caller σ → Prop
  | .check | .store | .unlock _ => True
  | _ => False

/-- The call set `done`. -/
def Chosen : Caller σ → Prop
  | .unlock true | .call | .running _ | .returned true => True
  | _ => False

/-- The call found `done` set. -/
def Refused : Caller σ → Prop
  | .unlock false | .returned false => True
  | _ => False

def Returned : Caller σ → Prop
  | .returned _ => True
  | _ => False

/-- What is left of the function, once it is started. -/
def rest : Caller σ → Option (List σ)
  | .running rest => some rest
  | .returned true => some []
  | _ => none

/-- The function of the call was started. -/
def Started (c : Caller σ) : Prop := c.rest.isSome

theorem chosen_of_rest {c : Caller σ} {rest : List σ} (h : c.rest = some rest) : c.Chosen := by
  cases c with
  | running => trivial
  | returned executed =>
      cases executed with
      | true => trivial
      | false => cases h
  | _ => cases h

theorem Returned.chosen_or_refused {c : Caller σ} (h : c.Returned) : c.Chosen ∨ c.Refused := by
  cases c with
  | returned executed =>
      cases executed with
      | true => exact .inl trivial
      | false => exact .inr trivial
  | _ => cases h

end Caller

/-- The steps of the call `i`, with the fields and the world before and after. -/
inductive Moves (o : Callers ι σ A W) (i : ι) (once : Once) (w : W) :
    Caller σ → Caller σ → Once → W → Prop
  | seen : once.done = 1 → Moves o i once w .load (.returned false) once w
  | unseen : once.done ≠ 1 → Moves o i once w .load .lock once w
  | lock : once.m = false → Moves o i once w .lock .check { once with m := true } w
  | first : once.done = 0 → Moves o i once w .check .store once w
  | late : once.done ≠ 0 → Moves o i once w .check (.unlock false) once w
  | store : Moves o i once w .store (.unlock true) { once with done := 1 } w
  | leave : once.m = true → Moves o i once w (.unlock true) .call { once with m := false } w
  | leaveLate : once.m = true →
      Moves o i once w (.unlock false) (.returned false) { once with m := false } w
  | call : Moves o i once w .call (.running (o.f i)) once w
  | exec (x : σ) (rest : List σ) (err : Option String) :
      Moves o i once w (.running (x :: rest)) (.running rest) once (o.exec x err w)
  | finish : Moves o i once w (.running []) (.returned true) once w

variable {o : Callers ι σ A W} {i : ι} {once once' : Once} {w w' : W} {c c' : Caller σ}

theorem Callers.moves_of_step {err : Option String}
    (h : o.step i err once w c = some (c', once', w')) : Moves o i once w c c' once' w' := by
  cases c with
  | load =>
      obtain ⟨rfl, rfl, rfl⟩ : _ ∧ once = once' ∧ w = w' := by simpa [Callers.step] using h
      by_cases hdone : once.done = 1
      · rw [if_pos hdone]
        exact .seen hdone
      · rw [if_neg hdone]
        exact .unseen hdone
  | lock =>
      simp only [Callers.step] at h
      split at h
      · cases h
      · next hm =>
          obtain ⟨rfl, rfl, rfl⟩ : _ ∧ _ = once' ∧ w = w' := by simpa using h
          exact .lock (Bool.eq_false_iff.mpr hm)
  | check =>
      obtain ⟨rfl, rfl, rfl⟩ : _ ∧ once = once' ∧ w = w' := by simpa [Callers.step] using h
      by_cases hdone : once.done = 0
      · rw [if_pos hdone]
        exact .first hdone
      · rw [if_neg hdone]
        exact .late hdone
  | store =>
      obtain ⟨rfl, rfl, rfl⟩ : _ ∧ _ = once' ∧ w = w' := by simpa [Callers.step] using h
      exact .store
  | unlock execute =>
      simp only [Callers.step] at h
      split at h
      · next hm =>
          obtain ⟨rfl, rfl, rfl⟩ : _ ∧ _ = once' ∧ w = w' := by simpa using h
          cases execute with
          | true => exact .leave hm
          | false => exact .leaveLate hm
      · cases h
  | call =>
      obtain ⟨rfl, rfl, rfl⟩ : _ ∧ once = once' ∧ w = w' := by simpa [Callers.step] using h
      exact .call
  | running rest =>
      cases rest with
      | nil =>
          obtain ⟨rfl, rfl, rfl⟩ : _ ∧ once = once' ∧ w = w' := by simpa [Callers.step] using h
          exact .finish
      | cons x rest =>
          obtain ⟨rfl, rfl, rfl⟩ : _ ∧ once = once' ∧ _ = w' := by simpa [Callers.step] using h
          exact .exec x rest err
  | returned executed => cases h

section Moves

variable (h : Moves o i once w c c' once' w')
include h

theorem Moves.mutex (hc' : c'.Holds) : c.Holds ∨ once.m = false := by
  cases h with
  | lock hm => exact .inr hm
  | first | late | store => exact .inl trivial
  | _ => exact hc'.elim

theorem Moves.locked (hc : c.Holds → once.m = true) (hc' : c'.Holds) : once'.m = true := by
  cases h with
  | lock => rfl
  | first | late | store => exact hc trivial
  | _ => exact hc'.elim

/-- Only a call that holds the mutex opens it. -/
theorem Moves.opens (hm : once.m = true) : once'.m = true ∨ c.Holds := by
  cases h with
  | lock => exact .inl rfl
  | leave | leaveLate => exact .inr trivial
  | _ => exact .inl hm

theorem Moves.done : (once'.done = once.done ∧ (c'.Chosen ↔ c.Chosen)) ∨
    (c = .store ∧ once'.done = 1 ∧ c'.Chosen) := by
  cases h with
  | store => exact .inr ⟨rfl, rfl, trivial⟩
  | _ => exact .inl ⟨rfl, Iff.rfl⟩

theorem Moves.refused (hc : c.Refused → once.done = 1) (hdone : once.done = 0 ∨ once.done = 1)
    (hc' : c'.Refused) : once'.done = 1 := by
  cases h with
  | seen hseen => exact hseen
  | late hlate => exact hdone.resolve_left hlate
  | leaveLate => exact hc trivial
  | _ => exact hc'.elim

/-- A step starts the function, executes a statement of it, or does neither. -/
theorem Moves.rest : (c'.rest = c.rest ∧ w' = w) ∨
    (c = .call ∧ c'.rest = some (o.f i) ∧ w' = w) ∨
    ∃ x rest err, c.rest = some (x :: rest) ∧ c'.rest = some rest ∧ w' = o.exec x err w := by
  cases h with
  | call => exact .inr (.inl ⟨rfl, rfl, rfl⟩)
  | exec x rest err => exact .inr (.inr ⟨x, rest, err, rfl, rfl, rfl⟩)
  | _ => exact .inl ⟨rfl, rfl⟩

theorem Moves.storing (hc' : c' = .store) : once'.done = 0 ∧ c.Holds := by
  cases h with
  | first hdone => exact ⟨hdone, trivial⟩
  | _ => cases hc'

end Moves

/-! ## What orders the calls -/

/-- `done` is checked and set under the mutex, by one call after the other. -/
structure State.Ordered (s : State ι σ W) : Prop where
  mutex : Exclusive Caller.Holds s.caller
  locked : ∀ i, (s.caller i).Holds → s.once.m = true
  done : s.once.done = 0 ∨ s.once.done = 1
  storing : ∀ i, s.caller i = .store → s.once.done = 0
  chosen : Exclusive Caller.Chosen s.caller
  isSet : s.once.done = 1 ↔ ∃ i, (s.caller i).Chosen
  refused : ∀ i, (s.caller i).Refused → s.once.done = 1

variable [DecidableEq ι]

theorem Callers.next_caller {s t : State ι σ W} {err : Option String}
    (h : o.next s (.caller i err) = some t) :
    Moves o i s.once s.world (s.caller i) (t.caller i) t.once t.world ∧
      t.caller = Function.update s.caller i (t.caller i) := by
  obtain ⟨⟨c, once, w⟩, hstep, rfl⟩ := Option.map_eq_some_iff.mp h
  dsimp only
  rw [Function.update_self]
  exact ⟨moves_of_step hstep, rfl⟩

theorem State.Ordered.init : (o.machine.init).Ordered where
  mutex _ _ h := h.elim
  locked _ h := h.elim
  done := .inl rfl
  storing _ h := by cases h
  chosen _ _ h := h.elim
  isSet := by
    constructor
    · intro h
      cases h
    · rintro ⟨_, h⟩
      exact h.elim
  refused _ h := h.elim

omit [DecidableEq ι] in
/-- The call that sets `done` found it to be zero, so nobody set it before. -/
theorem State.Ordered.not_chosen {s : State ι σ W} (hs : s.Ordered) (h : s.caller i = .store)
    (j : ι) : ¬ (s.caller j).Chosen := by
  intro hj
  have hset := hs.isSet.mpr ⟨j, hj⟩
  rw [hs.storing i h] at hset
  cases hset

theorem State.Ordered.caller {s t : State ι σ W} {err : Option String} (hs : s.Ordered)
    (h : o.next s (.caller i err) = some t) : t.Ordered := by
  obtain ⟨hmoves, hupdate⟩ := Callers.next_caller h
  constructor
  case mutex =>
    rw [hupdate]
    refine hs.mutex.update fun hi ↦ (hmoves.mutex hi).imp_right fun hm j hj ↦ ?_
    rw [hs.locked j hj] at hm
    cases hm
  case locked =>
    intro j hj
    rw [hupdate] at hj
    rcases update_cases (P := Caller.Holds) hj with ⟨rfl, hholds⟩ | ⟨hji, hholds⟩
    · exact hmoves.locked (hs.locked j) hholds
    · refine (hmoves.opens (hs.locked j hholds)).resolve_right fun hi ↦ ?_
      exact hji (hs.mutex j i hholds hi)
  case done =>
    rcases hmoves.done with ⟨hdone, -⟩ | ⟨-, hdone, -⟩
    · rw [hdone]
      exact hs.done
    · exact .inr hdone
  case storing =>
    intro j hj
    rw [hupdate] at hj
    rcases update_cases (P := fun c : Caller σ ↦ c = .store) hj with
      ⟨rfl, hstoring⟩ | ⟨hji, hstoring⟩
    · exact (hmoves.storing hstoring).1
    · rcases hmoves.done with ⟨hdone, -⟩ | ⟨hstore, -⟩
      · rw [hdone]
        exact hs.storing j hstoring
      · -- both would hold the mutex
        have hboth := hs.mutex j i (by rw [hstoring]; trivial) (by rw [hstore]; trivial)
        exact absurd hboth hji
  case chosen =>
    rw [hupdate]
    refine hs.chosen.update fun hi ↦ ?_
    rcases hmoves.done with ⟨-, hiff⟩ | ⟨hstore, -⟩
    · exact .inl (hiff.mp hi)
    · exact .inr (hs.not_chosen hstore)
  case isSet =>
    rcases hmoves.done with ⟨hdone, hiff⟩ | ⟨-, hdone, hi⟩
    · rw [hdone, hs.isSet]
      refine exists_congr fun j ↦ ?_
      by_cases hji : j = i
      · subst hji
        exact hiff.symm
      · rw [hupdate, Function.update_of_ne hji]
    · exact ⟨fun _ ↦ ⟨i, hi⟩, fun _ ↦ hdone⟩
  case refused =>
    intro j hj
    rw [hupdate] at hj
    rcases update_cases (P := Caller.Refused) hj with ⟨rfl, hrefused⟩ | ⟨-, hrefused⟩
    · exact hmoves.refused (hs.refused j) hs.done hrefused
    · rcases hmoves.done with ⟨hdone, -⟩ | ⟨-, hdone, -⟩
      · rw [hdone]
        exact hs.refused j hrefused
      · exact hdone

theorem ordered_of_reachable {s : State ι σ W} (h : o.machine.Reachable s) : s.Ordered := by
  refine h.invariant .init fun {u v a} _ hu hstep ↦ ?_
  cases a with
  | caller i err => exact hu.caller hstep
  | other a =>
      obtain ⟨w, -, rfl⟩ := Option.map_eq_some_iff.mp hstep
      exact ⟨hu.mutex, hu.locked, hu.done, hu.storing, hu.chosen, hu.isSet, hu.refused⟩

omit [DecidableEq ι] in
/-- Once a call has returned, `done` is set, and it was set by one call. -/
theorem State.Ordered.chosen_of_returned {s : State ι σ W} (hs : s.Ordered)
    (h : (s.caller i).Returned) : ∃ k, ∀ j, (s.caller j).Chosen ↔ j = k := by
  have hset : s.once.done = 1 := by
    rcases h.chosen_or_refused with hi | hi
    · exact hs.isSet.mpr ⟨i, hi⟩
    · exact hs.refused i hi
  obtain ⟨k, hk⟩ := hs.isSet.mp hset
  refine ⟨k, fun j ↦ ⟨fun hj ↦ hs.chosen j k hj hk, ?_⟩⟩
  rintro rfl
  exact hk

/-- The function of the call `i` is started, or at most two steps of the call start it: its
`Unlock` and its call of `f`. -/
def Callers.Starts (o : Callers ι σ A W) (s : State ι σ W) (i : ι) : Prop :=
  ∃ l t, o.machine.Run s l t ∧ l.length ≤ 2 ∧ (∀ p ∈ l, ∃ err, p.2 = .caller i err) ∧
    (t.caller i).Started

theorem Callers.starts_of_started {s : State ι σ W} (h : (s.caller i).Started) : o.Starts s i :=
  ⟨[], s, .nil, Nat.zero_le 2, fun _ hp ↦ absurd hp List.not_mem_nil, h⟩

theorem Callers.starts_of_call {s : State ι σ W} (h : s.caller i = .call) :
    ∃ t, o.machine.step s (.caller i none) t ∧ (t.caller i).Started := by
  refine ⟨{ s with caller := Function.update s.caller i (.running (o.f i)) }, ?_, ?_⟩
  · change o.next s (.caller i none) = _
    rw [Callers.next, h]
    rfl
  · dsimp only
    rw [Function.update_self]
    rfl

/-- Nobody can hold up the call that set `done`. -/
theorem State.Ordered.starts {s : State ι σ W} (hs : s.Ordered) (h : (s.caller i).Chosen) :
    o.Starts s i := by
  cases hc : s.caller i with
  | unlock execute =>
      rw [hc] at h
      cases execute with
      | false => exact h.elim
      | true =>
          have hm : s.once.m = true := hs.locked i (by rw [hc]; trivial)
          let u : State ι σ W :=
            { s with
              once := { s.once with m := false }
              caller := Function.update s.caller i .call }
          have hu : o.machine.step s (.caller i none) u := by
            change o.next s (.caller i none) = _
            rw [Callers.next, hc, Callers.step, if_pos hm]
            rfl
          obtain ⟨t, ht, hstarted⟩ := Callers.starts_of_call (o := o) (s := u) (i := i)
            (Function.update_self ..)
          refine ⟨[(s, .caller i none), (u, .caller i none)], t, ?_, le_rfl, ?_, hstarted⟩
          · exact .cons hu (.cons ht .nil)
          · intro p hp
            simp only [List.mem_cons, List.not_mem_nil, or_false] at hp
            rcases hp with rfl | rfl <;> exact ⟨none, rfl⟩
  | call =>
      obtain ⟨t, ht, hstarted⟩ := Callers.starts_of_call (o := o) hc
      refine ⟨[(s, .caller i none)], t, .cons ht .nil, by simp, fun p hp ↦ ?_, hstarted⟩
      obtain rfl := List.mem_singleton.mp hp
      exact ⟨none, rfl⟩
  | running rest =>
      refine Callers.starts_of_started ?_
      rw [hc]
      rfl
  | returned executed =>
      rw [hc] at h
      cases executed with
      | false => exact h.elim
      | true =>
          refine Callers.starts_of_started ?_
          rw [hc]
          rfl
  | _ =>
      rw [hc] at h
      exact h.elim

/-! ## The refinement -/

/-- The caller whose function was started, with what is left of the function. -/
structure Single (ι σ W : Type) where
  running : Option (ι × List σ)
  world : W

/-- One function from its start to its end, next to what else goes on. -/
inductive Single.Step (o : Callers ι σ A W) (s : Single ι σ W) : Single ι σ W → Prop
  | start (i : ι) : s.running = none → Step o s { s with running := some (i, o.f i) }
  | exec {i : ι} {x : σ} {rest : List σ} (err : Option String) :
      s.running = some (i, x :: rest) → Step o s ⟨some (i, rest), o.exec x err s.world⟩
  | other {a : A} {w : W} : o.other a s.world = some w → Step o s { s with world := w }

def Callers.single (o : Callers ι σ A W) : Machine (Single ι σ W) Unit where
  init := ⟨none, o.world⟩
  step s _ t := s.Step o t

structure State.Refines (s : State ι σ W) (p : Single ι σ W) : Prop where
  world : s.world = p.world
  running : ∀ i rest, (s.caller i).rest = some rest ↔ p.running = some (i, rest)

omit [DecidableEq ι] in
theorem State.Refines.started {s : State ι σ W} {p : Single ι σ W} (h : s.Refines p) :
    Exclusive Caller.Started s.caller := by
  intro i j hi hj
  obtain ⟨resti, hi⟩ := Option.isSome_iff_exists.mp hi
  obtain ⟨restj, hj⟩ := Option.isSome_iff_exists.mp hj
  rw [h.running] at hi hj
  exact (Prod.mk.inj (Option.some.inj (hi.symm.trans hj))).1

omit [DecidableEq ι] in
/-- A call that set `done` and has yet to start its function finds nobody's started. -/
theorem State.Refines.running_eq_none {s : State ι σ W} {p : Single ι σ W} (h : s.Refines p)
    (hs : s.Ordered) (hi : s.caller i = .call) : p.running = none := by
  rcases hp : p.running with _ | ⟨j, rest⟩
  · rfl
  · have hj := (h.running j rest).mpr hp
    obtain rfl := hs.chosen i j (by rw [hi]; trivial) (Caller.chosen_of_rest hj)
    rw [hi] at hj
    cases hj

theorem State.Refines.step {s t : State ι σ W} {p : Single ι σ W} {a : Act ι A}
    (h : s.Refines p) (hs : s.Ordered) (hstep : o.next s a = some t) :
    t.Refines p ∨ ∃ q, p.Step o q ∧ t.Refines q := by
  cases a with
  | other a =>
      obtain ⟨w, hw, rfl⟩ := Option.map_eq_some_iff.mp hstep
      rw [h.world] at hw
      exact .inr ⟨_, .other hw, ⟨rfl, h.running⟩⟩
  | caller i err =>
      obtain ⟨hmoves, hupdate⟩ := Callers.next_caller hstep
      have hother : ∀ j, j ≠ i → (t.caller j).rest = (s.caller j).rest := by
        intro j hj
        rw [hupdate, Function.update_of_ne hj]
      rcases hmoves.rest with ⟨hrest, hworld⟩ | ⟨hcall, hrest, hworld⟩ |
        ⟨x, rest, err, hbefore, hrest, hworld⟩
      · refine .inl ⟨hworld.trans h.world, fun j rest ↦ ?_⟩
        rw [← h.running]
        by_cases hji : j = i
        · rw [hji, hrest]
        · rw [hother j hji]
      · have hnone := h.running_eq_none hs hcall
        refine .inr ⟨_, .start i hnone, ⟨hworld.trans h.world, fun j rest ↦ ?_⟩⟩
        by_cases hji : j = i
        · subst hji
          simp [hrest]
        · rw [hother j hji, h.running, hnone]
          simp [Ne.symm hji]
      · have hrunning := (h.running i _).mp hbefore
        refine .inr ⟨_, .exec err hrunning, ⟨by rw [hworld, h.world], fun j rest' ↦ ?_⟩⟩
        by_cases hji : j = i
        · subst hji
          simp [hrest]
        · rw [hother j hji, h.running, hrunning]
          simp [Ne.symm hji]

/-- Every interleaving of calls is a run of at most one function. -/
theorem refines_of_reachable {s : State ι σ W} (h : o.machine.Reachable s) :
    ∃ p, o.single.Reachable p ∧ s.Refines p := by
  refine h.simulates (N := o.single) ⟨rfl, fun i rest ↦ ?_⟩ fun hu hp hstep ↦ ?_
  · constructor <;> intro h <;> cases h
  · rcases hp.step (ordered_of_reachable hu) hstep with hv | ⟨q, hq, hv⟩
    · exact .inl hv
    · exact .inr ⟨(), q, hq, hv⟩

end Screego.Once
