import Mathlib.Data.List.Induction

/-!
# Labelled transition systems

A `Machine` has an initial state and a labelled step relation.  A run records
each state it leaves together with the action taken there, so a condition on
the steps of a run can look at the state before the step.  The rules below turn
facts about one step into facts about runs.
-/

structure Machine (S A : Type) where
  init : S
  step : S → A → S → Prop

namespace Machine

variable {S A : Type} (M : Machine S A)

/-- `Run s l t`: the steps `l` lead from `s` to `t`. -/
inductive Run (s : S) : List (S × A) → S → Prop
  | nil : Run s [] s
  | snoc {l : List (S × A)} {t u : S} {a : A} :
      Run s l t → M.step t a u → Run s (l ++ [(t, a)]) u

def Reachable (s : S) : Prop := ∃ l, M.Run M.init l s

variable {M}

theorem Reachable.init : M.Reachable M.init := ⟨[], .nil⟩

theorem Reachable.step {s t : S} {a : A} (h : M.Reachable s) (hs : M.step s a t) :
    M.Reachable t := by
  obtain ⟨l, hl⟩ := h
  exact ⟨l ++ [(s, a)], hl.snoc hs⟩

theorem Reachable.run {s t : S} {l : List (S × A)} (h : M.Reachable s) (hr : M.Run s l t) :
    M.Reachable t := by
  induction hr with
  | nil => exact h
  | snoc _ hs ih => exact ih.step hs

/-- What holds before a run and survives every step from a reachable state holds after it. -/
theorem Run.preserves {I : S → Prop} {s t : S} {l : List (S × A)} (h : M.Run s l t)
    (hs : M.Reachable s) (hI : I s)
    (hstep : ∀ {u v a}, M.Reachable u → I u → M.step u a v → I v) : I t := by
  induction h with
  | nil => exact hI
  | snoc hr hst ih => exact hstep (hs.run hr) ih hst

theorem Reachable.invariant {I : S → Prop} {s : S} (h : M.Reachable s) (hinit : I M.init)
    (hstep : ∀ {u v a}, M.Reachable u → I u → M.step u a v → I v) : I s := by
  obtain ⟨l, hl⟩ := h
  exact hl.preserves .init hinit hstep

/-- The steps before one of a run lead to where it is taken. -/
theorem Run.upto_of_mem {s t : S} {l : List (S × A)} (h : M.Run s l t) {p : S × A} (hp : p ∈ l) :
    ∃ l', M.Run s l' p.1 ∧ l' ⊆ l := by
  induction h with
  | nil => cases hp
  | snoc hr _ ih =>
      rcases List.mem_append.mp hp with hp | hp
      · obtain ⟨l', hl', hsub⟩ := ih hp
        exact ⟨l', hl', List.subset_append_of_subset_left _ hsub⟩
      · rw [List.mem_singleton.mp hp]
        exact ⟨_, hr, List.subset_append_left _ _⟩

theorem Run.reachable_of_mem {s t : S} {l : List (S × A)} (h : M.Run s l t)
    (hs : M.Reachable s) {p : S × A} (hp : p ∈ l) : M.Reachable p.1 := by
  obtain ⟨l', hl', -⟩ := h.upto_of_mem hp
  exact hs.run hl'

/-- What every step keeps holds in each state that a run leaves. -/
theorem Run.preserves_of_mem {I : S → Prop} {s t : S} {l : List (S × A)} (h : M.Run s l t)
    (hs : M.Reachable s) (hI : I s)
    (hstep : ∀ {u v a}, M.Reachable u → I u → M.step u a v → I v) {p : S × A} (hp : p ∈ l) :
    I p.1 := by
  obtain ⟨l', hl', -⟩ := h.upto_of_mem hp
  exact hl'.preserves hs hI hstep

theorem Run.cons {s t u : S} {a : A} {l : List (S × A)} (hs : M.step s a t) (h : M.Run t l u) :
    M.Run s ((s, a) :: l) u := by
  induction h with
  | nil => exact Run.snoc .nil hs
  | snoc _ hst ih => exact ih.snoc hst

/-- A step of a run is taken, and the run goes on from where it leads. -/
theorem Run.after_of_mem {s t : S} {l : List (S × A)} (h : M.Run s l t) {p : S × A}
    (hp : p ∈ l) : ∃ u l', M.step p.1 p.2 u ∧ M.Run u l' t := by
  induction h with
  | nil => cases hp
  | snoc _ hst ih =>
      rcases List.mem_append.mp hp with hp | hp
      · obtain ⟨u, l', hu, hl'⟩ := ih hp
        exact ⟨u, _, hu, hl'.snoc hst⟩
      · rw [List.mem_singleton.mp hp]
        exact ⟨_, [], hst, .nil⟩

theorem Run.last {s u : S} {l : List (S × A)} {p : S × A} (h : M.Run s (l ++ [p]) u) :
    M.Run s l p.1 ∧ M.step p.1 p.2 u := by
  generalize hl : l ++ [p] = l' at h
  cases h with
  | nil => simp at hl
  | snoc hr hst =>
      obtain ⟨rfl, hp⟩ := List.append_inj' hl rfl
      obtain rfl := List.singleton_inj.mp hp
      exact ⟨hr, hst⟩

/-- A run comes to each of its steps and takes it. -/
theorem Run.split {s t : S} {l₁ l₂ : List (S × A)} {p : S × A}
    (h : M.Run s (l₁ ++ p :: l₂) t) : M.Run s l₁ p.1 ∧ ∃ u, M.step p.1 p.2 u := by
  induction l₂ using List.reverseRecOn generalizing t with
  | nil => exact ⟨h.last.1, t, h.last.2⟩
  | append_singleton l₂ q ih =>
      rw [← List.cons_append, ← List.append_assoc] at h
      exact ih h.last.1

/-- A relation between two machines that every step of the first keeps, while the second stands
still or takes a step, relates each reachable state of the first to one of the second. -/
theorem Reachable.simulates {T B : Type} {N : Machine T B} {R : S → T → Prop} {s : S}
    (h : M.Reachable s) (hinit : R M.init N.init)
    (hstep : ∀ {u v a p}, M.Reachable u → R u p → M.step u a v →
      R v p ∨ ∃ b q, N.step p b q ∧ R v q) : ∃ p, N.Reachable p ∧ R s p := by
  refine h.invariant (I := fun s ↦ ∃ p, N.Reachable p ∧ R s p) ⟨_, .init, hinit⟩ ?_
  rintro u v a hu ⟨p, hp, hR⟩ hst
  rcases hstep hu hR hst with hv | ⟨b, q, hq, hv⟩
  · exact ⟨p, hp, hv⟩
  · exact ⟨q, hp.step hq, hv⟩

/-- Where one step from a good state is good exactly under a condition on the step, a run stays
good exactly when all of its steps meet the condition. -/
theorem Run.always_iff {P : S → Prop} {Q : S → A → Prop} {t : S} {l : List (S × A)}
    (h : M.Run M.init l t) (hinit : P M.init)
    (hstep : ∀ {u v a}, M.Reachable u → P u → M.step u a v → (P v ↔ Q u a)) :
    ((∀ p ∈ l, P p.1) ∧ P t) ↔ ∀ p ∈ l, Q p.1 p.2 := by
  induction h with
  | nil => simp [hinit]
  | snoc hr hst ih =>
      have hreach := Reachable.init.run hr
      simp only [List.mem_append, List.mem_singleton, or_imp, forall_and, forall_eq]
      rw [← ih]
      constructor
      · rintro ⟨⟨hl, hu⟩, hv⟩
        exact ⟨⟨hl, hu⟩, (hstep hreach hu hst).mp hv⟩
      · rintro ⟨⟨hl, hu⟩, hQ⟩
        exact ⟨⟨hl, hu⟩, (hstep hreach hu hst).mpr hQ⟩

/-! ## Scripts -/

/-- The machine of a function that gives the state after an action, if the action can be taken. -/
def ofNext (init : S) (next : S → A → Option S) : Machine S A where
  init := init
  step s a t := next s a = some t

/-- Take an action and record it; one that cannot be taken is passed over. -/
def play (next : S → A → Option S) (h : List (S × A) × S) (a : A) : List (S × A) × S :=
  match next h.2 a with
  | none => h
  | some t => (h.1 ++ [(h.2, a)], t)

/-- The run that a script makes: its steps and its last state. -/
def history (init : S) (next : S → A → Option S) (script : List A) : List (S × A) × S :=
  script.foldl (play next) ([], init)

/-- Whatever keeps a record a run makes a run of a script. -/
theorem run_foldl {play : List (S × A) × S → A → List (S × A) × S}
    (hplay : ∀ h a, M.Run M.init h.1 h.2 → M.Run M.init (play h a).1 (play h a).2)
    (script : List A) : M.Run M.init (script.foldl play ([], M.init)).1
      (script.foldl play ([], M.init)).2 := by
  have hloop : ∀ h : List (S × A) × S, M.Run M.init h.1 h.2 →
      M.Run M.init (script.foldl play h).1 (script.foldl play h).2 := by
    induction script with
    | nil => exact fun _ h ↦ h
    | cons a script ih => exact fun h hrun ↦ ih _ (hplay h a hrun)
  exact hloop _ .nil

theorem run_history (init : S) (next : S → A → Option S) (script : List A) :
    (ofNext init next).Run init (history init next script).1 (history init next script).2 := by
  refine run_foldl (M := ofNext init next) (fun h a hrun ↦ ?_) script
  unfold play
  split
  · exact hrun
  · next t ht => exact hrun.snoc ht

end Machine

/-! ## Many processes -/

/-- At most one process is in a state of the kind `P`. -/
def Exclusive {ι α : Type} (P : α → Prop) (c : ι → α) : Prop :=
  ∀ i j, P (c i) → P (c j) → i = j

section Update

variable {ι α : Type} [DecidableEq ι] {P : α → Prop} {c : ι → α} {k : ι} {x : α}

/-- After a process moved, what is found is its new state or another process as it was. -/
theorem update_cases {i : ι} (h : P (Function.update c k x i)) : i = k ∧ P x ∨ i ≠ k ∧ P (c i) := by
  by_cases hik : i = k
  · subst hik
    rw [Function.update_self] at h
    exact Or.inl ⟨rfl, h⟩
  · rw [Function.update_of_ne hik] at h
    exact Or.inr ⟨hik, h⟩

/-- A process may come to the kind `P` if it is there already, or if nobody is. -/
theorem Exclusive.update (h : Exclusive P c) (hx : P x → P (c k) ∨ ∀ i, ¬ P (c i)) :
    Exclusive P (Function.update c k x) := by
  intro i j hi hj
  rcases update_cases (P := P) hi with ⟨rfl, hx'⟩ | ⟨-, hi'⟩
  · rcases update_cases (P := P) hj with ⟨rfl, -⟩ | ⟨-, hj'⟩
    · rfl
    · rcases hx hx' with hk | hnone
      · exact h i j hk hj'
      · exact absurd hj' (hnone j)
  · rcases update_cases (P := P) hj with ⟨rfl, hx'⟩ | ⟨-, hj'⟩
    · rcases hx hx' with hk | hnone
      · exact h i j hi' hk
      · exact absurd hi' (hnone i)
    · exact h i j hi' hj'

end Update
