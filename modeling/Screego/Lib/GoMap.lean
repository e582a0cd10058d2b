import Mathlib.Data.Finmap

/-!
# Finite maps with an unspecified iteration order

A Go map is a finite map whose `range` visits the keys in some order that the
program cannot rely on.  The map itself is Mathlib's `Finmap` at a constant
value type, so two maps are equal as soon as their lookups are.  The order of
one `range` statement is a `RangeOrder`: any enumeration of the key set at all.
-/

/-- A map from `K` to `V`. -/
def GoMap (K V : Type) : Type := Finmap fun _ : K ↦ V

namespace GoMap

variable {K V W : Type} [DecidableEq K]

instance : EmptyCollection (GoMap K V) := ⟨(∅ : Finmap fun _ : K ↦ V)⟩

instance [DecidableEq V] : DecidableEq (GoMap K V) :=
  inferInstanceAs (DecidableEq (Finmap fun _ : K ↦ V))

def keys (m : GoMap K V) : Finset K := Finmap.keys m

def lookup (m : GoMap K V) (k : K) : Option V := Finmap.lookup k m

def insert (m : GoMap K V) (k : K) (v : V) : GoMap K V := Finmap.insert k v m

def erase (m : GoMap K V) (k : K) : GoMap K V := Finmap.erase k m

theorem ext {m m' : GoMap K V} (h : ∀ k, m.lookup k = m'.lookup k) : m = m' :=
  Finmap.ext_lookup h

@[simp] theorem mem_keys {m : GoMap K V} {k : K} : k ∈ m.keys ↔ ∃ v, m.lookup k = some v :=
  Finmap.mem_keys.trans Finmap.mem_iff

theorem mem_keys_of_lookup {m : GoMap K V} {k : K} {v : V} (h : m.lookup k = some v) :
    k ∈ m.keys :=
  mem_keys.mpr ⟨v, h⟩

theorem lookup_eq_none {m : GoMap K V} {k : K} : m.lookup k = none ↔ k ∉ m.keys := by
  rw [mem_keys, Option.eq_none_iff_forall_ne_some, not_exists]

@[simp] theorem lookup_empty (k : K) : (∅ : GoMap K V).lookup k = none :=
  Finmap.lookup_empty k

theorem lookup_insert (m : GoMap K V) (k k' : K) (v : V) :
    (m.insert k v).lookup k' = if k' = k then some v else m.lookup k' := by
  split
  · next h =>
      subst h
      exact Finmap.lookup_insert m
  · next h => exact Finmap.lookup_insert_of_ne m h

@[simp] theorem lookup_insert_self (m : GoMap K V) (k : K) (v : V) :
    (m.insert k v).lookup k = some v := Finmap.lookup_insert m

theorem lookup_insert_of_ne {m : GoMap K V} {k k' : K} {v : V} (h : k' ≠ k) :
    (m.insert k v).lookup k' = m.lookup k' := Finmap.lookup_insert_of_ne m h

theorem lookup_erase (m : GoMap K V) (k k' : K) :
    (m.erase k).lookup k' = if k' = k then none else m.lookup k' := by
  split
  · next h =>
      subst h
      exact Finmap.lookup_erase k' m
  · next h => exact Finmap.lookup_erase_ne h

@[simp] theorem lookup_erase_self (m : GoMap K V) (k : K) : (m.erase k).lookup k = none :=
  Finmap.lookup_erase k m

theorem lookup_erase_of_ne {m : GoMap K V} {k k' : K} (h : k' ≠ k) :
    (m.erase k).lookup k' = m.lookup k' := Finmap.lookup_erase_ne h

theorem lookup_of_erase {m : GoMap K V} {k k' : K} {v : V} (h : (m.erase k).lookup k' = some v) :
    m.lookup k' = some v := by
  rw [lookup_erase] at h
  split at h
  · cases h
  · exact h

@[simp] theorem keys_insert (m : GoMap K V) (k : K) (v : V) :
    (m.insert k v).keys = Insert.insert k m.keys := by
  ext k'
  by_cases h : k' = k
  · simp [h]
  · simp [h, lookup_insert_of_ne h]

@[simp] theorem keys_erase (m : GoMap K V) (k : K) : (m.erase k).keys = m.keys.erase k :=
  Finmap.keys_erase k m

@[simp] theorem insert_insert (m : GoMap K V) (k : K) (v w : V) :
    (m.insert k v).insert k w = m.insert k w := Finmap.insert_insert m

theorem erase_insert (m : GoMap K V) (k : K) (v : V) : (m.insert k v).erase k = m.erase k := by
  apply ext
  intro k'
  rw [lookup_erase, lookup_erase]
  split
  · rfl
  · next hk => exact lookup_insert_of_ne hk

theorem insert_of_lookup {m : GoMap K V} {k : K} {v : V} (h : m.lookup k = some v) :
    m.insert k v = m := by
  apply ext
  intro k'
  by_cases hk : k' = k
  · rw [hk, lookup_insert_self, h]
  · exact lookup_insert_of_ne hk

/-- The map that a rule on the entries leaves: `none` drops the key. -/
def filterMap (f : K → V → Option W) (m : GoMap K V) : GoMap K W :=
  Finmap.keysLookupEquiv.symm
    ⟨(m.keys.filter fun k ↦ ((m.lookup k).bind (f k)).isSome, fun k ↦ (m.lookup k).bind (f k)), by
      intro k
      cases h : m.lookup k with
      | none => simp [h]
      | some v => simp [h]⟩

@[simp] theorem lookup_filterMap (f : K → V → Option W) (m : GoMap K V) (k : K) :
    (m.filterMap f).lookup k = (m.lookup k).bind (f k) :=
  Finmap.keysLookupEquiv_symm_apply_lookup _ k

/-- Keep the entries that satisfy `p`. -/
def filter (p : K → V → Prop) [∀ k v, Decidable (p k v)] (m : GoMap K V) : GoMap K V :=
  m.filterMap fun k v ↦ if p k v then some v else none

theorem lookup_filter (p : K → V → Prop) [∀ k v, Decidable (p k v)] (m : GoMap K V) (k : K) :
    (m.filter p).lookup k = (m.lookup k).bind fun v ↦ if p k v then some v else none :=
  lookup_filterMap _ m k

@[simp] theorem lookup_filter_eq_some {p : K → V → Prop} [∀ k v, Decidable (p k v)]
    {m : GoMap K V} {k : K} {v : V} :
    (m.filter p).lookup k = some v ↔ m.lookup k = some v ∧ p k v := by
  rw [lookup_filter]
  cases h : m.lookup k with
  | none => simp
  | some w =>
      simp only [Option.bind_some, Option.ite_none_right_eq_some, Option.some.injEq]
      constructor
      · rintro ⟨hp, rfl⟩
        exact ⟨rfl, hp⟩
      · rintro ⟨rfl, hp⟩
        exact ⟨hp, rfl⟩

theorem filter_of_forall {p : K → V → Prop} [∀ k v, Decidable (p k v)] {m : GoMap K V}
    (h : ∀ k v, m.lookup k = some v → p k v) : m.filter p = m := by
  apply ext
  intro k
  cases hk : m.lookup k with
  | none => simp [lookup_filter, hk]
  | some v => simp [hk, h k v hk]

/-- Rewrite every entry in place. -/
def mapVals (f : K → V → W) (m : GoMap K V) : GoMap K W :=
  m.filterMap fun k v ↦ some (f k v)

@[simp] theorem lookup_mapVals (f : K → V → W) (m : GoMap K V) (k : K) :
    (m.mapVals f).lookup k = (m.lookup k).map (f k) := by
  cases h : m.lookup k <;> simp [mapVals, h]

@[simp] theorem keys_mapVals (f : K → V → W) (m : GoMap K V) : (m.mapVals f).keys = m.keys := by
  ext k
  simp

/-- Write through the pointer stored under one key. -/
def modify (m : GoMap K V) (k : K) (f : V → V) : GoMap K V :=
  match m.lookup k with
  | none => m
  | some v => m.insert k (f v)

theorem modify_eq_mapVals (m : GoMap K V) (k : K) (f : V → V) :
    m.modify k f = m.mapVals fun k' v ↦ if k' = k then f v else v := by
  apply ext
  intro k'
  by_cases hk : k' = k
  · subst hk
    cases h : m.lookup k' <;> simp [modify, h]
  · cases h : m.lookup k <;> simp [modify, h, hk, lookup_insert_of_ne hk]

/-- Store a list of entries one after the other. -/
def insertAll (m : GoMap K V) (l : List (K × V)) : GoMap K V :=
  l.foldl (fun m p ↦ m.insert p.1 p.2) m

@[simp] theorem insertAll_cons (p : K × V) (l : List (K × V)) (m : GoMap K V) :
    m.insertAll (p :: l) = (m.insert p.1 p.2).insertAll l := rfl

theorem lookup_insertAll_of_notMem {l : List (K × V)} {m : GoMap K V} {k : K}
    (h : k ∉ l.map Prod.fst) : (m.insertAll l).lookup k = m.lookup k := by
  induction l generalizing m with
  | nil => rfl
  | cons p l ih =>
      rw [List.map_cons, List.mem_cons, not_or] at h
      rw [insertAll_cons, ih h.2, lookup_insert_of_ne h.1]

theorem lookup_insertAll_of_mem {l : List (K × V)} {m : GoMap K V} {k : K} {v : V}
    (hl : (l.map Prod.fst).Nodup) (h : (k, v) ∈ l) : (m.insertAll l).lookup k = some v := by
  induction l generalizing m with
  | nil => cases h
  | cons p l ih =>
      rw [List.map_cons, List.nodup_cons] at hl
      rw [insertAll_cons]
      rcases List.mem_cons.mp h with rfl | h
      · rw [lookup_insertAll_of_notMem hl.1, lookup_insert_self]
      · exact ih hl.2 h

/-- Entries with distinct keys: a lookup finds the stored one, else what was there before. -/
theorem lookup_insertAll_eq_some {l : List (K × V)} {m : GoMap K V} {k : K} {v : V}
    (hl : (l.map Prod.fst).Nodup) :
    (m.insertAll l).lookup k = some v ↔
      (k, v) ∈ l ∨ (k ∉ l.map Prod.fst ∧ m.lookup k = some v) := by
  by_cases hk : k ∈ l.map Prod.fst
  · obtain ⟨⟨k', w⟩, hp, rfl⟩ := List.mem_map.mp hk
    rw [lookup_insertAll_of_mem hl hp]
    constructor
    · intro h
      exact Or.inl (Option.some.inj h ▸ hp)
    · rintro (h | h)
      · have hpair := List.inj_on_of_nodup_map hl h hp rfl
        rw [(Prod.mk.inj hpair).2]
      · exact (h.1 hk).elim
  · rw [lookup_insertAll_of_notMem hk]
    constructor
    · exact fun h ↦ Or.inr ⟨hk, h⟩
    · rintro (h | h)
      · exact (hk (List.mem_map.mpr ⟨_, h, rfl⟩)).elim
      · exact h.2

/-- The last entry of a key counts. -/
theorem lookup_insertAll_empty {l : List (K × V)} {k : K} {v : V} :
    ((∅ : GoMap K V).insertAll l).lookup k = some v ↔
      ∃ before after, l = before ++ (k, v) :: after ∧ k ∉ after.map Prod.fst := by
  induction l using List.reverseRecOn with
  | nil => simp [insertAll]
  | append_singleton l p ih =>
      have hsnoc : (∅ : GoMap K V).insertAll (l ++ [p]) =
          ((∅ : GoMap K V).insertAll l).insert p.1 p.2 := by
        rw [insertAll, List.foldl_append]
        rfl
      rw [hsnoc, lookup_insert]
      split
      · next hk =>
          subst hk
          rw [Option.some.injEq]
          constructor
          · rintro rfl
            exact ⟨l, [], rfl, by simp⟩
          · rintro ⟨before, after, heq, hnot⟩
            rcases List.eq_nil_or_concat' after with rfl | ⟨after, q, rfl⟩
            · rw [← List.singleton_inj.mp (List.append_inj' heq rfl).2.symm]
            · rw [← List.cons_append, ← List.append_assoc] at heq
              obtain rfl := List.singleton_inj.mp (List.append_inj' heq rfl).2
              simp at hnot
      · next hk =>
          rw [ih]
          constructor
          · rintro ⟨before, after, rfl, hnot⟩
            exact ⟨before, after ++ [p], by simp, by simp [hk, hnot]⟩
          · rintro ⟨before, after, heq, hnot⟩
            rcases List.eq_nil_or_concat' after with rfl | ⟨after, q, rfl⟩
            · rw [List.singleton_inj.mp (List.append_inj' heq rfl).2] at hk
              exact absurd rfl hk
            · rw [← List.cons_append, ← List.append_assoc] at heq
              obtain ⟨rfl, -⟩ := List.append_inj' heq rfl
              exact ⟨before, after, rfl, fun h ↦ hnot (by simp [h])⟩

end GoMap

/-- The order in which one execution of `range` visits the keys of a map. -/
structure RangeOrder (K : Type) where
  visit : Finset K → List K
  coe_visit : ∀ s, (visit s : Multiset K) = s.val

namespace RangeOrder

variable {K : Type}

theorem nodup_visit (o : RangeOrder K) (s : Finset K) : (o.visit s).Nodup := by
  rw [← Multiset.coe_nodup, o.coe_visit]
  exact s.nodup

@[simp] theorem mem_visit (o : RangeOrder K) {s : Finset K} {k : K} : k ∈ o.visit s ↔ k ∈ s := by
  rw [← Multiset.mem_coe, o.coe_visit, Finset.mem_val]

@[simp] theorem length_visit (o : RangeOrder K) (s : Finset K) : (o.visit s).length = s.card := by
  rw [← Multiset.coe_card, o.coe_visit, Finset.card_val]

/-- Visit the key `k` first, wherever it is. -/
def startingAt [DecidableEq K] (o : RangeOrder K) (k : K) : RangeOrder K where
  visit s := if k ∈ s then k :: o.visit (s.erase k) else o.visit s
  coe_visit s := by
    split
    · next hk =>
        rw [← Multiset.cons_coe, o.coe_visit, Finset.erase_val, Multiset.cons_erase hk]
    · exact o.coe_visit s

theorem head_startingAt [DecidableEq K] (o : RangeOrder K) {k : K} {s : Finset K} (hk : k ∈ s) :
    ((o.startingAt k).visit s).head? = some k := by
  simp only [startingAt, if_pos hk, List.head?_cons]

end RangeOrder
