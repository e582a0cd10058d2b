import Mathlib.Algebra.BigOperators.Group.Finset.Basic
import Screego.Lib.GoMap

/-!
# Sums over the entries of a map

What one write to a map does to a sum over its entries.  The equations add on
both sides, so that no difference of natural numbers has to be taken.
-/

namespace GoMap

variable {K V : Type} [DecidableEq K]

/-- The sum of `f` over the entries. -/
def total (m : GoMap K V) (f : V → ℕ) : ℕ := m.keys.sum fun k ↦ ((m.lookup k).map f).getD 0

theorem total_erase {m : GoMap K V} {k : K} {v : V} (h : m.lookup k = some v) (f : V → ℕ) :
    (m.erase k).total f + f v = m.total f := by
  have hrest : (m.erase k).total f =
      (m.keys.erase k).sum fun k' ↦ ((m.lookup k').map f).getD 0 := by
    rw [total, keys_erase]
    refine Finset.sum_congr rfl fun k' hk' ↦ ?_
    rw [lookup_erase_of_ne (Finset.ne_of_mem_erase hk')]
  have hsplit := Finset.sum_erase_add m.keys (fun k' ↦ ((m.lookup k').map f).getD 0)
    (mem_keys_of_lookup h)
  rw [h] at hsplit
  rw [hrest]
  exact hsplit

theorem total_insert_of_none {m : GoMap K V} {k : K} (h : m.lookup k = none) (v : V)
    (f : V → ℕ) : (m.insert k v).total f = m.total f + f v := by
  have herase : (m.insert k v).erase k = m := by
    rw [erase_insert]
    apply ext
    intro k'
    rw [lookup_erase]
    split
    · next hk => rw [hk, h]
    · rfl
  have htotal := total_erase (lookup_insert_self m k v) f
  rw [herase] at htotal
  exact htotal.symm

theorem total_insert {m : GoMap K V} {k : K} {v : V} (h : m.lookup k = some v) (v' : V)
    (f : V → ℕ) : (m.insert k v').total f + f v = m.total f + f v' := by
  have hnew := total_erase (lookup_insert_self m k v') f
  rw [erase_insert] at hnew
  have hold := total_erase h f
  omega

end GoMap
