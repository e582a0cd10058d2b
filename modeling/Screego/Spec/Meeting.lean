import Screego.Lib.Machine
import Mathlib.Data.Finset.SymmDiff

/-!
# Meetings

What the rooms are for, without connections, messages and session ids.  A
meeting has members, one of whom owns it, and at most one of them shares, which
needs permission.  Nobody is in two meetings, and each thing that happens is the
deed of somebody who may do it.
-/

namespace Screego

variable {κ ρ : Type} [DecidableEq κ] [DecidableEq ρ]

structure Meeting (κ : Type) where
  members : Finset κ
  owner : κ
  /-- Those who may not share. -/
  forbidden : Finset κ
  sharer : Option κ
  owner_mem : owner ∈ members
  forbidden_subset : forbidden ⊆ members
  sharer_mem : ∀ k, sharer = some k → k ∈ members ∧ k ∉ forbidden

namespace Meeting

/-- Every other member watches the one who shares. -/
def Streams (m : Meeting κ) (host client : κ) : Prop :=
  m.sharer = some host ∧ client ∈ m.members ∧ client ≠ host

def found (k : κ) : Meeting κ where
  members := {k}
  owner := k
  forbidden := ∅
  sharer := none
  owner_mem := Finset.mem_singleton_self k
  forbidden_subset := Finset.empty_subset _
  sharer_mem := nofun

variable (m : Meeting κ)

def enter (k : κ) : Meeting κ where
  members := insert k m.members
  owner := m.owner
  forbidden := m.forbidden
  sharer := m.sharer
  owner_mem := Finset.mem_insert_of_mem m.owner_mem
  forbidden_subset := m.forbidden_subset.trans (Finset.subset_insert k m.members)
  sharer_mem := fun j hj ↦ ⟨Finset.mem_insert_of_mem (m.sharer_mem j hj).1, (m.sharer_mem j hj).2⟩

/-- `k` goes, and the meeting belongs to `next`. -/
def leave (k next : κ) (hnext : next ∈ m.members.erase k) : Meeting κ where
  members := m.members.erase k
  owner := next
  forbidden := m.forbidden.erase k
  sharer := m.sharer.filter (· ≠ k)
  owner_mem := hnext
  forbidden_subset := Finset.erase_subset_erase k m.forbidden_subset
  sharer_mem := by
    intro j hj
    obtain ⟨hsharer, hne⟩ := Option.filter_eq_some_iff.mp hj
    obtain ⟨hmem, hallowed⟩ := m.sharer_mem j hsharer
    exact ⟨Finset.mem_erase.mpr ⟨of_decide_eq_true hne, hmem⟩,
      fun h ↦ hallowed (Finset.mem_of_mem_erase h)⟩

def share (k : κ) (hmem : k ∈ m.members) (hallowed : k ∉ m.forbidden) : Meeting κ :=
  { m with
    sharer := some k
    sharer_mem := fun _ hj ↦ Option.some.inj hj ▸ ⟨hmem, hallowed⟩ }

/-- `k` shares no more, if it did. -/
def rest (k : κ) : Meeting κ :=
  { m with
    sharer := m.sharer.filter (· ≠ k)
    sharer_mem := fun j hj ↦ m.sharer_mem j (Option.filter_eq_some_iff.mp hj).1 }

/-- Exactly the members `ks` may not share, and whoever of them shares does so no more. -/
def restrict (ks : Finset κ) (hks : ks ⊆ m.members) : Meeting κ :=
  { m with
    forbidden := ks
    sharer := m.sharer.filter (· ∉ ks)
    forbidden_subset := hks
    sharer_mem := by
      intro j hj
      obtain ⟨hsharer, hnot⟩ := Option.filter_eq_some_iff.mp hj
      exact ⟨(m.sharer_mem j hsharer).1, of_decide_eq_true hnot⟩ }

/-- Everybody but `k` may share from now on. -/
def permitAll (k : κ) : Meeting κ :=
  m.restrict (m.forbidden ∩ {k}) (Finset.inter_subset_left.trans m.forbidden_subset)

/-- Nobody but `k` may share from now on. -/
def forbidAll (k : κ) : Meeting κ :=
  m.restrict (m.members.erase k ∪ m.forbidden)
    (Finset.union_subset (Finset.erase_subset k m.members) m.forbidden_subset)

/-- `target` may share from now on if it might not, and the other way round. -/
def toggle (target : κ) (htarget : target ∈ m.members) : Meeting κ :=
  m.restrict (symmDiff m.forbidden {target}) (symmDiff_le_sup.trans
    (Finset.union_subset m.forbidden_subset (Finset.singleton_subset_iff.mpr htarget)))

end Meeting

/-! ## All meetings -/

/-- The meeting under each name. -/
abbrev Meetings (κ ρ : Type) := ρ → Option (Meeting κ)

/-- What somebody does in the meeting under a name. -/
inductive Deed (κ ρ : Type) where
  | found (k : κ) (r : ρ)
  | enter (k : κ) (r : ρ)
  | leave (k : κ) (r : ρ)
  | share (k : κ) (r : ρ)
  | rest (k : κ) (r : ρ) (target : κ)
  | permitAll (k : κ) (r : ρ)
  | forbidAll (k : κ) (r : ρ)
  | toggle (k : κ) (r : ρ) (target : κ)
  | expel (k : κ) (r : ρ) (target : κ)
  | dissolve (k : κ) (r : ρ)

def Deed.actor : Deed κ ρ → κ
  | found k _ => k
  | enter k _ => k
  | leave k _ => k
  | share k _ => k
  | rest k _ _ => k
  | permitAll k _ => k
  | forbidAll k _ => k
  | toggle k _ _ => k
  | expel k _ _ => k
  | dissolve k _ => k

namespace Meetings

/-- `k` is in no meeting. -/
def Free (p : Meetings κ ρ) (k : κ) : Prop := ∀ r m, p r = some m → k ∉ m.members

inductive Step (p : Meetings κ ρ) : Deed κ ρ → Meetings κ ρ → Prop
  | found {k : κ} {r : ρ} (hnew : p r = none) (hfree : p.Free k) :
      Step p (.found k r) (Function.update p r (some (.found k)))
  | enter {k : κ} {r : ρ} {m : Meeting κ} (hm : p r = some m) (hfree : p.Free k) :
      Step p (.enter k r) (Function.update p r (some (m.enter k)))
  /-- Any other member can be the next owner. -/
  | leave {k next : κ} {r : ρ} {m : Meeting κ} (hm : p r = some m) (hk : k ∈ m.members)
      (hnext : next ∈ m.members.erase k) (howner : k ≠ m.owner → next = m.owner) :
      Step p (.leave k r) (Function.update p r (some (m.leave k next hnext)))
  | last {k : κ} {r : ρ} {m : Meeting κ} (hm : p r = some m) (hk : m.members = {k}) :
      Step p (.leave k r) (Function.update p r none)
  | share {k : κ} {r : ρ} {m : Meeting κ} (hm : p r = some m) (hmem : k ∈ m.members)
      (hallowed : k ∉ m.forbidden) (hfree : ∀ j, m.sharer = some j → j = k) :
      Step p (.share k r) (Function.update p r (some (m.share k hmem hallowed)))
  | rest {k target : κ} {r : ρ} {m : Meeting κ} (hm : p r = some m) (hk : k ∈ m.members)
      (hmay : k = target ∨ k = m.owner) (htarget : target ∈ m.members) :
      Step p (.rest k r target) (Function.update p r (some (m.rest target)))
  | permitAll {k : κ} {r : ρ} {m : Meeting κ} (hm : p r = some m) (hk : k = m.owner) :
      Step p (.permitAll k r) (Function.update p r (some (m.permitAll k)))
  | forbidAll {k : κ} {r : ρ} {m : Meeting κ} (hm : p r = some m) (hk : k = m.owner) :
      Step p (.forbidAll k r) (Function.update p r (some (m.forbidAll k)))
  | toggle {k target : κ} {r : ρ} {m : Meeting κ} (hm : p r = some m) (hk : k = m.owner)
      (hne : target ≠ k) (htarget : target ∈ m.members) :
      Step p (.toggle k r target) (Function.update p r (some (m.toggle target htarget)))
  | expel {k target : κ} {r : ρ} {m : Meeting κ} (hm : p r = some m) (hk : k = m.owner)
      (htarget : target ∈ m.members) (hstays : k ∈ m.members.erase target) :
      Step p (.expel k r target) (Function.update p r (some (m.leave target k hstays)))
  | dissolve {k : κ} {r : ρ} {m : Meeting κ} (hm : p r = some m) (hk : k = m.owner) :
      Step p (.dissolve k r) (Function.update p r none)

/-- Before the first deed there is no meeting. -/
def machine (κ ρ : Type) [DecidableEq κ] [DecidableEq ρ] : Machine (Meetings κ ρ) (Deed κ ρ) where
  init := fun _ ↦ none
  step := Step

end Meetings

end Screego
