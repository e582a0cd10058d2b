import Screego.Spec.Once

/-!
# A connection is closed once

However many times `CloseOnError` and `CloseOnDone` are called on a client, one
function runs.  It posts at most one `Disconnected` and writes at most one close
frame.  A call may return before that function has started.
-/

namespace Screego

open Once

variable {ι : Type} {call : ι → CloseCall}

namespace CloseStatement

def IsPost : CloseStatement → Bool
  | .post _ => true
  | _ => false

def IsWrite : CloseStatement → Bool
  | .writeControl _ _ => true
  | _ => false

end CloseStatement

/-- How many messages the client has posted or is going to post. -/
def Connection.posts (c : Connection) : ℕ := c.posting.length + c.posted.length

theorem CloseStatement.exec_posts (x : CloseStatement) (err : Option String) (c : Connection) :
    (x.exec err c).posts = c.posts + if x.IsPost then 1 else 0 := by
  cases x with
  | post disconnected =>
      simp only [exec, Connection.posts, List.length_cons, IsPost, if_true]
      omega
  | writeControl code reason =>
      simp only [exec]
      split <;> rfl
  | close => rfl

theorem CloseStatement.exec_frames (x : CloseStatement) (err : Option String) (c : Connection) :
    (x.exec err c).frames.length ≤ c.frames.length + if x.IsWrite then 1 else 0 := by
  cases x with
  | writeControl code reason =>
      simp only [exec]
      split <;> simp [IsWrite]
  | _ => exact le_rfl

theorem Elsewhere.next_posts {a : Elsewhere} {c c' : Connection} (h : a.next c = some c') :
    c'.posts = c.posts ∧ c'.frames = c.frames := by
  cases a with
  | take disconnected =>
      simp only [Elsewhere.next] at h
      split at h
      · next hmem =>
          obtain rfl := Option.some.inj h
          have hpos := List.length_pos_of_mem hmem
          simp only [Connection.posts, List.length_erase_of_mem hmem, List.length_append,
            List.length_singleton, and_true]
          omega
      · cases h
  | close =>
      obtain rfl := Option.some.inj h
      exact ⟨rfl, rfl⟩

theorem CloseCall.countP_f (c : CloseCall) :
    c.f.countP CloseStatement.IsPost ≤ 1 ∧ c.f.countP CloseStatement.IsWrite ≤ 1 := by
  cases c <;> simp [CloseCall.f, writeCloseMessage, List.countP_cons, CloseStatement.IsPost,
    CloseStatement.IsWrite]

/-- What was posted and written, with what the running function still has to do, stays within
one message and one frame. -/
def ClosesOnce (p : Single ι CloseStatement Connection) : Prop :=
  match p.running with
  | none => p.world.posts = 0 ∧ p.world.frames = []
  | some (_, rest) =>
      p.world.posts + rest.countP CloseStatement.IsPost ≤ 1 ∧
        p.world.frames.length + rest.countP CloseStatement.IsWrite ≤ 1

theorem ClosesOnce.bounds {p : Single ι CloseStatement Connection} (h : ClosesOnce p) :
    p.world.posts ≤ 1 ∧ p.world.frames.length ≤ 1 := by
  unfold ClosesOnce at h
  split at h
  · simp [h.1, h.2]
  · omega

theorem ClosesOnce.step {p q : Single ι CloseStatement Connection} (h : ClosesOnce p)
    (hstep : p.Step (closeCalls call) q) : ClosesOnce q := by
  cases hstep with
  | start i hnone =>
      have hf := (call i).countP_f
      simp only [ClosesOnce, hnone] at h
      simpa [ClosesOnce, closeCalls, h.1, h.2] using hf
  | @exec i x rest err hrunning =>
      have hposts := x.exec_posts err p.world
      have hframes := x.exec_frames err p.world
      simp only [ClosesOnce, hrunning, List.countP_cons] at h
      simp only [ClosesOnce, closeCalls]
      omega
  | other hother =>
      obtain ⟨hposts, hframes⟩ := Elsewhere.next_posts hother
      simp only [ClosesOnce, hposts, hframes]
      exact h

theorem closesOnce_of_single {p : Single ι CloseStatement Connection}
    (h : (closeCalls call).single.Reachable p) : ClosesOnce p :=
  h.invariant ⟨rfl, rfl⟩ fun _ hp hstep ↦ hp.step hstep

/-! ## Callers that return -/

/-- Among any number of calls of `Do`, whatever their functions, at most one function is started.
As soon as any call has returned, exactly one has set `done`; its function is the one that is
started or will be, and only two steps of that call are left before.  So a client posts at most
one `Disconnected` and writes at most one close frame. -/
theorem do_starts_one :
    (∀ {ι σ A W : Type} [DecidableEq ι] (o : Callers ι σ A W) (s : State ι σ W),
      o.machine.Reachable s →
        Exclusive Caller.Started s.caller ∧ (∀ i, (s.caller i).Started → (s.caller i).Chosen) ∧
        ((∃ i, (s.caller i).Returned) →
          ∃ k, (∀ i, (s.caller i).Chosen ↔ i = k) ∧ o.Starts s k)) ∧
    ∀ {ι : Type} [DecidableEq ι] (call : ι → CloseCall)
      (s : State ι CloseStatement Connection), (closeCalls call).machine.Reachable s →
        s.world.posts ≤ 1 ∧ s.world.frames.length ≤ 1 := by
  constructor
  · intro ι σ A W _ o s hs
    have hordered := ordered_of_reachable hs
    obtain ⟨p, -, hp⟩ := refines_of_reachable hs
    refine ⟨hp.started, fun i hi ↦ ?_, ?_⟩
    · obtain ⟨rest, hrest⟩ := Option.isSome_iff_exists.mp hi
      exact Caller.chosen_of_rest hrest
    · rintro ⟨i, hi⟩
      obtain ⟨k, hk⟩ := hordered.chosen_of_returned hi
      exact ⟨k, hk, hordered.starts ((hk k).mpr rfl)⟩
  · intro ι _ call s hs
    obtain ⟨p, hp, href⟩ := refines_of_reachable hs
    rw [href.world]
    exact (closesOnce_of_single hp).bounds

/-- The reader and the writer of one client close it. -/
def bothClose : Bool → CloseCall
  | true => .closeOnError closeNormalClosure "Reader Routine Closed"
  | false => .closeOnDone closeNormalClosure "Room Dissolved"

/-- The reader's call sets `done`, and before it goes on the writer's call sees that. -/
def overtaking : List (Act Bool Elsewhere) :=
  List.replicate 4 (.caller true none) ++ [.caller false none]

/-- The calls after a script. -/
def closeAfter (script : List (Act Bool Elsewhere)) : State Bool CloseStatement Connection :=
  (Machine.history (closeCalls bothClose).machine.init (closeCalls bothClose).next script).2

theorem reachable_closeAfter (script : List (Act Bool Elsewhere)) :
    (closeCalls bothClose).machine.Reachable (closeAfter script) :=
  ⟨_, Machine.run_history _ _ script⟩

/-- The reader's call goes on to its end, and the main loop takes what it posted. -/
def overtaken : List (Act Bool Elsewhere) :=
  overtaking ++ List.replicate 6 (.caller true none) ++
    [.other (.take ⟨closeNormalClosure, "Reader Routine Closed"⟩)]

theorem do_starts_one_overtaken :
    (∃ k, (∀ i, ((closeAfter overtaken).caller i).Chosen ↔ i = k) ∧
      (closeCalls bothClose).Starts (closeAfter overtaken) k) ∧
    (closeAfter overtaken).world.posts ≤ 1 ∧ (closeAfter overtaken).world.frames.length ≤ 1 :=
  ⟨(do_starts_one.1 (closeCalls bothClose) _ (reachable_closeAfter overtaken)).2.2
      ⟨false, trivial⟩,
    do_starts_one.2 bothClose _ (reachable_closeAfter overtaken)⟩

/-- A call has returned, and no function is started yet. -/
theorem returned_before_started :
    ¬ ∀ s, (closeCalls bothClose).machine.Reachable s →
      (∃ i, (s.caller i).Returned) → ∃! i, (s.caller i).Started := by
  intro h
  obtain ⟨i, hi, -⟩ := h _ (reachable_closeAfter overtaking) ⟨false, trivial⟩
  cases i <;> cases hi

end Screego
