import Screego.Properties.Isolation

/-!
# What a write channel carries

The messages to one client follow a small automaton: nothing until it is in a
room, then the room first, and after `CloseWriter` nothing at all.  The phase of
the automaton can be read off the connected map.
-/

namespace Screego

open Outgoing World Rooms

variable {XID : Type} [DecidableEq XID] {env : Env XID} {server : Turn.Server}

/-! ## The automaton -/

inductive Phase where
  | silent
  | inside
  | gone
  deriving DecidableEq

namespace Phase

def next (p : Phase) (m : Message XID) : Option Phase :=
  match p, m.kind with
  | silent, .view => some inside
  | silent, .bye => some gone
  | inside, .bye => some gone
  | inside, _ => some inside
  | _, _ => none

def after (p : Phase) (ms : List (Message XID)) : Option Phase := ms.foldlM next p

variable {p q : Phase} {m : Message XID} {ms ms' : List (Message XID)}

omit [DecidableEq XID] in
@[simp] theorem after_nil : p.after ([] : List (Message XID)) = some p := rfl

omit [DecidableEq XID] in
@[simp] theorem after_cons : p.after (m :: ms) = (p.next m).bind fun q ↦ q.after ms := by
  rw [after, List.foldlM_cons]
  rfl

omit [DecidableEq XID] in
theorem after_append : p.after (ms ++ ms') = (p.after ms).bind fun q ↦ q.after ms' := by
  rw [after, List.foldlM_append]
  rfl

omit [DecidableEq XID] in
theorem next_bye (hm : m.kind = .bye) (h : p.next m = some q) : q = gone := by
  cases p <;> simp [next, hm] at h <;> exact h.symm

omit [DecidableEq XID] in
theorem next_inside (hm : m.kind ≠ .bye) : inside.next m = some inside := by
  cases hκ : m.kind <;> simp_all [next]

omit [DecidableEq XID] in
theorem after_gone (h : gone.after ms = some p) : ms = [] := by
  cases ms with
  | nil => rfl
  | cons m ms => simp [next] at h

omit [DecidableEq XID] in
theorem after_inside (h : ∀ m ∈ ms, m.kind ≠ .bye) : inside.after ms = some inside := by
  induction ms with
  | nil => rfl
  | cons m ms ih =>
      rw [after_cons, next_inside (h m List.mem_cons_self), Option.bind_some]
      exact ih fun m hm ↦ h m (List.mem_cons_of_mem _ hm)

end Phase

/-- The messages are none, or they begin with a room or the end; the end comes once at most and
nothing comes after it. -/
structure Grammar (ms : List (Message XID)) : Prop where
  begins : ∀ m, ms.head? = some m → m.kind = .view ∨ m.kind = .bye
  once : (ms.map Message.kind).count .bye ≤ 1
  last : ∀ pre m post, ms = pre ++ m :: post → m.kind = .bye → post = []

omit [DecidableEq XID] in
theorem Phase.count_bye {p q : Phase} {ms : List (Message XID)} (h : p.after ms = some q) :
    (ms.map Message.kind).count .bye ≤ 1 := by
  induction ms generalizing p with
  | nil => simp
  | cons m ms ih =>
      rw [after_cons] at h
      obtain ⟨p', hp', hrest⟩ := Option.bind_eq_some_iff.mp h
      by_cases hm : m.kind = .bye
      · obtain rfl := next_bye hm hp'
        rw [after_gone hrest]
        simp [hm]
      · rw [List.map_cons, List.count_cons_of_ne hm]
        exact ih hrest

omit [DecidableEq XID] in
theorem Phase.grammar {p : Phase} {ms : List (Message XID)} (h : silent.after ms = some p) :
    Grammar ms where
  begins := by
    intro m hm
    cases ms with
    | nil => cases hm
    | cons m' ms =>
        obtain rfl := Option.some.inj hm
        rw [after_cons] at h
        obtain ⟨q, hq, -⟩ := Option.bind_eq_some_iff.mp h
        cases hκ : m'.kind <;> simp_all [next]
  once := count_bye h
  last := by
    rintro pre m post rfl hm
    rw [after_append] at h
    obtain ⟨q, -, hq⟩ := Option.bind_eq_some_iff.mp h
    rw [after_cons] at hq
    obtain ⟨q', hq', hpost⟩ := Option.bind_eq_some_iff.mp hq
    rw [next_bye hm hq'] at hpost
    exact after_gone hpost

/-! ## The messages to one client -/

/-- What was handed over for `k`. -/
def inbox (k : XID) (out : List (XID × Message XID)) : List (Message XID) :=
  (out.filter fun p ↦ p.1 = k).map Prod.snd

section Inbox

variable {k : XID} {msgs msgs' : List (XID × Message XID)}

theorem mem_inbox {m : Message XID} : m ∈ inbox k msgs ↔ (k, m) ∈ msgs := by
  simp [inbox]

@[simp] theorem inbox_append : inbox k (msgs ++ msgs') = inbox k msgs ++ inbox k msgs' := by
  simp [inbox]

@[simp] theorem inbox_cons_self {m : Message XID} :
    inbox k ((k, m) :: msgs) = m :: inbox k msgs := by
  simp [inbox]

theorem inbox_cons_of_ne {k' : XID} (h : k' ≠ k) {m : Message XID} :
    inbox k ((k', m) :: msgs) = inbox k msgs := by
  simp [inbox, h]

theorem inbox_eq_nil (h : ∀ m, (k, m) ∉ msgs) : inbox k msgs = [] := by
  rw [List.eq_nil_iff_forall_not_mem]
  exact fun m hm ↦ h m (mem_inbox.mp hm)

theorem inbox_map {ks : List XID} (hnodup : ks.Nodup) (hk : k ∈ ks) (f : XID → Message XID) :
    inbox k (ks.map fun k ↦ (k, f k)) = [f k] := by
  obtain ⟨before, after, rfl⟩ := List.append_of_mem hk
  rw [List.nodup_append, List.nodup_cons] at hnodup
  obtain ⟨-, ⟨hafter, -⟩, hbefore⟩ := hnodup
  have hother : ∀ ks' : List XID, k ∉ ks' → inbox k (ks'.map fun k ↦ (k, f k)) = [] := by
    intro ks' hnot
    refine inbox_eq_nil fun m hm ↦ hnot ?_
    obtain ⟨k', hk', heq⟩ := List.mem_map.mp hm
    exact (Prod.mk.inj heq).1 ▸ hk'
  rw [List.map_append, List.map_cons, inbox_append, inbox_cons_self, hother after hafter,
    hother before fun hmem ↦ hbefore k hmem k List.mem_cons_self rfl, List.nil_append]

theorem Room.Announces.inbox_of_mem {room : Room XID} (h : room.Announces msgs)
    (hk : k ∈ room.users.keys) : ∃ view, inbox k msgs = [.room room.id "" view] := by
  obtain ⟨ks, view, hnodup, hks, -, rfl⟩ := h
  exact ⟨view k, inbox_map hnodup ((hks k).mpr hk) fun k ↦ .room room.id "" (view k)⟩

theorem Room.Announces.inbox_of_notMem {room : Room XID} (h : room.Announces msgs)
    (hk : k ∉ room.users.keys) : inbox k msgs = [] :=
  inbox_eq_nil fun _ hm ↦ hk (h.eq_room hm).1

end Inbox

/-! ## One effect -/

/-- Where a client is in its stream of messages. -/
def phaseOf (connected : GoMap XID String) (k : XID) : Phase :=
  match connected.lookup k with
  | none => .gone
  | some r => if r = "" then .silent else .inside

section Step

variable {s s' : Rooms XID} {c : ClientInfo XID} {e : Event XID} {k : XID}
  {connected connected' : GoMap XID String} {msgs msgs' : List (XID × Message XID)}

theorem phaseOf_inside {r : String} (h : connected.lookup k = some r) (hr : r ≠ "") :
    phaseOf connected k = .inside := by
  simp only [phaseOf, h, if_neg hr]

theorem phaseOf_silent (h : connected.lookup k = some "") : phaseOf connected k = .silent := by
  simp only [phaseOf, h, if_true]

theorem phaseOf_gone (h : connected.lookup k = none) : phaseOf connected k = .gone := by
  simp only [phaseOf, h]

theorem phaseOf_member {r : String} {room : Room XID} (hwf : s.WF env) (hr : r ≠ "")
    (hroom : s.rooms.lookup r = some room) (hk : k ∈ room.users.keys) :
    phaseOf s.connected k = .inside :=
  phaseOf_inside (hwf.in_of_mem hr hroom hk).connected hr

/-- A client that is told nothing and stays where it is. -/
theorem follows_quiet (hconn : connected'.lookup k = connected.lookup k)
    (hmsgs : inbox k msgs = []) :
    (phaseOf connected k).after (inbox k msgs) = some (phaseOf connected' k) := by
  rw [hmsgs, Phase.after_nil, phaseOf, phaseOf, hconn]

theorem follows_inside (hphase : phaseOf connected k = .inside)
    (hconn : connected'.lookup k = connected.lookup k)
    (hmsgs : ∀ m, (k, m) ∈ msgs → m.kind ≠ .bye) :
    (phaseOf connected k).after (inbox k msgs) = some (phaseOf connected' k) := by
  have hphase' : phaseOf connected' k = .inside := by
    rw [← hphase, phaseOf, phaseOf, hconn]
  rw [hphase, hphase', Phase.after_inside fun m hm ↦ hmsgs m (mem_inbox.mp hm)]

omit [DecidableEq XID] in
theorem OfKind.not_bye {κ : Kind} (h : OfKind κ msgs) (hκ : κ ≠ .bye) {m : Message XID}
    (hm : (k, m) ∈ msgs) : m.kind ≠ .bye :=
  h k m hm ▸ hκ

omit [DecidableEq XID] in
theorem not_bye_append {p : Message XID → Prop} (h : ∀ m, (k, m) ∈ msgs → p m)
    (h' : ∀ m, (k, m) ∈ msgs' → p m) : ∀ m, (k, m) ∈ msgs ++ msgs' → p m :=
  fun m hm ↦ (List.mem_append.mp hm).elim (h m) (h' m)

/-- The messages of a step reach `k` only as a member of the room, and none of them is the end. -/
theorem follows_room {r : String} {room : Room XID} (hwf : s.WF env)
    (hr : k ∈ room.users.keys → r ≠ "") (hroom : s.rooms.lookup r = some room)
    (hconn : connected'.lookup k = s.connected.lookup k)
    (hto : ∀ m, (k, m) ∈ msgs → k ∈ room.users.keys)
    (hmsgs : ∀ m, (k, m) ∈ msgs → m.kind ≠ .bye) :
    (phaseOf s.connected k).after (inbox k msgs) = some (phaseOf connected' k) := by
  by_cases hk : k ∈ room.users.keys
  · exact follows_inside (phaseOf_member hwf (hr hk) hroom hk) hconn hmsgs
  · exact follows_quiet hconn (inbox_eq_nil fun m hm ↦ hk (hto m hm))

/-- Whoever leaves is not told about the end of its own sessions. -/
theorem Room.Ended.inbox_self {p : RoomSession XID → Prop} [DecidablePred p] {r : String}
    {room : Room XID} (h : room.Ended p (tellPeer k) msgs) (hsound : room.Sound r) :
    inbox k msgs = [] := by
  refine inbox_eq_nil fun m hm ↦ ?_
  obtain ⟨id, l, hl, -, hm⟩ := h.mem hm
  have hne := (hsound.viewed id l hl).2
  have hpeer := (Prod.mk.inj (List.mem_singleton.mp hm)).1
  split at hpeer
  · next hclient => exact hne (hclient.trans hpeer)
  · next hclient => exact hclient hpeer.symm

theorem Left.follows {r : String} {room : Room XID} (h : Left env c.id s r room s')
    (hwf : s.WF env) (hin : s.In c.id r room) (k : XID) :
    (phaseOf s.connected k).after (inbox k (s.world.since s'.world)) =
      some (phaseOf s'.connected k) := by
  have hsound := hwf.sound r room hin.lookup
  cases h with
  | @stay room' code reason ended told w hleft hended htold hworld =>
      rw [hworld.since]
      by_cases hk : k = c.id
      · subst hk
        have hself : c.id ∉ room'.users.keys := by
          rw [hleft.keys]
          exact Finset.notMem_erase _ _
        rw [phaseOf_inside hin.connected hin.ne_empty, phaseOf_gone (GoMap.lookup_erase_self _ _),
          inbox_cons_self, inbox_append, hended.inbox_self hsound, htold.inbox_of_notMem hself]
        rfl
      · rw [inbox_cons_of_ne (Ne.symm hk)]
        refine follows_room hwf (fun _ ↦ hin.ne_empty) hin.lookup (GoMap.lookup_erase_of_ne hk)
          (not_bye_append ?_ ?_) (not_bye_append ?_ ?_)
        · exact fun m ↦ hended.addressed (fun _ _ _ _ h ↦ h) hsound (fun _ hk ↦ hk) k m
        · intro m hm
          have hmem := (htold.eq_room hm).1
          rw [hleft.keys] at hmem
          exact Finset.mem_of_mem_erase hmem
        · exact fun m ↦ (hended.ofKind fun _ _ _ _ h ↦ h).not_bye (by decide)
        · exact fun m ↦ htold.ofKind.not_bye (by decide)
  | last _ hworld =>
      rw [hworld.since]
      by_cases hk : k = c.id
      · subst hk
        rw [phaseOf_inside hin.connected hin.ne_empty, phaseOf_gone (GoMap.lookup_erase_self _ _),
          inbox_cons_self]
        rfl
      · rw [inbox_cons_of_ne (Ne.symm hk)]
        exact follows_quiet (GoMap.lookup_erase_of_ne hk) rfl

/-- A client that enters a room is shown the room first. -/
theorem follows_entered {r : String} {room : Room XID} (hout : s.connected.lookup k = some "")
    (hr : r ≠ "") (htold : room.Announces msgs) (hk : k ∈ room.users.keys)
    (hrest : ∀ m, (k, m) ∈ msgs' → m.kind ≠ .bye) :
    (phaseOf s.connected k).after (inbox k (msgs ++ msgs')) =
      some (phaseOf (s.connected.insert k r) k) := by
  obtain ⟨view, hview⟩ := htold.inbox_of_mem hk
  rw [phaseOf_silent hout, phaseOf_inside (GoMap.lookup_insert_self _ _ _) hr, inbox_append, hview,
    List.singleton_append, Phase.after_cons]
  exact Phase.after_inside fun m hm ↦ hrest m (mem_inbox.mp hm)

theorem Effect.follows (h : Effect env c s e s') (hwf : s.WF env)
    (hnowhere : ¬ Member s.rooms k "") (hnamed : c.id = k → e.named ≠ some "")
    (hnew : e = .connected → c.id ≠ k) :
    (phaseOf s.connected k).after (inbox k (s.world.since s'.world)) =
      some (phaseOf s'.connected k) := by
  have hroomed {r : String} {room : Room XID} (hroom : s.rooms.lookup r = some room)
      (hk : k ∈ room.users.keys) : r ≠ "" := by
    rintro rfl
    exact hnowhere ⟨room, hroom, hk⟩
  have henter {r : String} (hk : k ≠ c.id) :
      (s.connected.insert c.id r).lookup k = s.connected.lookup k := GoMap.lookup_insert_of_ne hk
  have hleave (hk : k ≠ c.id) :
      (s.connected.erase c.id).lookup k = s.connected.lookup k := GoMap.lookup_erase_of_ne hk
  cases h with
  | idle hworld =>
      rw [hworld.since]
      exact follows_quiet rfl rfl
  | connect =>
      rw [since_self]
      exact follows_quiet (GoMap.lookup_insert_of_ne (hnew rfl).symm) rfl
  | @relay _ rel r room l _ hrelay hin hl _ hworld =>
      rw [hworld.since]
      obtain ⟨hhost, hclient⟩ := (hwf.sound _ _ hin.lookup).ends_mem hl
      refine follows_room hwf (fun _ ↦ hin.ne_empty) hin.lookup rfl ?_ ?_
      · intro m hm
        rw [(Prod.mk.inj (List.mem_singleton.mp hm)).1]
        rcases relayed_recipient hrelay l with heq | heq <;> rw [heq] <;> assumption
      · intro m hm
        rw [(Prod.mk.inj (List.mem_singleton.mp hm)).2, Event.relayed_msg hrelay]
        decide
  | @create ce name createdAt told _ hout _ _ htold hworld =>
      rw [hworld.since]
      by_cases hk : k = c.id
      · subst hk
        have hself : c.id ∈ (ce.room c name createdAt).users.keys :=
          GoMap.mem_keys_of_lookup (GoMap.lookup_insert_self _ _ _)
        have hid : ce.id ≠ "" := fun heq ↦ hnamed rfl (congrArg some heq)
        rw [← List.append_nil told]
        exact follows_entered hout hid htold hself (by simp)
      · refine follows_quiet (henter hk) (htold.inbox_of_notMem ?_)
        rw [Create.room, GoMap.keys_insert, Finset.mem_insert, not_or]
        exact ⟨hk, Finset.notMem_empty k⟩
  | @join _ r name room os told _ hname hout hroom _ hos htold hworld =>
      rw [hworld.since]
      by_cases hk : k = c.id
      · subst hk
        have hr : r ≠ "" := by
          rintro rfl
          exact hnamed rfl hname
        refine follows_entered hout hr htold ((Room.enter_keys room c name _).mpr (Or.inl rfl)) ?_
        exact fun m ↦ (OpenedSession.ofKind_messages os).not_bye (by decide)
      · refine follows_room hwf (hroomed hroom) hroom (henter hk) (not_bye_append ?_ ?_)
          (not_bye_append ?_ ?_)
        · intro m hm
          exact ((Room.enter_keys room c name k).mp (htold.eq_room hm).1).resolve_left hk
        · intro m hm
          have hends : Addressed (fun k ↦ k = c.id ∨ k ∈ room.users.keys)
              (os.flatMap OpenedSession.messages) := by
            refine OpenedSession.addressed fun o ho ↦ ?_
            obtain ⟨hclient, -, u, hu, -⟩ := (hos.mem_iff _).mp (List.mem_map.mpr ⟨o, ho, rfl⟩)
            exact ⟨Or.inr (GoMap.mem_keys_of_lookup hu), Or.inl hclient⟩
          exact (hends k m hm).resolve_left hk
        · exact fun m ↦ htold.ofKind.not_bye (by decide)
        · exact fun m ↦ (OpenedSession.ofKind_messages os).not_bye (by decide)
  | @joinFailed _ r name reason code room told told' _ hname hout hroom hr _ htold htold' hworld =>
      rw [hworld.since]
      by_cases hk : k = c.id
      · subst hk
        have hself : c.id ∉ room.users.keys := hwf.fresh hout hroom hr
        obtain ⟨view, hview⟩ := htold.inbox_of_mem
          ((Room.enter_keys room c name c.id).mpr (Or.inl rfl))
        rw [phaseOf_silent hout, phaseOf_gone (GoMap.lookup_erase_self _ _), inbox_append, hview,
          inbox_cons_self, htold'.inbox_of_notMem hself]
        rfl
      · have hbye : inbox k (told ++ (c.id, .closeWriter code reason) :: told') =
            inbox k (told ++ told') := by
          rw [inbox_append, inbox_cons_of_ne (Ne.symm hk), inbox_append]
        rw [hbye]
        refine follows_room hwf (hroomed hroom) hroom (hleave hk) (not_bye_append ?_ ?_)
          (not_bye_append ?_ ?_)
        · intro m hm
          exact ((Room.enter_keys room c name k).mp (htold.eq_room hm).1).resolve_left hk
        · exact fun m hm ↦ (htold'.eq_room hm).1
        · exact fun m ↦ htold.ofKind.not_bye (by decide)
        · exact fun m ↦ htold'.ofKind.not_bye (by decide)
  | @haunt _ name reason code room told _ hname _ hroom _ htold hworld =>
      rw [hworld.since]
      have hk : k ≠ c.id := fun heq ↦ hnamed heq.symm hname
      have hother : k ∉ (room.enter (c.newUser name false)).users.keys := by
        rw [Room.enter_keys, not_or]
        exact ⟨hk, fun hmem ↦ hroomed hroom hmem rfl⟩
      refine follows_quiet (hleave hk) ?_
      rw [inbox_append, htold.inbox_of_notMem hother, inbox_cons_of_ne (Ne.symm hk)]
      rfl
  | @update _ op r room ended told _ hin _ hended htold hworld =>
      rw [hworld.since]
      have hsound := hwf.sound r room hin.lookup
      refine follows_room hwf (fun _ ↦ hin.ne_empty) hin.lookup rfl (not_bye_append ?_ ?_)
        (not_bye_append ?_ ?_)
      · exact fun m ↦ hended.addressed (e.mem_notices c.id) hsound (fun _ hk ↦ hk) k m
      · intro m hm
        have hmem := (htold.eq_room hm).1
        rwa [show (op.apply room).users.keys = room.users.keys from GoMap.keys_mapVals _ _] at hmem
      · exact fun m ↦ (hended.ofKind (e.mem_notices c.id)).not_bye (by decide)
      · exact fun m ↦ htold.ofKind.not_bye (by decide)
  | @share r room _ os told _ hin huser _ _ _ hos htold hworld =>
      rw [hworld.since]
      have hends : Addressed (fun k ↦ k ∈ room.users.keys)
          (os.flatMap OpenedSession.messages) := by
        refine OpenedSession.addressed fun o ho ↦ ?_
        obtain ⟨hhost, -, hclient⟩ := (hos.mem_iff _).mp (List.mem_map.mpr ⟨o, ho, rfl⟩)
        exact ⟨hhost ▸ GoMap.mem_keys_of_lookup huser, hclient⟩
      refine follows_room hwf (fun _ ↦ hin.ne_empty) hin.lookup rfl (not_bye_append (hends k) ?_)
        (not_bye_append ?_ ?_)
      · intro m hm
        have hmem := (htold.eq_room hm).1
        rwa [Room.startStream_keys] at hmem
      · exact fun m ↦ (OpenedSession.ofKind_messages os).not_bye (by decide)
      · exact fun m ↦ htold.ofKind.not_bye (by decide)
  | @remove _ t r reason code room room' target told _ hin _ _ htarget hban htold hworld =>
      rw [hworld.since]
      have hmem := GoMap.mem_keys_of_lookup htarget
      have hkeys : (room'.remove t).users.keys = room.users.keys.erase t := by
        rcases hban with ⟨-, rfl⟩ | ⟨-, rfl⟩ <;> exact Room.remove_keys _ t
      by_cases hk : k = t
      · subst hk
        have hself : k ∉ (room'.remove k).users.keys := by
          rw [hkeys]
          exact Finset.notMem_erase _ _
        rw [phaseOf_member hwf hin.ne_empty hin.lookup hmem,
          phaseOf_gone (GoMap.lookup_erase_self _ _), inbox_cons_self, htold.inbox_of_notMem hself]
        rfl
      · rw [inbox_cons_of_ne (Ne.symm hk)]
        refine follows_room hwf (fun _ ↦ hin.ne_empty) hin.lookup (GoMap.lookup_erase_of_ne hk)
          ?_ fun m ↦ htold.ofKind.not_bye (by decide)
        intro m hm
        have hmem' := (htold.eq_room hm).1
        rw [hkeys] at hmem'
        exact Finset.mem_of_mem_erase hmem'
  | leave hin hleft => exact hleft.follows hwf hin k
  | @leaveNowhere _ code reason _ hout hworld =>
      rw [hworld.since]
      by_cases hk : k = c.id
      · subst hk
        rw [phaseOf_silent hout, phaseOf_gone (GoMap.lookup_erase_self _ _), inbox_cons_self]
        rfl
      · rw [inbox_cons_of_ne (Ne.symm hk)]
        exact follows_quiet (hleave hk) rfl
  | @dissolve r room ks _ hin _ hnodup hks hworld =>
      rw [hworld.since]
      by_cases hk : k ∈ room.users.keys
      · have hgone : (s.connected.filter fun k _ ↦ k ∉ room.users.keys).lookup k = none := by
          rw [Option.eq_none_iff_forall_ne_some]
          exact fun r' hr' ↦ (GoMap.lookup_filter_eq_some.mp hr').2 hk
        rw [phaseOf_member hwf hin.ne_empty hin.lookup hk, phaseOf_gone hgone,
          inbox_map hnodup ((hks k).mpr hk)
            fun _ ↦ .closeWriter closeNormalClosure "Room Dissolved"]
        rfl
      · have hkept : (s.connected.filter fun k _ ↦ k ∉ room.users.keys).lookup k =
            s.connected.lookup k := by
          rw [GoMap.lookup_filter]
          cases s.connected.lookup k with
          | none => rfl
          | some _ => simp [hk]
        refine follows_quiet hkept (inbox_eq_nil fun m hm ↦ hk ?_)
        obtain ⟨k', hk', heq⟩ := List.mem_map.mp hm
        rw [← (Prod.mk.inj heq).1]
        exact (hks k').mp hk'

/-- A client that does not name the room with the empty id is not listed in it. -/
theorem Effect.nowhere (h : Effect env c s e s') (hwf : s.WF env)
    (hnowhere : ¬ Member s.rooms k "") (hnamed : c.id = k → e.named ≠ some "") :
    ¬ Member s'.rooms k "" := by
  rintro ⟨room', hroom', hk⟩
  rcases h.room_step hwf hroom' with hold | ⟨ce, name, createdAt, rfl, hid, -, -, -, rfl⟩ |
    ⟨room, hroom, hstep⟩
  · exact hnowhere ⟨room', hold, hk⟩
  · obtain ⟨u, hu⟩ := GoMap.mem_keys.mp hk
    exact hnamed (Room.create_lookup hu).1.symm (congrArg some hid.symm)
  · cases hstep with
    | enter hname _ _ _ _ =>
        rw [Room.openSessions_users] at hk
        rcases (Room.enter_keys _ _ _ _).mp hk with rfl | hk
        · exact hnamed rfl hname
        · exact hnowhere ⟨room, hroom, hk⟩
    | update hr _ _ => exact hr rfl
    | share _ hr _ _ _ _ _ _ => exact hr rfl
    | remove hr _ _ _ _ => exact hr rfl
    | left hr _ => exact hr rfl

end Step

/-! ## Runs -/

/-- The messages handed over for `k` so far, against what the maps say about it. -/
structure Streamed (s : System XID) (k : XID) : Prop where
  nowhere : ¬ Member s.rooms.rooms k ""
  unknown : k ∉ s.clients.map ClientInfo.id → inbox k s.rooms.world.out = []
  known : k ∈ s.clients.map ClientInfo.id →
    Phase.silent.after (inbox k s.rooms.world.out) = some (phaseOf s.rooms.connected k)

section Run

variable {s t : System XID} {a : Action XID} {k : XID}

theorem phaseOf_unknown (hwf : s.WF env) (hk : k ∉ s.clients.map ClientInfo.id) :
    phaseOf s.rooms.connected k = .gone := by
  refine phaseOf_gone (GoMap.lookup_eq_none.mpr fun hconn ↦ hk ?_)
  obtain ⟨c, hc, rfl⟩ := hwf.known k hconn
  exact List.mem_map.mpr ⟨c, hc, rfl⟩

/-- The client itself connects: nothing was written to it before. -/
theorem Streamed.connect {info : ClientInfo XID} (h : Streamed s info.id) (hwf : s.WF env)
    (hst : (machine env server).step s (.connect info) t) : Streamed t info.id := by
  have hunknown : info.id ∉ s.clients.map ClientInfo.id := fun hmem ↦
    not_dialing hwf hmem info hst.1 rfl
  have hempty := h.unknown hunknown
  rw [connect_eq hst]
  refine ⟨h.nowhere, fun hnot ↦ absurd (List.mem_map.mpr ⟨info, List.mem_cons_self, rfl⟩) hnot,
    fun _ ↦ ?_⟩
  rw [phaseOf_silent (GoMap.lookup_insert_self _ _ _), hempty]
  rfl

theorem Streamed.step (h : Streamed s k) (hwf : s.WF env)
    (hst : (machine env server).step s a t)
    (hnamed : (a.info env).id = k → a.event.named ≠ some "") : Streamed t k := by
  have heffect := step_effect hwf hst
  by_cases hconnect : ∃ info, a = .connect info ∧ info.id = k
  · obtain ⟨info, rfl, rfl⟩ := hconnect
    exact h.connect hwf hst
  have hnew : a.event = .connected → (a.info env).id ≠ k := by
    intro hevent hid
    obtain ⟨info, rfl⟩ := connect_of_event hst hevent
    exact hconnect ⟨info, rfl, hid⟩
  have hfollows := heffect.follows hwf.rooms h.nowhere hnamed hnew
  have hclients := step_clients_iff hst hconnect
  refine ⟨heffect.nowhere hwf.rooms h.nowhere hnamed, fun hk ↦ ?_, fun hk ↦ ?_⟩
  · rw [hclients] at hk
    rw [phaseOf_unknown hwf hk] at hfollows
    rw [step_out hwf hst, inbox_append, h.unknown hk, Phase.after_gone hfollows]
    rfl
  · rw [hclients] at hk
    rw [step_out hwf hst, inbox_append, Phase.after_append, h.known hk]
    exact hfollows

end Run

/-- The room id that a `create` or a `join` of the client `k` carries. -/
def Action.namedBy (k : XID) : Action XID → Option String
  | .receive info e => if info.id = k then e.named else none
  | _ => none

theorem stream_grammar {s : System XID} {l : List (System XID × Action XID)} {k : XID}
    (h : (machine env server).Run (machine env server).init l s)
    (hnamed : ∀ p ∈ l, p.2.namedBy k ≠ some "") :
    Grammar (inbox k s.rooms.world.out) := by
  have hstreamed : Streamed s k := by
    induction h with
    | nil =>
        refine ⟨?_, fun _ ↦ rfl, fun hk ↦ by cases hk⟩
        rintro ⟨room, hroom, -⟩
        cases hroom
    | @snoc l s t a hr hst ih =>
        have hlast := hnamed (s, a) (List.mem_append_right _ List.mem_cons_self)
        refine (ih fun p hp ↦ hnamed p (List.mem_append_left _ hp)).step (reachable_wf ⟨l, hr⟩) hst
          fun hid ↦ ?_
        cases a with
        | receive info e =>
            have hid : info.id = k := hid
            simp only [Action.namedBy, if_pos hid] at hlast
            exact hlast
        | dial _ _ _ => exact nofun
        | connect _ => exact nofun
        | health => exact nofun
  by_cases hk : k ∈ s.clients.map ClientInfo.id
  · exact Phase.grammar (hstreamed.known hk)
  · rw [hstreamed.unknown hk]
    exact Phase.grammar Phase.after_nil

/-- A member that is kicked after a share has started. -/
theorem stream_grammar_screening : Grammar (inbox 1 (System.after (Env.sample authModeNone)
    (.internal ⟨∅⟩) (screening "turn" ++ [expulsion])).rooms.world.out) :=
  stream_grammar (System.run_history _ _ _) (by decide +kernel)

end Screego
