import Screego.Properties.TurnAccess
import Screego.Router.Router

/-!
# The password behind a client

A client that counts as logged in carries the name of a user whose password was
checked, however the requests and the steps of the main loop are interleaved.  A
cookie stays good for its thirty days, and no logout changes that.  With the auth
modes `turn` and `all` this reaches as far as the TURN credentials.
-/

namespace Screego

open Auth Outgoing World Rooms

variable {XID : Type} [DecidableEq XID] {site : Site XID} {server : Turn.Server}
  {earlier : List Issue} {l : List (Portal XID × Visit XID)} {s t : Portal XID}

/-- The store made the cookie. -/
def Issue.Genuine (store : Store) (issue : Issue) : Prop :=
  store.encode issue.made issue.user = .ok issue.cookie

/-- The password of the user was checked, in the run or before the start. -/
def LoggedIn (site : Site XID) (earlier : List Issue) (l : List (Portal XID × Visit XID))
    (user : String) : Prop :=
  (∃ issue ∈ earlier, issue.user = some user) ∨
    ∃ p ∈ l, ∃ now pass, p.2 = .login now user pass ∧
      site.users.validate site.compare user pass = true

/-- The cookie was made in a login that checked the password, or it is from before the start. -/
def Issue.Checked (site : Site XID) (earlier : List Issue) (l : List (Portal XID × Visit XID))
    (issue : Issue) (user : String) : Prop :=
  issue.user = some user ∧ (issue ∈ earlier ∨
    ∃ p ∈ l, ∃ pass, p.2 = .login issue.made user pass ∧
      site.users.validate site.compare user pass = true)

/-- The client was made in the visit, which presented the cookie while it was good. -/
structure Presents (site : Site XID) (info : ClientInfo XID) (p : Portal XID × Visit XID)
    (issue : Issue) : Prop where
  visit : ∃ now req, p.2 = .stream now req (some issue.cookie) ∧ now - issue.made ≤ maxAge
  dialed : ∃ t, p.1.next site p.2 = some t ∧ t.system.dialing = info :: p.1.system.dialing
  issued : issue ∈ p.1.issued
  user : issue.user = some info.authenticatedUser

/-! ## Cookies -/

omit [DecidableEq XID] in
theorem Issue.Checked.mono {l' : List (Portal XID × Visit XID)} {issue : Issue} {user : String}
    (h : issue.Checked site earlier l user) (hsub : l ⊆ l') :
    issue.Checked site earlier l' user := by
  refine ⟨h.1, h.2.imp_right ?_⟩
  rintro ⟨p, hp, hlogin⟩
  exact ⟨p, hsub hp, hlogin⟩

omit [DecidableEq XID] in
theorem Issue.Checked.loggedIn {issue : Issue} {user : String}
    (h : issue.Checked site earlier l user) : LoggedIn site earlier l user := by
  obtain ⟨huser, hearlier | ⟨p, hp, pass, hlogin⟩⟩ := h
  · exact Or.inl ⟨issue, hearlier, huser⟩
  · exact Or.inr ⟨p, hp, issue.made, pass, hlogin⟩

theorem mem_issues_authenticate {store : Store} {compare : String → String → Bool} {u : Users}
    {now : ℤ} {user pass : String} {issue : Issue} :
    issue ∈ (u.authenticate store compare now user pass).issues (some user) now ↔
      u.validate compare user pass = true ∧ ∃ cookie, store.encode now (some user) = .ok cookie ∧
        issue = ⟨cookie, some user, now⟩ := by
  unfold Users.authenticate
  split
  · next hfalse => simp [Response.issues, hfalse]
  · next htrue =>
      rw [Bool.not_eq_false] at htrue
      cases hencode : store.encode now (some user) with
      | error err => simp [Response.issues]
      | ok cookie => simp [Response.issues, htrue]

theorem mem_issues_logout {store : Store} {now : ℤ} {issue : Issue} :
    issue ∈ (Auth.logout store now).issues none now ↔
      ∃ cookie, store.encode now none = .ok cookie ∧ issue = ⟨cookie, none, now⟩ := by
  unfold Auth.logout
  cases hencode : store.encode now none with
  | error err => simp [Response.issues]
  | ok cookie => simp [Response.issues]

/-- A request counts as logged in exactly with a cookie for the user that is not too old. -/
theorem currentUser_issued {store : Store} {issued : List Issue} {now : ℤ}
    {cookie : Option String} (hgenuine : ∀ issue ∈ issued, issue.Genuine store)
    (hissued : ∀ value ∈ cookie, store.decode now value ≠ none →
      value ∈ issued.map Issue.cookie) {user : String} :
    Auth.currentUser store now cookie = (user, true) ↔ ∃ issue ∈ issued,
      cookie = some issue.cookie ∧ issue.user = some user ∧ now - issue.made ≤ maxAge := by
  rw [currentUser_eq_true_iff]
  constructor
  · rintro ⟨value, rfl, hdecode⟩
    have hne : store.decode now value ≠ none := by simp [hdecode]
    obtain ⟨issue, hissue, rfl⟩ := List.mem_map.mp (hissued value rfl hne)
    rw [store.decode_encode (hgenuine issue hissue)] at hdecode
    split at hdecode
    · next hage => exact ⟨issue, hissue, rfl, Option.some.inj hdecode, hage⟩
    · cases hdecode
  · rintro ⟨issue, hissue, rfl, huser, hage⟩
    refine ⟨issue.cookie, rfl, ?_⟩
    rw [store.decode_encode (hgenuine issue hissue), if_pos hage, huser]

/-! ## Runs -/

/-- What holds of the cookies and of the clients after a run. -/
structure Vouched (site : Site XID) (earlier : List Issue) (l : List (Portal XID × Visit XID))
    (s : Portal XID) : Prop where
  issue : ∀ issue ∈ s.issued, issue.Genuine site.store ∧
    ∀ user, issue.user = some user → issue.Checked site earlier l user
  client : ∀ info, info ∈ s.system.dialing ∨ info ∈ s.system.clients →
    info.authenticated = true → ∃ p ∈ l, ∃ issue, Presents site info p issue ∧
      issue.Checked site earlier l info.authenticatedUser

/-- What a visit makes the system behind the handlers do. -/
def Visit.action (site : Site XID) : Visit XID → Option (Action XID)
  | .login _ _ _ => none
  | .logout _ => none
  | .stream now req cookie =>
      if req.checkOrigin site.urlHost site.allowed then
        some (.dial (Auth.currentUser site.store now cookie).2
          (Auth.currentUser site.store now cookie).1 (req.addr site.trustProxyHeaders))
      else none
  | .act a => some a

/-- The steps of the system behind the visits of a run. -/
def systemSteps (site : Site XID) (l : List (Portal XID × Visit XID)) :
    List (System XID × Action XID) :=
  l.filterMap fun p ↦ (p.2.action site).map fun a ↦ (p.1.system, a)

/-- The system behind the handlers takes a step, or it stands still. -/
theorem portal_system {v : Visit XID} (h : (site.portal earlier server).step s v t) :
    (v.action site = none ∧ t.system = s.system) ∨
      ∃ a, v.action site = some a ∧ (machine site.env server).step s.system a t.system := by
  obtain ⟨henabled, hnext⟩ := h
  cases v with
  | login now user pass =>
      obtain rfl := Option.some.inj hnext
      exact Or.inl ⟨rfl, rfl⟩
  | logout now =>
      obtain rfl := Option.some.inj hnext
      exact Or.inl ⟨rfl, rfl⟩
  | stream now req cookie =>
      simp only [Portal.next] at hnext
      split at hnext
      · next horigin =>
          obtain ⟨system, hsystem, heq⟩ := Option.bind_eq_some_iff.mp hnext
          obtain rfl := Option.some.inj heq
          exact Or.inr ⟨_, if_pos horigin, trivial, hsystem⟩
      · next horigin =>
          obtain rfl := Option.some.inj hnext
          exact Or.inl ⟨if_neg horigin, rfl⟩
  | act a =>
      obtain ⟨system, hsystem, heq⟩ := Option.bind_eq_some_iff.mp hnext
      obtain rfl := Option.some.inj heq
      refine Or.inr ⟨a, rfl, ?_, hsystem⟩
      cases a with
      | dial _ _ _ => exact henabled.elim
      | connect info => exact henabled
      | receive info event => exact henabled
      | health => exact henabled

omit [DecidableEq XID] in
theorem systemSteps_append {l' : List (Portal XID × Visit XID)} :
    systemSteps site (l ++ l') = systemSteps site l ++ systemSteps site l' :=
  List.filterMap_append

/-- A run of the portal is one of the system, visit by visit. -/
theorem run_systemSteps
    (h : (site.portal earlier server).Run (site.portal earlier server).init l s) :
    (machine site.env server).Run (machine site.env server).init (systemSteps site l) s.system := by
  induction h with
  | nil => exact .nil
  | @snoc l s t v hr hst ih =>
      rw [systemSteps_append]
      rcases portal_system hst with ⟨hnone, hsame⟩ | ⟨a, hsome, hstep⟩
      · have hnil : systemSteps site [(s, v)] = [] := by simp [systemSteps, hnone]
        rwa [hnil, List.append_nil, hsame]
      · have hone : systemSteps site [(s, v)] = [(s.system, a)] := by simp [systemSteps, hsome]
        rw [hone]
        exact ih.snoc hstep

omit [DecidableEq XID] in
/-- Only a page behind a connection sends events. -/
theorem exists_visit_of_receive {info : ClientInfo XID} {e : Event XID} {u : System XID}
    (h : (u, Action.receive info e) ∈ systemSteps site l) :
    ∃ p ∈ l, p.1.system = u ∧ p.2 = .act (.receive info e) := by
  obtain ⟨p, hp, heq⟩ := List.mem_filterMap.mp h
  obtain ⟨a, ha, hpair⟩ := Option.map_eq_some_iff.mp heq
  obtain ⟨rfl, rfl⟩ := Prod.mk.inj hpair
  refine ⟨p, hp, rfl, ?_⟩
  generalize p.2 = v at ha ⊢
  cases v with
  | login _ _ _ => cases ha
  | logout _ => cases ha
  | stream _ _ _ =>
      dsimp only [Visit.action] at ha
      split at ha
      · cases ha
      · cases ha
  | act a => rw [Option.some.inj ha]

/-- Only a dial makes a client. -/
theorem next_infos {s t : System XID} {a : Action XID} (h : s.next site.env a = some t)
    (hdial : ∀ authenticated user addr, a ≠ .dial authenticated user addr) (henabled : s.Enabled a)
    {info : ClientInfo XID} (hinfo : info ∈ t.dialing ∨ info ∈ t.clients) :
    info ∈ s.dialing ∨ info ∈ s.clients := by
  cases a with
  | dial _ _ _ => exact absurd rfl (hdial _ _ _)
  | connect c =>
      simp only [System.next, Option.bind_eq_bind, Option.bind_eq_some_iff, Option.pure_def,
        Option.some.injEq] at h
      obtain ⟨rooms, -, rfl⟩ := h
      rcases hinfo with hinfo | hinfo
      · exact Or.inl (List.mem_of_mem_erase hinfo)
      · rcases List.mem_cons.mp hinfo with rfl | hinfo
        · exact Or.inl henabled
        · exact Or.inr hinfo
  | receive c event =>
      simp only [System.next, Option.bind_eq_bind, Option.bind_eq_some_iff, Option.pure_def,
        Option.some.injEq] at h
      obtain ⟨rooms, -, rfl⟩ := h
      exact hinfo
  | health =>
      simp only [System.next, Option.bind_eq_bind, Option.bind_eq_some_iff, Option.pure_def,
        Option.some.injEq] at h
      obtain ⟨rooms, -, rfl⟩ := h
      exact hinfo

theorem run_vouched (hearlier : ∀ issue ∈ earlier, issue.Genuine site.store)
    (h : (site.portal earlier server).Run (site.portal earlier server).init l s) :
    Vouched site earlier l s := by
  induction h with
  | nil =>
      refine ⟨fun issue hissue ↦ ⟨hearlier issue hissue, fun user huser ↦
        ⟨huser, Or.inl hissue⟩⟩, ?_⟩
      rintro info (hinfo | hinfo) <;> cases hinfo
  | @snoc l s t v hr hst ih =>
      have hsub : l ⊆ l ++ [(s, v)] := List.subset_append_left _ _
      have hlast : (s, v) ∈ l ++ [(s, v)] := List.mem_append_right _ List.mem_cons_self
      have hold : ∀ issue ∈ s.issued, issue.Genuine site.store ∧
          ∀ user, issue.user = some user → issue.Checked site earlier (l ++ [(s, v)]) user :=
        fun issue hissue ↦ ⟨(ih.issue issue hissue).1,
          fun user huser ↦ ((ih.issue issue hissue).2 user huser).mono hsub⟩
      have hclient : ∀ info, info ∈ s.system.dialing ∨ info ∈ s.system.clients →
          info.authenticated = true → ∃ p ∈ l ++ [(s, v)], ∃ issue, Presents site info p issue ∧
            issue.Checked site earlier (l ++ [(s, v)]) info.authenticatedUser := by
        intro info hinfo hauth
        obtain ⟨p, hp, issue, hpresents, hchecked⟩ := ih.client info hinfo hauth
        exact ⟨p, hsub hp, issue, hpresents, hchecked.mono hsub⟩
      have hgenuine : ∀ issue ∈ s.issued, issue.Genuine site.store :=
        fun issue hissue ↦ (ih.issue issue hissue).1
      obtain ⟨henabled, hnext⟩ := hst
      cases v with
      | login now user pass =>
          obtain rfl := Option.some.inj hnext
          refine ⟨List.forall_mem_append.mpr ⟨fun issue hissue ↦ ?_, hold⟩, hclient⟩
          obtain ⟨hvalid, cookie, hencode, rfl⟩ := mem_issues_authenticate.mp hissue
          refine ⟨hencode, fun user' huser ↦ ⟨huser, Or.inr ?_⟩⟩
          obtain rfl := Option.some.inj huser
          exact ⟨_, hlast, pass, rfl, hvalid⟩
      | logout now =>
          obtain rfl := Option.some.inj hnext
          refine ⟨List.forall_mem_append.mpr ⟨fun issue hissue ↦ ?_, hold⟩, hclient⟩
          obtain ⟨cookie, hencode, rfl⟩ := mem_issues_logout.mp hissue
          exact ⟨hencode, nofun⟩
      | stream now req cookie =>
          have hnext' := hnext
          simp only [Portal.next] at hnext
          split at hnext
          · obtain ⟨system, hsystem, heq⟩ := Option.bind_eq_some_iff.mp hnext
            obtain rfl := Option.some.inj heq
            obtain rfl := Option.some.inj hsystem
            refine ⟨hold, ?_⟩
            rintro info (hinfo | hinfo) hauth
            · rcases List.mem_cons.mp hinfo with rfl | hinfo
              · -- the new client is the one of this visit
                obtain ⟨issue, hissue, rfl, huser, hage⟩ :=
                  (currentUser_issued hgenuine henabled).mp (Prod.ext rfl hauth)
                exact ⟨_, hlast, issue, ⟨⟨now, req, rfl, hage⟩, ⟨_, hnext', rfl⟩, hissue, huser⟩,
                  (hold issue hissue).2 _ huser⟩
              · exact hclient info (Or.inl hinfo) hauth
            · exact hclient info (Or.inr hinfo) hauth
          · obtain rfl := Option.some.inj hnext
            exact ⟨hold, hclient⟩
      | act a =>
          obtain ⟨system, hsystem, heq⟩ := Option.bind_eq_some_iff.mp hnext
          obtain rfl := Option.some.inj heq
          refine ⟨hold, fun info hinfo hauth ↦ hclient info (next_infos hsystem ?_ ?_ hinfo) hauth⟩
          · rintro _ _ _ rfl
            exact henabled
          · cases a with
            | dial _ _ _ => exact henabled.elim
            | connect c => exact henabled
            | receive c event => exact henabled
            | health => exact henabled

theorem issued_subset {v : Visit XID} (h : (site.portal earlier server).step s v t) :
    s.issued ⊆ t.issued := by
  obtain ⟨-, hnext⟩ := h
  cases v with
  | login now user pass =>
      obtain rfl := Option.some.inj hnext
      exact List.subset_append_right _ _
  | logout now =>
      obtain rfl := Option.some.inj hnext
      exact List.subset_append_right _ _
  | stream now req cookie =>
      simp only [Portal.next] at hnext
      split at hnext
      · obtain ⟨system, -, heq⟩ := Option.bind_eq_some_iff.mp hnext
        obtain rfl := Option.some.inj heq
        exact List.Subset.refl _
      · obtain rfl := Option.some.inj hnext
        exact List.Subset.refl _
  | act a =>
      obtain ⟨system, -, heq⟩ := Option.bind_eq_some_iff.mp hnext
      obtain rfl := Option.some.inj heq
      exact List.Subset.refl _

theorem run_issued (h : (site.portal earlier server).Run (site.portal earlier server).init l s)
    {p : Portal XID × Visit XID} (hp : p ∈ l) {now : ℤ} {user pass cookie : String}
    (hlogin : p.2 = .login now user pass)
    (hvalid : site.users.validate site.compare user pass = true)
    (hcookie : site.store.encode now (some user) = .ok cookie) :
    ⟨cookie, some user, now⟩ ∈ s.issued := by
  obtain ⟨t, l', hstep, hrun⟩ := h.after_of_mem hp
  have hissued : ⟨cookie, some user, now⟩ ∈ t.issued := by
    rw [hlogin] at hstep
    obtain rfl := Option.some.inj hstep.2
    exact List.mem_append_left _ (mem_issues_authenticate.mpr ⟨hvalid, cookie, hcookie, rfl⟩)
  clear h
  induction hrun with
  | nil => exact hissued
  | snoc _ hst ih => exact issued_subset hst ih

/-- What logins come to in the state `s` after the run. -/
structure SessionsKept (site : Site XID) (earlier : List Issue)
    (l : List (Portal XID × Visit XID)) (s : Portal XID) : Prop where
  /-- Each cookie is from the store, and one with a user is from a login of that user. -/
  issue : ∀ issue ∈ s.issued, issue.Genuine site.store ∧
    ∀ user, issue.user = some user → issue.Checked site earlier l user
  /-- Behind each client that is logged in a password was checked. -/
  client : ∀ info, info ∈ s.system.dialing ∨ info ∈ s.system.clients →
    info.authenticated = true → LoggedIn site earlier l info.authenticatedUser
  /-- It presented the cookie of that login when it connected. -/
  presented : ∀ info, info ∈ s.system.dialing ∨ info ∈ s.system.clients →
    info.authenticated = true → ∃ p ∈ l, ∃ issue, Presents site info p issue ∧
      issue.Checked site earlier l info.authenticatedUser
  /-- A connection is logged in exactly with a cookie of a login that is not too old. -/
  stream : ∀ now req cookie, s.Enabled site (.stream now req cookie) →
    req.checkOrigin site.urlHost site.allowed = true →
    ∃ t info, s.next site (.stream now req cookie) = some t ∧
      t.system.dialing = info :: s.system.dialing ∧
      ∀ user, (info.authenticated = true ∧ info.authenticatedUser = user) ↔
        ∃ issue ∈ s.issued, cookie = some issue.cookie ∧ issue.user = some user ∧
          now - issue.made ≤ maxAge
  /-- The cookie of a login is one of them for good, whoever logs out. -/
  login : ∀ p ∈ l, ∀ now user pass cookie, p.2 = .login now user pass →
    site.users.validate site.compare user pass = true →
    site.store.encode now (some user) = .ok cookie → ⟨cookie, some user, now⟩ ∈ s.issued

theorem sessions_kept (hearlier : ∀ issue ∈ earlier, issue.Genuine site.store)
    (h : (site.portal earlier server).Run (site.portal earlier server).init l s) :
    SessionsKept site earlier l s where
  issue := (run_vouched hearlier h).issue
  client := by
    intro info hinfo hauth
    obtain ⟨_, -, _, -, hchecked⟩ := (run_vouched hearlier h).client info hinfo hauth
    exact hchecked.loggedIn
  presented := (run_vouched hearlier h).client
  stream := by
    intro now req cookie henabled horigin
    have hgenuine : ∀ issue ∈ s.issued, issue.Genuine site.store :=
      fun issue hissue ↦ ((run_vouched hearlier h).issue issue hissue).1
    refine ⟨_, _, by simp only [Portal.next, horigin, if_true, System.next]; rfl, rfl, ?_⟩
    intro user
    rw [← currentUser_issued hgenuine henabled]
    constructor
    · rintro ⟨hauth, rfl⟩
      exact Prod.ext rfl hauth
    · intro hcurrent
      exact ⟨congrArg Prod.snd hcurrent, congrArg Prod.fst hcurrent⟩
  login := fun p hp now user pass cookie ↦ run_issued h hp

/-! ## Down to the credentials -/

theorem Founded.created {env : Env XID} {l : List (System XID × Action XID)} {r : String}
    {info : ClientInfo XID} {e : Create} (h : Founded env r info e l) :
    e.id = r ∧ ∃ u, (u, .receive info (.create e)) ∈ l := by
  induction h with
  | create hid _ _ _ => exact ⟨hid, _, List.mem_append_right _ List.mem_cons_self⟩
  | later _ _ ih =>
      obtain ⟨hid, u, hcreate⟩ := ih
      exact ⟨hid, u, List.mem_append_left _ hcreate⟩

/-- What stands behind the TURN credentials of the session `id` in a state: the room of the session
was created for TURN by a client that presented a cookie, and the cookie is from a login. -/
structure Credited (site : Site XID) (earlier : List Issue) (l : List (Portal XID × Visit XID))
    (s : Portal XID) (id : XID) (r : String) (room : Room XID) (info : ClientInfo XID)
    (e : Create) : Prop where
  lookup : s.system.rooms.rooms.lookup r = some room
  session : id ∈ room.sessions.keys
  founded : Founded site.env r info e (systemSteps site l)
  mode : room.mode = connectionTURN ∧ e.mode = connectionTURN
  authenticated : info.authenticated = true
  presented : ∃ p ∈ l, ∃ issue, Presents site info p issue ∧
    issue.Checked site earlier l info.authenticatedUser

/-- The room of the session was created for TURN, and a login stands behind that. -/
theorem credited_of_serves (hearlier : ∀ issue ∈ earlier, issue.Genuine site.store)
    (hmode : site.env.config.authMode = authModeTurn ∨ site.env.config.authMode = authModeAll)
    (h : (site.portal earlier server).Run (site.portal earlier server).init l s) {r : String}
    {room : Room XID} {o : OpenedSession XID} (hserves : Serves site.env s.system.rooms r room o)
    {srv : ICEServer} (hsrv : srv ∈ o.iceHost ∨ srv ∈ o.iceClient) (hne : srv.username ≠ "") :
    ∃ info e, Credited site earlier l s o.id r room info e := by
  have hrun := run_systemSteps h
  obtain ⟨n, v4, v6, -, hmade⟩ := hserves.made
  have hturn := (hmade.username_ne hsrv).mp hne
  obtain ⟨info, e, hfounded⟩ := founded_of_lookup hrun hserves.lookup
  have hcreated := (hfounded.origin hrun hserves.lookup).1.symm.trans hturn
  have hauth := Create.authenticated_of_turn hmode hfounded.authError hcreated
  -- the client of the `create` is one of the clients of the state in which it is received
  obtain ⟨-, u, hcreate⟩ := hfounded.created
  obtain ⟨q, hq, -, hact⟩ := exists_visit_of_receive hcreate
  obtain ⟨l', hrun', hsub⟩ := h.upto_of_mem hq
  obtain ⟨_, _, hstep, -⟩ := h.after_of_mem hq
  have hclient : info ∈ q.1.system.clients := by
    have henabled := hstep.1
    rw [hact] at henabled
    exact henabled.1
  obtain ⟨p, hp, issue, hpresents, hchecked⟩ :=
    (run_vouched hearlier hrun').client info (Or.inr hclient) hauth
  exact ⟨info, e, hserves.lookup, GoMap.mem_keys_of_lookup hserves.session, hfounded,
    ⟨hturn, hcreated⟩, hauth, p, hsub hp, issue, hpresents, hchecked.mono hsub⟩

/-- Whoever was given TURN credentials for a session: at that moment of the run the session was in
a room that was created for TURN through a login whose password was checked. -/
def CreditsLogin (site : Site XID) (earlier : List Issue) (server : Turn.Server)
    (l : List (Portal XID × Visit XID)) (s : Portal XID) : Prop :=
  ∀ k m id iceServers, (k, m) ∈ s.system.rooms.world.out → m.HandsOut id iceServers →
    ∀ srv ∈ iceServers, srv.username ≠ "" →
    ∃ l' u r room info e, l' <+: l ∧
      (site.portal earlier server).Run (site.portal earlier server).init l' u ∧
      (k, m) ∈ u.system.rooms.world.out ∧ Credited site earlier l' u id r room info e

theorem credits_login (hearlier : ∀ issue ∈ earlier, issue.Genuine site.store)
    (hmode : site.env.config.authMode = authModeTurn ∨ site.env.config.authMode = authModeAll)
    (h : (site.portal earlier server).Run (site.portal earlier server).init l s) :
    CreditsLogin site earlier server l s := by
  intro k m id iceServers hm hout srv hsrv hne
  induction h with
  | nil => cases hm
  | @snoc l s t v hr hst ih =>
      by_cases hold : (k, m) ∈ s.system.rooms.world.out
      · obtain ⟨l', u, r, room, info, e, hprefix, hrest⟩ := ih hold
        exact ⟨l', u, r, room, info, e, hprefix.trans (List.prefix_append _ _), hrest⟩
      rcases portal_system hst with ⟨-, hsame⟩ | ⟨a, hsome, hstep⟩
      · exact absurd (hsame ▸ hm) hold
      have hwf := reachable_wf ⟨_, run_systemSteps hr⟩
      have hnew : (k, m) ∈ s.system.rooms.world.since t.system.rooms.world := by
        rw [step_out hwf hstep] at hm
        exact (List.mem_append.mp hm).resolve_left hold
      -- the session was opened in this step
      have hkind : m.kind = .session := by
        obtain ⟨peer, rfl | rfl⟩ := hout <;> rfl
      obtain ⟨r, room, o, hserves, hmem, -⟩ := step_serves hwf hstep hnew hkind
      obtain rfl := OpenedSession.id_of_mem hmem hout
      obtain ⟨info, e, hcredited⟩ := credited_of_serves hearlier hmode (hr.snoc hst) hserves
        (OpenedSession.mem_iceServers hmem hout hsrv) hne
      exact ⟨_, _, r, room, info, e, List.prefix_rfl, hr.snoc hst, hm, hcredited⟩

/-! ## A visit -/

/-- A store that makes cookies at the time zero only. -/
def Auth.Store.sample : Store where
  encode made user :=
    if made = 0 then .ok (match user with | none => "-" | some user => "+" ++ user)
    else .error "expired"
  decode now cookie :=
    match cookie.toList with
    | ['-'] => if now ≤ maxAge then some none else none
    | '+' :: user => if now ≤ maxAge then some (some (String.ofList user)) else none
    | _ => none
  decode_encode := by
    intro made user cookie h now
    split at h
    · next hmade =>
        subst hmade
        rw [sub_zero]
        obtain rfl := Except.ok.inj h
        cases user with
        | none => rfl
        | some user => simp
    · cases h

/-- One user, whose password is the text of its hash. -/
def Site.sample (authMode : String) : Site ℕ where
  env := Env.sample authMode
  store := Store.sample
  users := ⟨(∅ : GoMap String String).insert "ada" "secret", 0⟩
  compare := fun hashedPw password ↦ hashedPw = password
  urlHost := some
  allowed := fun _ ↦ true
  trustProxyHeaders := false

/-- A client without a login, as `/stream` makes it. -/
def visitor : ClientInfo ℕ := ⟨1, false, "guest", [127, 0, 0, 1]⟩

/-- The user logs in, connects and shares its screen with a guest. -/
def visits : List (Visit ℕ) :=
  [.login 0 "ada" "secret", .stream 1 ⟨"", "", [127, 0, 0, 1], ""⟩ (some "+ada"),
    .stream 1 ⟨"", "", [127, 0, 0, 1], ""⟩ none, .logout 0] ++
  [.connect lodger, .connect visitor,
    .receive lodger (.create ⟨"lobby", "turn", false, "", false⟩),
    .receive visitor (.join ⟨"lobby", ""⟩), Action.receive lodger .startShare].map .act

theorem sessions_kept_visits :
    SessionsKept (Site.sample authModeTurn) []
      (Portal.history (Site.sample authModeTurn) [] (.internal ⟨∅⟩) visits).1
      (Portal.history (Site.sample authModeTurn) [] (.internal ⟨∅⟩) visits).2 :=
  sessions_kept (by simp) (Portal.run_history _ _ _ _)

theorem credits_login_visits :
    CreditsLogin (Site.sample authModeTurn) [] (.internal ⟨∅⟩)
      (Portal.history (Site.sample authModeTurn) [] (.internal ⟨∅⟩) visits).1
      (Portal.history (Site.sample authModeTurn) [] (.internal ⟨∅⟩) visits).2 ∧
    ∃ p ∈ (Portal.history (Site.sample authModeTurn) [] (.internal ⟨∅⟩)
      visits).2.system.rooms.world.out, p.1 = 1 ∧ p.2.kind = .session :=
  ⟨credits_login (by simp) (Or.inl rfl) (Portal.run_history _ _ _ _), by decide +kernel⟩

end Screego
