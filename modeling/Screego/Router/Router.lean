import Screego.Auth.Sessions
import Screego.Ws.Upgrade

/-!
# The requests in front of the main loop

Connections are made through `/stream` with the login of the cookie that the
request carries, and cookies come from `/login` and `/logout`.  The handlers run
at any time between the steps of the main loop.
-/

namespace Screego

open Auth

/-- What the handlers are set up with. -/
structure Site (XID : Type) where
  env : Env XID
  store : Store
  users : Users
  /-- `bcrypt.CompareHashAndPassword`. -/
  compare : String → String → Bool
  /-- The host of a parsed URL. -/
  urlHost : String → Option String
  /-- `CheckOrigin` of the configuration. -/
  allowed : String → Bool
  trustProxyHeaders : Bool

/-- A cookie that was handed out: the session in it, and when it was made. -/
structure Issue where
  cookie : String
  user : Option String
  made : ℤ
  deriving DecidableEq

structure Portal (XID : Type) where
  system : System XID
  issued : List Issue

inductive Visit (XID : Type) where
  | login (now : ℤ) (user pass : String)
  | logout (now : ℤ)
  | stream (now : ℤ) (req : Request) (cookie : Option String)
  /-- Anything behind the connections that were made. -/
  | act (a : Action XID)

/-- The cookies of a response. -/
def Auth.Response.issues (response : Response) (user : Option String) (made : ℤ) : List Issue :=
  response.cookie.toList.map fun cookie ↦ ⟨cookie.value, user, made⟩

variable {XID : Type} [DecidableEq XID] (site : Site XID)

namespace Portal

/-- A cookie that the store accepts was handed out: it is signed with the secret. -/
def Enabled (s : Portal XID) : Visit XID → Prop
  | .login _ _ _ => True
  | .logout _ => True
  | .stream now _ cookie => ∀ value ∈ cookie, site.store.decode now value ≠ none →
      value ∈ s.issued.map Issue.cookie
  | .act (.dial _ _ _) => False
  | .act a => s.system.Enabled a

def next (s : Portal XID) : Visit XID → Option (Portal XID)
  | .login now user pass =>
      let response := site.users.authenticate site.store site.compare now user pass
      some { s with issued := response.issues (some user) now ++ s.issued }
  | .logout now =>
      some { s with issued := (Auth.logout site.store now).issues none now ++ s.issued }
  | .stream now req cookie =>
      if req.checkOrigin site.urlHost site.allowed then do
        let (user, loggedIn) := Auth.currentUser site.store now cookie
        let system ← s.system.next site.env
          (.dial loggedIn user (req.addr site.trustProxyHeaders))
        return { s with system := system }
      else some s
  | .act a => do
      let system ← s.system.next site.env a
      return { s with system := system }

end Portal

/-- The server with its handlers.  With a secret that is configured it accepts cookies from
before its start. -/
def Site.portal (earlier : List Issue) (server : Turn.Server) :
    Machine (Portal XID) (Visit XID) where
  init := ⟨(machine site.env server).init, earlier⟩
  step s v t := s.Enabled site v ∧ s.next site v = some t

/-! ## Scripts -/

instance (s : Portal XID) : (v : Visit XID) → Decidable (s.Enabled site v)
  | .login _ _ _ => inferInstanceAs (Decidable True)
  | .logout _ => inferInstanceAs (Decidable True)
  | .stream _ _ cookie => inferInstanceAs (Decidable (∀ value ∈ cookie, _ → _))
  | .act (.dial _ _ _) => inferInstanceAs (Decidable False)
  | .act (.connect info) => inferInstanceAs (Decidable (s.system.Enabled (.connect info)))
  | .act (.receive info e) => inferInstanceAs (Decidable (s.system.Enabled (.receive info e)))
  | .act .health => inferInstanceAs (Decidable (s.system.Enabled .health))

/-- Make a visit and record it; one that cannot be made is passed over. -/
def Portal.play (h : List (Portal XID × Visit XID) × Portal XID) (v : Visit XID) :
    List (Portal XID × Visit XID) × Portal XID :=
  if h.2.Enabled site v then
    match h.2.next site v with
    | none => h
    | some t => (h.1 ++ [(h.2, v)], t)
  else h

/-- The run that a script of visits makes. -/
def Portal.history (earlier : List Issue) (server : Turn.Server) (script : List (Visit XID)) :
    List (Portal XID × Visit XID) × Portal XID :=
  script.foldl (Portal.play site) ([], (site.portal earlier server).init)

theorem Portal.run_history (earlier : List Issue) (server : Turn.Server)
    (script : List (Visit XID)) :
    (site.portal earlier server).Run (site.portal earlier server).init
      (Portal.history site earlier server script).1
      (Portal.history site earlier server script).2 := by
  refine Machine.run_foldl (fun h v hrun ↦ ?_) script
  unfold Portal.play
  split
  · next henabled =>
      split
      · exact hrun
      · next t hnext => exact hrun.snoc ⟨henabled, hnext⟩
  · exact hrun

end Screego
