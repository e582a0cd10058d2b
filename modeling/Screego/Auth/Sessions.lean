import Mathlib.Data.Int.Notation
import Screego.Auth.Users

/-!
# Logins by cookie

A login is a signed cookie with the name of the user.  The server keeps nothing
about it: the cookie is good for thirty days from when it was made, whatever the
browser is told about its age, and a logout only hands out another one.
-/

namespace Screego
namespace Auth

/-- The age up to which a `CookieStore` accepts a cookie, in seconds. -/
def maxAge : ℤ := 86400 * 30

/-- `sessions.CookieStore` with a secret, for the cookie `user`.  A session holds the value `user`
or it is empty. -/
structure Store where
  encode : ℤ → Option String → Except String String
  decode : ℤ → String → Option (Option String)
  decode_encode : ∀ {made : ℤ} {user : Option String} {cookie : String},
    encode made user = .ok cookie → ∀ now, decode now cookie =
      if now - made ≤ maxAge then some user else none

structure SetCookie where
  value : String
  maxAge : ℤ
  deriving DecidableEq

structure Response where
  status : ℕ
  message : Option String
  cookie : Option SetCookie
  deriving DecidableEq

variable (store : Store)

/-- `CurrentUser`, for the cookie of a request. -/
def currentUser (now : ℤ) (cookie : Option String) : String × Bool :=
  match cookie.bind (store.decode now) with
  | some (some user) => (user, true)
  | _ => ("guest", false)

def logout (now : ℤ) : Response :=
  match store.encode now none with
  | .error err => ⟨500, some err, none⟩
  | .ok cookie => ⟨200, none, some ⟨cookie, 0⟩⟩

def Users.authenticate (compare : String → String → Bool) (u : Users) (now : ℤ)
    (user pass : String) : Response :=
  if u.validate compare user pass = false then ⟨401, some "could not authenticate", none⟩
  else
    match store.encode now (some user) with
    | .error err => ⟨500, some err, none⟩
    | .ok cookie => ⟨200, some "authenticated", some ⟨cookie, u.sessionTimeout⟩⟩

variable {store}

theorem currentUser_eq_true_iff {now : ℤ} {cookie : Option String} {user : String} :
    currentUser store now cookie = (user, true) ↔
      ∃ value, cookie = some value ∧ store.decode now value = some (some user) := by
  unfold currentUser
  split
  · next name hname =>
      obtain ⟨value, hvalue, hdecode⟩ := Option.bind_eq_some_iff.mp hname
      rw [Prod.mk.injEq, and_iff_left rfl]
      constructor
      · rintro rfl
        exact ⟨value, hvalue, hdecode⟩
      · rintro ⟨value', hvalue', hdecode'⟩
        obtain rfl := Option.some.inj (hvalue.symm.trans hvalue')
        exact Option.some.inj (Option.some.inj (hdecode.symm.trans hdecode'))
  · next hnone =>
      refine iff_of_false nofun ?_
      rintro ⟨value, rfl, hdecode⟩
      exact hnone user hdecode

end Auth
end Screego
