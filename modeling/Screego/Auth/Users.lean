import Screego.Lib.Csv
import Screego.Lib.GoMap

/-!
# Users

The users file has a line with a name and a hashed password for each user, as
the command `hash` prints it.
-/

namespace Screego
namespace Auth

structure UserPW where
  name : String
  pass : String
  deriving DecidableEq

theorem valid_colon : Csv.Valid ':' '#' := ⟨by decide, by decide, by decide, by decide⟩

/-- The reader in `read`. -/
def usersFormat : Csv.Format := ⟨':', '#', valid_colon⟩

inductive ReadError where
  | parse (err : Csv.ParseError)
  | malformed
  deriving DecidableEq

def userPW : List Csv.Field → Except ReadError UserPW
  | [name, pass] => .ok ⟨String.ofList name, String.ofList pass⟩
  | _ => .error .malformed

def read (text : String) : Except ReadError (List UserPW) :=
  match Csv.readAll usersFormat text.toList with
  | .error err => .error (.parse err)
  | .ok records => records.mapM userPW

structure Users where
  lookup : GoMap String String
  sessionTimeout : ℤ

/-- What keeps the users from being loaded. -/
inductive FileError where
  | openFile (err : String)
  | read (err : ReadError)
  deriving DecidableEq

/-- `ReadPasswordsFile`, with the function that reads a file. -/
def readPasswordsFile (openFile : String → Except String String) (path : String)
    (sessionTimeout : ℤ) : Except FileError Users :=
  if path = "" then .ok ⟨∅, sessionTimeout⟩
  else
    match openFile path with
    | .error err => .error (.openFile err)
    | .ok text =>
        match read text with
        | .error err => .error (.read err)
        | .ok userPws =>
            .ok ⟨GoMap.insertAll ∅ (userPws.map fun record ↦ (record.name, record.pass)),
              sessionTimeout⟩

/-- `Validate`, with `bcrypt.CompareHashAndPassword`. -/
def Users.validate (compare : String → String → Bool) (u : Users) (user password : String) : Bool :=
  match u.lookup.lookup user with
  | none => false
  | some realPassword => compare realPassword password

/-- The command `hash`: the line that it prints, or the message with which it exits.  The
parameters are the prompt for a password and `bcrypt.GenerateFromPassword`. -/
def hashCmd (readPassword : Except String String)
    (generateFromPassword : String → Except String String) (name pass : String) :
    Except String String :=
  if name = "" then .error "--name must be set"
  else do
    let pass ← if pass = "" then readPassword.mapError fun _ ↦ "could not read stdin" else .ok pass
    let hashedPw ← (generateFromPassword pass).mapError fun _ ↦ "could not generate password"
    return name ++ ":" ++ hashedPw ++ "\n"

end Auth
end Screego
