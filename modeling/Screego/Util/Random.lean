import Mathlib.Data.List.GetD
import Screego.Env

/-!
# Random strings and names

`util.RandString` makes one draw for each character, and a generated user name
is an adjective and an animal.  The index of a word is drawn below the length
of its list minus one, so the last word of a list is never drawn.
-/

namespace Screego
namespace Util

variable {XID : Type} (env : Env XID)

def tokenCharacters : List Char :=
  ("abcdefghijklmnopqrstuvwxyzABCDEFGHIJKLMNOPQRSTUVWXYZ0123456789" ++
    ".-_!@#$%^&*())\x7b\x7d\\/=+,.><").toList

/-- `RandString(length)`, drawn from `tick` on. -/
def randString (tick length : ℕ) : String :=
  String.ofList ((List.range length).map fun i ↦
    tokenCharacters.getD (env.rand (tick + i) % tokenCharacters.length) 'a')

def adjectives : List String :=
  ["able", "adaptive", "adventurous", "affable", "agreeable", "ambitious",
    "amiable", "amusing", "balanced", "brave", "bright", "calm", "capable",
    "charming", "clever", "compassionate", "considerate", "courageous",
    "creative", "decisive", "determined", "discreet", "dynamic",
    "enthusiastic", "exuberant", "faithful", "fearless", "friendly", "funny",
    "generous", "gentle", "good", "honest", "humorous", "independent",
    "intelligent", "intuitive", "kind", "loving", "loyal", "modest", "nice",
    "optimistic", "patient", "pioneering", "polite", "powerful", "reliable",
    "resourceful", "sensible", "sincere", "thoughtful", "tough", "versatile"]

def animals : List String :=
  ["dog", "puppy", "turtle", "rabbit", "parrot", "cat", "kitten", "goldfish",
    "mouse", "hamster", "fish", "cow", "rabbit", "duck", "shrimp", "pig",
    "goat", "crab", "deer", "bee", "sheep", "fish", "turkey", "dove",
    "chicken", "horse", "squirrel", "dog", "chimpanzee", "ox", "lion", "panda",
    "walrus", "otter", "mouse", "kangaroo", "goat", "horse", "monkey", "cow",
    "koala", "mole", "elephant", "leopard", "hippopotamus", "giraffe", "fox",
    "coyote", "hedgehong", "sheep", "deer"]

/-- `r(r, l)`: a word of `l` other than the last one. -/
def r (tick : ℕ) (l : List String) : String := l.getD (env.rand tick % (l.length - 1)) ""

/-- `NewUserName`, which makes two draws. -/
def newUserName (tick : ℕ) : String :=
  env.title (r env tick adjectives) ++ " " ++ env.title (r env (tick + 1) animals)

end Util
end Screego
