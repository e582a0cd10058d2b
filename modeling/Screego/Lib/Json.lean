import Mathlib.Data.String.Basic

/-!
# JSON documents

The documents themselves, not their text, and how JavaScript turns one into a
property key and compares two of them.
-/

namespace Screego

inductive Json where
  | null
  | bool (b : Bool)
  | number (n : ℤ)
  | string (s : String)
  | array (items : List Json)
  | object (fields : List (String × Json))

namespace Json

/-- The property of a value, `none` for `undefined`. -/
def field (name : String) : Json → Option Json
  | object fields => fields.lookup name
  | _ => none

mutual

/-- `ToString`, which also gives the property key of a value. -/
def text : Json → String
  | null => "null"
  | bool b => if b then "true" else "false"
  | number n => n.repr
  | string s => s
  | array items => ",".intercalate (texts items)
  | object _ => "[object Object]"

/-- The pieces that `Array.prototype.join` puts together; it leaves out `null`. -/
def texts : List Json → List String
  | [] => []
  | null :: items => "" :: texts items
  | item :: items => item.text :: texts items

end

/-- The operator `===` on the results of two calls of `JSON.parse`: arrays and objects are equal to
themselves only. -/
def strictEq : Json → Json → Bool
  | null, null => true
  | bool a, bool b => a = b
  | number a, number b => a = b
  | string a, string b => a = b
  | _, _ => false

@[simp] theorem strictEq_array (j : Json) (items : List Json) :
    j.strictEq (array items) = false := by
  cases j <;> rfl

/-- Joining pieces none of which is empty. -/
theorem length_intercalate {l : List String} (h : ∀ s ∈ l, 0 < s.length) :
    2 * l.length ≤ (",".intercalate l).length + 1 := by
  induction l with
  | nil => exact Nat.zero_le _
  | cons s l ih =>
      have hs := h s List.mem_cons_self
      cases l with
      | nil =>
          rw [String.intercalate_singleton, List.length_singleton]
          omega
      | cons t l =>
          have hrest := ih fun u hu ↦ h u (List.mem_cons_of_mem _ hu)
          have hcomma : (",").length = 1 := rfl
          rw [String.intercalate_cons_cons, String.length_append, String.length_append, hcomma,
            List.length_cons]
          omega

/-- Each number of an array takes up a digit, and there are the commas between them. -/
theorem length_text_array (ns : List ℕ) :
    2 * ns.length ≤ (array (ns.map fun n : ℕ ↦ number n)).text.length + 1 := by
  have hpieces : texts (ns.map fun n : ℕ ↦ number n) = ns.map Nat.repr := by
    induction ns with
    | nil => rfl
    | cons n ns ih =>
        have hpiece : (number n).text = n.repr := by
          rw [text]
          rfl
        rw [List.map_cons, List.map_cons, texts, ih, hpiece]
        rintro ⟨⟩
  have hlength := length_intercalate (l := ns.map Nat.repr) fun s hs ↦ by
    obtain ⟨n, -, rfl⟩ := List.mem_map.mp hs
    exact Nat.length_repr_pos
  rwa [text, hpieces, ← List.length_map (f := Nat.repr)]

end Json

end Screego
