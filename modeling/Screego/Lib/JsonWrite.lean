import Screego.Lib.JsonText

/-!
# Writing JSON documents

A document is written without white space, and what is written is a text of it.
-/

namespace Screego
namespace JsonText

open Unicode

/-- The literals of the document are in order, and it is nested at most `d` deep. -/
inductive Fits : ℕ → Value → Prop
  | null {d : ℕ} : Fits d .null
  | bool {d : ℕ} (b : Bool) : Fits d (.bool b)
  | number {d : ℕ} {l : List UInt8} (h : IsNumber l) : Fits d (.number l)
  | string {d : ℕ} {us : List ℕ} (h : ∀ u ∈ us, u < 0x10000) : Fits d (.string us)
  | array {d : ℕ} {vs : List Value} (h : ∀ v ∈ vs, Fits d v) : Fits (d + 1) (.array vs)
  | object {d : ℕ} {fields : List (List ℕ × Value)} (hkey : ∀ p ∈ fields, ∀ u ∈ p.1, u < 0x10000)
      (h : ∀ p ∈ fields, Fits d p.2) : Fits (d + 1) (.object fields)

def writeString (html : Bool) (us : List ℕ) : List UInt8 := quote :: (writeUnits html us ++ [quote])

mutual

def write (html : Bool) : Value → List UInt8
  | .null => [byte 'n', byte 'u', byte 'l', byte 'l']
  | .bool true => [byte 't', byte 'r', byte 'u', byte 'e']
  | .bool false => [byte 'f', byte 'a', byte 'l', byte 's', byte 'e']
  | .number l => l
  | .string us => writeString html us
  | .array items => byte '[' :: (writeItems html items ++ [byte ']'])
  | .object fields => byte '\x7b' :: (writeFields html fields ++ [byte '\x7d'])

def writeItems (html : Bool) : List Value → List UInt8
  | [] => []
  | [v] => write html v
  | v :: vs => write html v ++ byte ',' :: writeItems html vs

def writeFields (html : Bool) : List (List ℕ × Value) → List UInt8
  | [] => []
  | [(key, v)] => writeString html key ++ byte ':' :: write html v
  | (key, v) :: fields =>
      writeString html key ++ byte ':' :: (write html v ++ byte ',' :: writeFields html fields)

end

/-- The members of an object whose values are written already. -/
def writeMembers (html : Bool) : List Entry → List UInt8
  | [] => []
  | [m] => writeString html m.key ++ byte ':' :: m.raw
  | m :: ms => writeString html m.key ++ byte ':' :: (m.raw ++ byte ',' :: writeMembers html ms)

def writeObject (html : Bool) (ms : List Entry) : List UInt8 :=
  byte '\x7b' :: (writeMembers html ms ++ [byte '\x7d'])

section Text

variable {html : Bool} {d : ℕ}

theorem text_writeString (html : Bool) {us : List ℕ} (h : ∀ u ∈ us, u < 0x10000) :
    Text d (.value (.string us)) (writeString html us) := by
  have hchunk := chunk_writeUnits html h
  have hbody := hchunk.body [] .nil
  have hunits := hchunk.units []
  rw [List.append_nil] at hbody hunits
  have htext := Text.string (d := d) hbody
  rwa [hunits, readUnits, List.append_nil] at htext

theorem key_writeString (html : Bool) {us : List ℕ} (h : ∀ u ∈ us, u < 0x10000) :
    Key us (writeString html us ++ [byte ':']) := by
  have hchunk := chunk_writeUnits html h
  have hbody := hchunk.body [] .nil
  have hunits := hchunk.units []
  rw [List.append_nil] at hbody hunits
  have hkey := Key.mk hbody spaces_nil spaces_nil
  rw [hunits, readUnits, List.append_nil, List.nil_append] at hkey
  have heq : writeString html us ++ [byte ':'] =
      quote :: (writeUnits html us ++ quote :: [byte ':']) := by simp [writeString]
  rwa [heq]

theorem text_writeItems {vs : List Value} (hvs : vs ≠ [])
    (h : ∀ v ∈ vs, Text d (.value v) (write html v)) :
    Text d (.items vs) (writeItems html vs ++ [byte ']']) := by
  induction vs with
  | nil => exact absurd rfl hvs
  | cons v vs ih =>
      rw [List.forall_mem_cons] at h
      cases vs with
      | nil => exact .lastItem h.1 spaces_nil
      | cons w vs =>
          have hitem := Text.item h.1 spaces_nil spaces_nil (ih (List.cons_ne_nil w vs) h.2)
          simpa [writeItems] using hitem

theorem text_writeMembers {ms : List Entry} (hms : ms ≠ [])
    (hkey : ∀ m ∈ ms, ∀ u ∈ m.key, u < 0x10000) (h : ∀ m ∈ ms, Text d (.value m.value) m.raw) :
    Text d (.members ms) (writeMembers html ms ++ [byte '\x7d']) := by
  induction ms with
  | nil => exact absurd rfl hms
  | cons m ms ih =>
      rw [List.forall_mem_cons] at h hkey
      cases ms with
      | nil =>
          have hmember := Text.lastMember (key_writeString html hkey.1) h.1 spaces_nil
          simpa [writeMembers] using hmember
      | cons m' ms =>
          have hmember := Text.member (key_writeString html hkey.1) h.1 spaces_nil
            spaces_nil (ih (List.cons_ne_nil m' ms) hkey.2 h.2)
          simpa [writeMembers] using hmember

/-- A field as it is written. -/
def written (html : Bool) (p : List ℕ × Value) : Entry := ⟨p.1, write html p.2, p.2⟩

theorem map_field_written (fields : List (List ℕ × Value)) :
    (fields.map (written html)).map Entry.field = fields := by
  rw [List.map_map]
  exact List.map_id fields

theorem writeFields_eq (fields : List (List ℕ × Value)) :
    writeFields html fields = writeMembers html (fields.map (written html)) := by
  induction fields with
  | nil => rfl
  | cons p fields ih =>
      cases fields with
      | nil => rfl
      | cons q fields =>
          rw [List.map_cons, List.map_cons, writeMembers, ← List.map_cons, ← ih]
          · rfl
          · rintro ⟨⟩

/-- What is written is a text of the document. -/
theorem text_write {v : Value} (h : Fits d v) : Text d (.value v) (write html v) := by
  induction h with
  | null => exact .nullName
  | bool b =>
      cases b with
      | false => exact .falseName
      | true => exact .trueName
  | number h => exact .number h
  | string h => exact text_writeString html h
  | @array d vs _ ih =>
      cases vs with
      | nil => exact .emptyArray spaces_nil
      | cons v vs =>
          have hitems := text_writeItems (List.cons_ne_nil v vs) ih
          exact .array (s := []) spaces_nil hitems
  | @object d fields hkey _ ih =>
      cases fields with
      | nil => exact .emptyObject spaces_nil
      | cons p fields =>
          have hmembers : Text d (.members ((p :: fields).map (written html)))
              (writeFields html (p :: fields) ++ [byte '\x7d']) := by
            rw [writeFields_eq]
            refine text_writeMembers (List.cons_ne_nil _ _) ?_ ?_
            · exact List.forall_mem_map.mpr hkey
            · exact List.forall_mem_map.mpr ih
          have hobject := Text.object spaces_nil hmembers
          rwa [map_field_written] at hobject

end Text

end JsonText
end Screego
