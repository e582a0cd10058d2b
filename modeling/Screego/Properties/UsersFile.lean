import Screego.Auth.Users

/-!
# From the command `hash` to a login

A users file is put together from lines that `hash` printed.  It is read back as
what went into these lines exactly if no name has a character that the reader
understands in another way, and then the last line of a name decides who can log
in under it.
-/

namespace Screego

open Auth

/-- The characters of a hashed password. -/
def alphabet : List Char :=
  "$./ABCDEFGHIJKLMNOPQRSTUVWXYZabcdefghijklmnopqrstuvwxyz0123456789".toList

def Encoded (hashedPw : String) : Prop := ∀ c ∈ hashedPw.toList, c ∈ alphabet

instance (hashedPw : String) : Decidable (Encoded hashedPw) :=
  List.decidableBAll (fun c : Char ↦ c ∈ alphabet) hashedPw.toList

/-- The reader of the users file takes the name as it is. -/
structure Spelled (name : String) : Prop where
  colon : ':' ∉ name.toList
  quote : '"' ∉ name.toList
  newline : '\n' ∉ name.toList
  comment : ∀ c ∈ name.toList.head?, c ≠ '#'
  space : ∀ c ∈ name.toList.head?, Csv.isSpace c = false

def Auth.UserPW.line (record : UserPW) : String := record.name ++ ":" ++ record.pass ++ "\n"

/-- The file that the lines make. -/
def usersFile : List UserPW → String
  | [] => ""
  | record :: rest => record.line ++ usersFile rest

def Auth.UserPW.row (record : UserPW) : List Csv.Field :=
  [record.name.toList, record.pass.toList]

theorem line_of_hashCmd {readPassword : Except String String}
    {generateFromPassword : String → Except String String} {name pass line : String}
    (h : hashCmd readPassword generateFromPassword name pass = .ok line) :
    ∃ password hashedPw, generateFromPassword password = .ok hashedPw ∧ name ≠ "" ∧
      (pass = "" ∨ password = pass) ∧ line = UserPW.line ⟨name, hashedPw⟩ := by
  unfold hashCmd at h
  split at h
  · cases h
  next hname =>
  have hprint {password : String}
      (h : (generateFromPassword password).mapError (fun _ ↦ "could not generate password") >>=
        (fun hashedPw ↦ pure (name ++ ":" ++ hashedPw ++ "\n")) = .ok line) :
      ∃ hashedPw, generateFromPassword password = .ok hashedPw ∧
        line = UserPW.line ⟨name, hashedPw⟩ := by
    cases hgenerate : generateFromPassword password with
    | error err =>
        rw [hgenerate] at h
        cases h
    | ok hashedPw =>
        rw [hgenerate] at h
        cases h
        exact ⟨hashedPw, rfl, rfl⟩
  split at h
  · next hpass =>
      cases hread : readPassword with
      | error err =>
          rw [hread] at h
          cases h
      | ok password =>
          rw [hread] at h
          obtain ⟨hashedPw, hgenerate, hline⟩ := hprint h
          exact ⟨password, hashedPw, hgenerate, hname, Or.inl hpass, hline⟩
  · obtain ⟨hashedPw, hgenerate, hline⟩ := hprint h
    exact ⟨pass, hashedPw, hgenerate, hname, Or.inr rfl, hline⟩

/-! ## Rows -/

theorem toList_usersFile (records : List UserPW) : (usersFile records).toList =
    (records.map UserPW.row).flatMap (Csv.write usersFormat) := by
  induction records with
  | nil => rfl
  | cons record rest ih =>
      have hline : record.line.toList = Csv.write usersFormat record.row := by
        simp [UserPW.line, UserPW.row, Csv.write, usersFormat]
      rw [usersFile, String.toList_append, hline, ih, List.map_cons, List.flatMap_cons]

theorem plain_alphabet {c : Char} (h : c ∈ alphabet) :
    c ≠ ':' ∧ c ≠ '"' ∧ c ≠ '\n' ∧ Csv.isSpace c = false := by
  have hall : alphabet.all (fun c ↦ c ≠ ':' && c ≠ '"' && c ≠ '\n' && !Csv.isSpace c) = true := by
    decide +kernel
  simpa [and_assoc] using List.all_eq_true.mp hall c h

theorem Encoded.isSpace {hashedPw : String} (h : Encoded hashedPw) :
    ∀ c ∈ hashedPw.toList, Csv.isSpace c = false :=
  fun c hc ↦ (plain_alphabet (h c hc)).2.2.2

theorem Encoded.plain {hashedPw : String} (h : Encoded hashedPw) :
    Csv.Plain usersFormat hashedPw.toList where
  comma := fun hmem ↦ (plain_alphabet (h _ hmem)).1 rfl
  quote := fun hmem ↦ (plain_alphabet (h _ hmem)).2.1 rfl
  newline := fun hmem ↦ (plain_alphabet (h _ hmem)).2.2.1 rfl
  space := fun c hc ↦ h.isSpace c (List.mem_of_mem_head? hc)

theorem plainRow_iff {record : UserPW} (h : Encoded record.pass) :
    Csv.PlainRow usersFormat record.row ↔ Spelled record.name := by
  constructor
  · intro hrow
    obtain ⟨hcolon, hquote, hnewline, hspace⟩ := hrow.fields _ List.mem_cons_self
    exact ⟨hcolon, hquote, hnewline, hrow.comment, hspace⟩
  · intro hname
    refine ⟨by simp [UserPW.row], by simp [UserPW.row], ?_, hname.comment, ?_⟩
    · refine List.forall_mem_cons.mpr ⟨?_, List.forall_mem_singleton.mpr h.plain⟩
      exact ⟨hname.colon, hname.quote, hname.newline, hname.space⟩
    · rintro c hc rfl
      have hspace := h.isSpace '\r' (List.mem_of_getLast? hc)
      cases hspace

theorem mapM_userPW (records : List UserPW) :
    (records.map UserPW.row).mapM userPW = .ok records := by
  induction records with
  | nil => rfl
  | cons record rest ih =>
      have hone : userPW record.row = .ok record := by
        simp [userPW, UserPW.row]
      rw [List.map_cons, List.mapM_cons, hone, ih]
      rfl

theorem mapM_userPW_eq_ok {rows : List (List Csv.Field)} {records : List UserPW}
    (h : rows.mapM userPW = .ok records) : rows = records.map UserPW.row := by
  induction rows generalizing records with
  | nil =>
      cases h
      rfl
  | cons row rows ih =>
      rw [List.mapM_cons] at h
      cases hone : userPW row with
      | error err =>
          rw [hone] at h
          cases h
      | ok record =>
          cases hrest : rows.mapM userPW with
          | error err =>
              rw [hone, hrest] at h
              cases h
          | ok rest =>
              rw [hone, hrest] at h
              cases h
              rw [List.map_cons, ih hrest]
              congr 1
              unfold userPW at hone
              split at hone
              · cases hone
                simp [UserPW.row]
              · cases hone

theorem read_usersFile_iff {records : List UserPW} (h : ∀ record ∈ records, Encoded record.pass) :
    Auth.read (usersFile records) = .ok records ↔ ∀ record ∈ records, Spelled record.name := by
  have hrows := Csv.readAll_write_iff (f := usersFormat) (records.map UserPW.row)
  have huniform : ∀ first ∈ (records.map UserPW.row).head?, ∀ row ∈ records.map UserPW.row,
      first.length = row.length := by
    intro first hfirst row hrow
    obtain ⟨record, -, rfl⟩ := List.mem_map.mp (List.mem_of_mem_head? hfirst)
    obtain ⟨record', -, rfl⟩ := List.mem_map.mp hrow
    rfl
  have hspelled : (∀ row ∈ records.map UserPW.row, Csv.PlainRow usersFormat row) ↔
      ∀ record ∈ records, Spelled record.name := by
    rw [List.forall_mem_map]
    exact forall₂_congr fun record hrecord ↦ plainRow_iff (h record hrecord)
  rw [hspelled, and_iff_left huniform, ← toList_usersFile] at hrows
  rw [← hrows, Auth.read]
  cases hread : Csv.readAll usersFormat (usersFile records).toList with
  | error err => simp
  | ok rows =>
      dsimp only
      rw [Except.ok.injEq]
      constructor
      · exact mapM_userPW_eq_ok
      · rintro rfl
        exact mapM_userPW records

/-! ## Logins -/

/-- The command `hash` printed the line, with a hash in the alphabet of `bcrypt`. -/
def Printed (record : UserPW) : Prop :=
  ∃ readPassword generateFromPassword pass,
    (∀ password hashedPw, generateFromPassword password = .ok hashedPw → Encoded hashedPw) ∧
    hashCmd readPassword generateFromPassword record.name pass = .ok record.line

theorem Printed.encoded {record : UserPW} (h : Printed record) : Encoded record.pass := by
  obtain ⟨readPassword, generateFromPassword, pass, hencoded, hcmd⟩ := h
  obtain ⟨password, hashedPw, hgenerate, -, -, hline⟩ := line_of_hashCmd hcmd
  have hpass : record.pass = hashedPw := by
    rw [UserPW.line, UserPW.line, String.append_left_inj, String.append_right_inj] at hline
    exact hline
  exact hpass ▸ hencoded password hashedPw hgenerate

/-- The last of the lines with the name has the hash. -/
def LastLine (records : List UserPW) (user hashedPw : String) : Prop :=
  ∃ before after, records = before ++ ⟨user, hashedPw⟩ :: after ∧
    ∀ later ∈ after, later.name ≠ user

theorem lookup_users {records : List UserPW} {user hashedPw : String} :
    (GoMap.insertAll ∅ (records.map fun record ↦ (record.name, record.pass))).lookup user =
      some hashedPw ↔ LastLine records user hashedPw := by
  rw [GoMap.lookup_insertAll_empty]
  constructor
  · rintro ⟨before, after, heq, hnot⟩
    obtain ⟨before', rest, rfl, rfl, hrest⟩ := List.map_eq_append_iff.mp heq
    obtain ⟨⟨name, pass⟩, after', rfl, hrecord, rfl⟩ := List.map_eq_cons_iff.mp hrest
    obtain ⟨rfl, rfl⟩ := Prod.mk.inj hrecord
    refine ⟨before', after', rfl, fun later hlater hname ↦ hnot ?_⟩
    rw [List.map_map]
    exact List.mem_map.mpr ⟨later, hlater, hname⟩
  · rintro ⟨before, after, rfl, hnot⟩
    refine ⟨before.map fun record ↦ (record.name, record.pass),
      after.map fun record ↦ (record.name, record.pass), by simp, fun hmem ↦ ?_⟩
    rw [List.map_map] at hmem
    obtain ⟨later, hlater, hname⟩ := List.mem_map.mp hmem
    exact hnot later hlater hname

/-- What becomes of a users file that is put together from printed lines. -/
structure LogsIn (records : List UserPW) : Prop where
  /-- It is read back exactly if all names are spelled for the reader. -/
  read_iff : Auth.read (usersFile records) = .ok records ↔
    ∀ record ∈ records, Spelled record.name
  /-- Then the last line of a name decides. -/
  validate : (∀ record ∈ records, Spelled record.name) → ∀ openFile path sessionTimeout,
    path ≠ "" → openFile path = .ok (usersFile records) →
    ∃ users, readPasswordsFile openFile path sessionTimeout = .ok users ∧
      ∀ compare user password, users.validate compare user password = true ↔
        ∃ hashedPw, LastLine records user hashedPw ∧ compare hashedPw password = true

theorem hash_lines_log_in {records : List UserPW} (h : ∀ record ∈ records, Printed record) :
    LogsIn records where
  read_iff := read_usersFile_iff fun record hrecord ↦ (h record hrecord).encoded
  validate := by
    intro hspelled openFile path sessionTimeout hpath hopen
    have hread := (read_usersFile_iff fun record hrecord ↦ (h record hrecord).encoded).mpr hspelled
    refine ⟨_, by simp only [readPasswordsFile, if_neg hpath, hopen, hread]; rfl, ?_⟩
    intro compare user password
    unfold Users.validate
    simp only [← lookup_users]
    cases hlookup : GoMap.lookup (GoMap.insertAll ∅
        (records.map fun record ↦ (record.name, record.pass))) user with
    | none => simp
    | some hashedPw => simp

/-- Two lines of one user, who has a blank in the name. -/
theorem hash_lines_log_in_twice : LogsIn [⟨"ada l", "$2a$12$x/A."⟩, ⟨"ada l", "$2a$12$y"⟩] := by
  refine hash_lines_log_in (List.forall_mem_cons.mpr ⟨?_, List.forall_mem_singleton.mpr ?_⟩)
  · refine ⟨.ok "", fun _ ↦ .ok "$2a$12$x/A.", "secret", ?_, by decide⟩
    rintro password hashedPw heq
    cases heq
    decide
  · refine ⟨.ok "", fun _ ↦ .ok "$2a$12$y", "secret", ?_, by decide⟩
    rintro password hashedPw heq
    cases heq
    decide

end Screego
