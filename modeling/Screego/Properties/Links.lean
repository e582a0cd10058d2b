import Screego.Ui.UseRoomID
import Screego.Ws.Start

/-!
# Room links

A link leads back to its room exactly if the id is not empty and free of
delimiters and of characters that the browser encodes, and the parameters of a
query are told apart exactly if all their values are.
-/

namespace Screego

open UseRoomID

variable {b : Browser}

/-! ## One parameter -/

/-- What `getFromURL` finds in a query without its question mark. -/
def readParam (key : String) (query : List Char) : Option String :=
  lookupParam key (Strings.split (String.ofList query) '&')

theorem getFromURL_search (key url : String) :
    getFromURL key (b.search url) = readParam key (b.query (url.toList.drop 1)) := by
  have hdrop : (b.search url).toList.drop 1 = b.query (url.toList.drop 1) := by
    unfold Browser.search
    dsimp only
    split
    · next hnil => exact hnil.symm
    · simp
  rw [getFromURL, hdrop, readParam]

theorem hasPrefix_iff {s start : String} :
    Strings.hasPrefix s start ↔ start.toList <+: s.toList :=
  List.isPrefixOf_iff_prefix

theorem paramText_toList (p : String × String) (rest : List Char) :
    (paramText p).toList ++ rest = p.1.toList ++ '=' :: (p.2.toList ++ rest) := by
  simp [paramText]

/-- The parameter at the front answers for its key. -/
theorem lookupParam_self {key : String} (hkey : '=' ∉ key.toList) (value : String)
    (params : List String) : lookupParam key ((key ++ ("=" ++ value)) :: params) =
      some (String.ofList (value.toList.takeWhile (· ≠ '='))) := by
  have hstart : Strings.hasPrefix (key ++ ("=" ++ value)) (key ++ "=") = true := by
    rw [hasPrefix_iff]
    exact ⟨value.toList, by simp⟩
  obtain ⟨tail, htail⟩ := Strings.split_eq_cons value '='
  have hsplit : Strings.split (key ++ ("=" ++ value)) '=' = key :: Strings.split value '=' :=
    Strings.split_append hkey
  rw [lookupParam, List.find?_cons, hstart, Option.bind_some, hsplit, htail]
  rfl

/-- A parameter with another key is passed over. -/
theorem lookupParam_of_ne {key key' : String} (hkey : '=' ∉ key.toList) (hkey' : '=' ∉ key'.toList)
    (hne : key ≠ key') (value : String) (params : List String) :
    lookupParam key ((key' ++ ("=" ++ value)) :: params) = lookupParam key params := by
  have hstart : Strings.hasPrefix (key' ++ ("=" ++ value)) (key ++ "=") = false := by
    refine eq_false_of_ne_true fun hstart ↦ hne (String.toList_injective ?_)
    obtain ⟨rest, hrest⟩ := hasPrefix_iff.mp hstart
    -- both keys end at the first equals sign
    calc key.toList = (key.toList ++ '=' :: rest).takeWhile (· ≠ '=') :=
          (Strings.takeWhile_append hkey rest).symm
      _ = (key'.toList ++ '=' :: value.toList).takeWhile (· ≠ '=') := by
          rw [show key.toList ++ '=' :: rest = key'.toList ++ '=' :: value.toList by
            simpa using hrest]
      _ = key'.toList := Strings.takeWhile_append hkey' _
  rw [lookupParam, List.find?_cons, hstart]
  rfl

/-- The parameter at the front of a query is read up to the next delimiter. -/
theorem readParam_self {key : String} (hkey : b.Plain key) (value : String) (rest : List Char) :
    readParam key (b.query ((paramText (key, value)).toList ++ rest)) =
      some (String.ofList (b.read value.toList rest)) := by
  obtain ⟨hand, hequals⟩ := hkey.notMem
  set text := b.query (value.toList ++ rest) with htext
  have hquery : b.query ((paramText (key, value)).toList ++ rest) = key.toList ++ '=' :: text := by
    rw [paramText_toList, query_append hkey, query_delimiter (Or.inr rfl)]
  have hfirst : (key.toList ++ '=' :: text).takeWhile (· ≠ '&') =
      key.toList ++ '=' :: text.takeWhile (· ≠ '&') := by
    have hkept : ∀ c ∈ key.toList, decide (c ≠ '&') = true :=
      fun c hc ↦ decide_eq_true (hkey c hc).1
    rw [List.takeWhile_append_of_pos hkept]
    simp
  obtain ⟨tail, htail⟩ := Strings.split_eq_cons (String.ofList (key.toList ++ '=' :: text)) '&'
  have hpiece : String.ofList (key.toList ++ '=' :: text.takeWhile (· ≠ '&')) =
      key ++ ("=" ++ String.ofList (text.takeWhile (· ≠ '&'))) :=
    String.toList_injective (by simp)
  rw [hquery, readParam, htail, String.toList_ofList, hfirst, hpiece, lookupParam_self hequals,
    String.toList_ofList]
  rfl

/-- A plain parameter at the front does not come in the way of another key. -/
theorem readParam_of_ne {key : String} {p : String × String} (hkey : b.Plain key)
    (hp : b.Plain p.1) (hvalue : b.Plain p.2) (hne : key ≠ p.1) (rest : List Char) :
    readParam key (b.query ((paramText p).toList ++ '&' :: rest)) =
      readParam key (b.query rest) := by
  have hquery : b.query ((paramText p).toList ++ '&' :: rest) =
      (paramText p).toList ++ '&' :: b.query rest := by
    rw [paramText_toList, query_append hp, query_delimiter (Or.inr rfl), query_append hvalue,
      query_delimiter (Or.inl rfl), paramText_toList]
  have hand : '&' ∉ (paramText p).toList := by
    simp [paramText, hp.notMem.1, hvalue.notMem.1]
  have hsplit : Strings.split (String.ofList ((paramText p).toList ++ '&' :: b.query rest)) '&' =
      paramText p :: Strings.split (String.ofList (b.query rest)) '&' := by
    rw [← Strings.split_append hand]
    exact congrArg (Strings.split · '&') (String.toList_injective (by simp))
  rw [hquery, readParam, hsplit]
  exact lookupParam_of_ne hkey.notMem.2 hp.notMem.2 hne _ _

/-! ## Whole queries -/

/-- The text of a query without its question mark. -/
def paramsText (params : List (String × String)) : List Char :=
  (String.intercalate "&" (params.map paramText)).toList

theorem paramsText_cons (p : String × String) (params : List (String × String)) :
    paramsText (p :: params) = (paramText p).toList ++
      if params = [] then [] else '&' :: paramsText params := by
  unfold paramsText
  split
  · next hnil => simp [hnil]
  · next hne =>
      rw [List.map_cons, String.intercalate_cons_of_ne_nil (by simpa using hne)]
      simp

/-- All the values are read back exactly if all of them are plain. -/
theorem readParam_iff {params : List (String × String)} (hnodup : (params.map Prod.fst).Nodup)
    (hkeys : ∀ p ∈ params, b.Plain p.1) :
    (∀ p ∈ params, readParam p.1 (b.query (paramsText params)) = some p.2) ↔
      ∀ p ∈ params, b.Plain p.2 := by
  induction params with
  | nil => simp
  | cons p params ih =>
      obtain ⟨hkey, hkeys⟩ := List.forall_mem_cons.mp hkeys
      obtain ⟨hnew, hnodup⟩ := List.nodup_cons.mp hnodup
      have hhead : readParam p.1 (b.query (paramsText (p :: params))) = some p.2 ↔
          b.Plain p.2 := by
        have hrest : (if params = [] then [] else '&' :: paramsText params) = [] ∨
            ∃ tail, (if params = [] then [] else '&' :: paramsText params) = '&' :: tail := by
          by_cases hnil : params = []
          · exact Or.inl (if_pos hnil)
          · exact Or.inr ⟨_, if_neg hnil⟩
        rw [paramsText_cons, readParam_self hkey, Option.some.injEq, ← String.toList_inj,
          String.toList_ofList, read_eq_iff hrest]
        rfl
      rw [List.forall_mem_cons, List.forall_mem_cons, hhead, ← ih hnodup hkeys]
      refine and_congr_right fun hvalue ↦ forall₂_congr fun q hq ↦ ?_
      have hne : params ≠ [] := List.ne_nil_of_mem hq
      have hother : q.1 ≠ p.1 := fun heq ↦ hnew (heq ▸ List.mem_map_of_mem hq)
      rw [paramsText_cons, if_neg hne, readParam_of_ne (hkeys q hq) hkey hvalue hother]

/-! ## The links of the program -/

/-- The keys that the page reads. -/
def keys : List String := ["create", "closeOnOwnerLeave", "room"]

theorem plain_of_mem_keys (b : Browser) {key : String} (h : key ∈ keys) : b.Plain key := by
  have hletters : key.toList.all
      (fun c ↦ decide (c.isAlphanum ∧ c ≠ '&' ∧ c ≠ '=' ∧ c ≠ '#')) = true := by
    revert key
    decide
  intro c hc
  obtain ⟨hletter, hand, hequals, hhash⟩ := of_decide_eq_true (List.all_eq_true.mp hletters c hc)
  exact ⟨hand, hequals, hhash, b.keeps c (Or.inl hletter)⟩

theorem room_link_iff (b : Browser) (id : String) :
    getFromURL "room" (b.search (roomURL (some id))) = some id ↔ id ≠ "" ∧ b.Plain id := by
  by_cases hempty : id = ""
  · subst hempty
    refine iff_of_false ?_ (by simp)
    intro hread
    cases hread
  · have hone : roomURL (some id) = queryURL [("room", id)] := by
      refine (if_neg hempty).trans (String.toList_injective ?_)
      simp [queryURL, paramText]
    have hdrop : (queryURL [("room", id)]).toList.drop 1 = paramsText [("room", id)] := by
      simp [queryURL, paramsText]
    have hkey : ∀ p ∈ [("room", id)], b.Plain p.1 :=
      List.forall_mem_singleton.mpr (plain_of_mem_keys b (by simp [keys]))
    have hiff := readParam_iff (by simp) hkey
    rw [List.forall_mem_singleton, List.forall_mem_singleton] at hiff
    rw [hone, getFromURL_search, hdrop, hiff, and_iff_right hempty]

/-- For a link, and for a query of parameters, exactly the plain values come back. -/
theorem links_round_trip_iff (b : Browser) :
    (∀ id, getFromURL "room" (b.search (roomURL (some id))) = some id ↔ id ≠ "" ∧ b.Plain id) ∧
    ∀ params : List (String × String), (params.map Prod.fst).Nodup →
      (∀ p ∈ params, p.1 ∈ keys) →
      ((∀ p ∈ params, getFromURL p.1 (b.search (queryURL params)) = some p.2) ↔
        ∀ p ∈ params, b.Plain p.2) := by
  refine ⟨room_link_iff b, fun params hnodup hkeys ↦ ?_⟩
  have hdrop : (queryURL params).toList.drop 1 = paramsText params := by
    simp [queryURL, paramsText]
  rw [← readParam_iff hnodup fun p hp ↦ plain_of_mem_keys b (hkeys p hp)]
  simp only [getFromURL_search, hdrop]

/-- The characters that browsers encode in the query of a page.  Tabs and line ends among them, and
blanks at the end of an address, are taken out instead: they do not come back either. -/
def specialQuery (c : Char) : Bool :=
  c.toNat ≤ 0x20 ∨ 0x7e < c.toNat ∨ c ∈ ['\"', '#', '<', '>', '\'']

theorem specialQuery_keeps (c : Char)
    (h : c.isAlphanum ∨ c = '&' ∨ c = '=' ∨ c = '%') : specialQuery c = false := by
  rcases h with h | rfl | rfl | rfl
  · have hletter : (48 ≤ c.toNat ∧ c.toNat ≤ 57) ∨ (65 ≤ c.toNat ∧ c.toNat ≤ 90) ∨
        (97 ≤ c.toNat ∧ c.toNat ≤ 122) := by
      change ((decide (c.val ≥ 65 ∧ c.val ≤ 90) || decide (c.val ≥ 97) && decide (c.val ≤ 122)) ||
        decide (c.val ≥ 48) && decide (c.val ≤ 57)) = true at h
      simp only [Bool.or_eq_true, Bool.and_eq_true, decide_eq_true_eq, ge_iff_le,
        UInt32.le_iff_toNat_le] at h
      simp only [Char.toNat]
      rcases h with (h | h) | h
      · exact Or.inr (Or.inl h)
      · exact Or.inr (Or.inr h)
      · exact Or.inl h
    have hother : ['\"', '#', '<', '>', '\''].all
        (fun d ↦ decide (¬ ((48 ≤ d.toNat ∧ d.toNat ≤ 57) ∨ (65 ≤ d.toNat ∧ d.toNat ≤ 90) ∨
          (97 ≤ d.toNat ∧ d.toNat ≤ 122)))) = true := by
      decide
    refine decide_eq_false ?_
    rintro (hlow | hhigh | hmem)
    · omega
    · omega
    · exact of_decide_eq_true (List.all_eq_true.mp hother c hmem) hletter
  · decide
  · decide
  · decide

def standardBrowser : Browser := ⟨specialQuery, specialQuery_keeps⟩

theorem links_round_trip_lobby :
    getFromURL "room" (standardBrowser.search (roomURL (some "lobby"))) = some "lobby" ∧
    ∀ p ∈ [("room", "lobby"), ("create", "true")],
      getFromURL p.1 (standardBrowser.search (queryURL [("room", "lobby"), ("create", "true")])) =
        some p.2 := by
  refine ⟨((links_round_trip_iff standardBrowser).1 "lobby").mpr (by decide +kernel),
    ((links_round_trip_iff standardBrowser).2 _ (by decide) (by decide)).mpr (by decide +kernel)⟩

/-- A room is created under an id with an ampersand, and its link leads to another one. -/
theorem links_round_trip_fails : ¬ ∀ t, (machine (Env.sample authModeNone)
    (.internal ⟨∅⟩)).Reachable t → ∀ r room, t.rooms.rooms.lookup r = some room →
    getFromURL "room" (standardBrowser.search (roomURL (some r))) = some r := by
  intro h
  have hroom : ((System.after (Env.sample authModeNone) (.internal ⟨∅⟩) (arrivals ++
      [.receive (guest 0) (.create ⟨"R&D", "local", false, "", true⟩)])).rooms.rooms.lookup
        "R&D").isSome := by
    decide +kernel
  obtain ⟨room, hroom⟩ := Option.isSome_iff_exists.mp hroom
  have hread := h _ (System.reachable_after _ _ _) "R&D" room hroom
  exact absurd hread (by decide +kernel)

end Screego
