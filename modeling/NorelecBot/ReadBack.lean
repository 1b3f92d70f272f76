import NorelecBot.Saves
import NorelecBot.Decimal
import Mathlib.Data.List.TakeWhile

/-! # A saved state reads back as it was

Each section of the document is found under its name, reads back by itself, and
the thirty-four of them stand where the state has them.
-/

namespace NorelecBot
open Lib

theorem assoc_of_getElem? {α : Type} {members : List (Str × α)} (hn : (members.map Prod.fst).Nodup)
    (i : ℕ) {key : Str} {value : α} (h : members[i]? = some (key, value)) :
    assoc key members = some value :=
  (assoc_eq_some_iff_mem hn key value).mpr (List.mem_of_getElem? h)

section Readers
variable {json : Json} {key : Str}

theorem required_of_find {α : Type} (read : Json → Except LoadError α) {value : Json}
    (h : json.find key = some value) : required read json key = read value := by
  cases json with
  | obj members =>
    change assoc key members = some value at h
    simp only [required, Json.member, h]
    rfl
  | _ => simp [Json.find] at h

theorem optional_of_find {α : Type} (read : Json → Except LoadError α) (absent : α) {value : Json}
    (h : json.find key = some value) : optional read absent json key = read value := by
  have hthere : json.contains key = true := by simp [Json.contains, h]
  rw [optional, if_pos hthere]
  exact required_of_find read h

theorem foldlM_integers (members : List (Str × ℤ)) (counters : Counters) :
    (members.map fun entry => (entry.1, Json.int entry.2)).foldlM (fun counters entry =>
        (integer entry.2).map (counters.emplace entry.1)) counters =
      .ok (members.foldl (fun counters entry => counters.emplace entry.1 entry.2) counters) := by
  induction members generalizing counters with
  | nil => rfl
  | cons entry members ih =>
    rw [List.map_cons, List.foldlM_cons, List.foldl_cons, ← ih]
    rfl

theorem parseCounters_of_find {counters : Counters} (h : json.find key = some (.ofCounters counters)) :
    parseCounters json key = .ok counters := by
  simp only [parseCounters, h, Json.ofCounters]
  rw [foldlM_integers, OrderedMap.foldl_emplace_entries]

theorem parseCounters_absent (h : json.find key = none) : parseCounters json key = .ok .empty := by
  rw [parseCounters, h]

theorem parseAuthors_of_find {authors : Authors} (h : json.find key = some (.ofAuthors authors)) :
    parseAuthors json key = authors := by
  rw [parseAuthors, h, Json.ofAuthors]
  simp only [List.foldl_map]
  exact OrderedMap.foldl_emplace_entries authors

theorem parseRecords_of_find {α : Type} {read : Json → Except LoadError α} {write : α → Json}
    (hreads : ReadsBack read write) (hobject : ∀ record, (write record).isObject = true)
    {records : List α} (h : json.find key = some (.arr (records.map write))) :
    parseRecords read json key = .ok records := by
  have hall : (records.map write).filter Json.isObject = records.map write := by
    rw [List.filter_eq_self]
    intro item hitem
    obtain ⟨record, _, rfl⟩ := List.mem_map.mp hitem
    exact hobject record
  simp only [parseRecords, h, hall]
  exact hreads.list records

end Readers

theorem raid_readsBack : ReadsBack readRaid Json.ofRaid := fun _ => rfl
theorem pregnancy_readsBack : ReadsBack readPregnancy Json.ofPregnancy := fun _ => rfl
theorem child_readsBack : ReadsBack readChild Json.ofChild := fun _ => rfl
theorem knock_readsBack : ReadsBack readKnock Json.ofKnock := fun _ => rfl

section Digits
variable {text : Str} (h : ∀ byte ∈ text, Text.isDigit byte = true)
include h

theorem withoutSign_digits : withoutSign text = (false, text) := by
  rw [withoutSign.eq_def]
  split
  · exact absurd (h 45 List.mem_cons_self) (by decide)
  · exact absurd (h 43 List.mem_cons_self) (by decide)
  · rfl

theorem stoul_digits (hne : text ≠ []) (hfits : Text.digitsValue text < 2 ^ 64) :
    stoul text = .ok (Text.digitsValue text) := by
  have htake : text.takeWhile Text.isDigit = text := List.takeWhile_eq_self_iff.mpr h
  rw [stoul, dropWhile_isSpace_digits h, withoutSign_digits h]
  simp only [htake]
  rw [if_neg (not_or.mpr ⟨hne, Nat.not_le.mpr hfits⟩)]
  rfl

end Digits

/-- `stoul` reads what `to_string` wrote. -/
theorem stoul_decimal {slot : ℕ} (h : slot < 2 ^ 64) : stoul (decimal slot) = .ok slot := by
  rw [stoul_digits (isDigit_decimal slot) (decimal_ne_nil slot) ((digitsValue_decimal slot).symm ▸ h),
    digitsValue_decimal]

/-- Every slot of a 🦞 is a `std::size_t`. -/
def SlotsFit (holder : Holder) : Prop := ∀ entry ∈ holder.lobsters.entries, entry.1 < 2 ^ 64

theorem foldlM_slots {entries : List (ℕ × Str)} (h : ∀ entry ∈ entries, entry.1 < 2 ^ 64)
    (lobsters : SortedMap Str) :
    (entries.map fun entry => (decimal entry.1, Json.str entry.2)).foldlM (fun lobsters entry => do
        let emoji ← entry.2.getString
        return lobsters.set (← stoul entry.1) emoji) lobsters =
      (.ok (entries.foldl (fun lobsters entry => lobsters.set entry.1 entry.2) lobsters) :
        Except LoadError (SortedMap Str)) := by
  induction entries generalizing lobsters with
  | nil => rfl
  | cons entry entries ih =>
    rw [List.map_cons, List.foldlM_cons, List.foldl_cons,
      ← ih (fun d hd => h d (List.mem_cons_of_mem entry hd)), stoul_decimal (h entry List.mem_cons_self)]
    rfl

theorem readLobsters_ofHolder {holder : Holder} (h : SlotsFit holder) :
    readLobsters (.ofHolder holder) = .ok holder.lobsters := by
  by_cases hnone : holder.lobsters.entries = []
  · have hempty : holder.lobsters = .empty := SortedMap.ext hnone
    have hfind : (Json.ofHolder holder).find (utf8 "lobsters") = none := by
      rw [Json.ofHolder, if_pos hnone]
      rfl
    rw [readLobsters, hfind, hempty]
  · have hfind : (Json.ofHolder holder).find (utf8 "lobsters") =
        some (.ofLobsters holder.lobsters) := by
      rw [Json.ofHolder, if_neg hnone]
      rfl
    simp only [readLobsters, hfind, Json.ofLobsters]
    rw [foldlM_slots h, SortedMap.foldl_set_entries]

theorem readHolder_ofHolder {holder : Holder} (h : SlotsFit holder) :
    readHolder (.ofHolder holder) = .ok holder := by
  rw [readHolder, readLobsters_ofHolder h]
  rfl

/-- Every number `stoul` takes is a `std::size_t`. -/
theorem stoul_lt (text : Str) : Ensures (fun slot => slot < 2 ^ 64) (stoul text) := by
  intro slot hslot
  unfold stoul at hslot
  dsimp only at hslot
  split at hslot
  · cases hslot
  · rename_i hfits
    rw [not_or, Nat.not_le] at hfits
    cases hslot
    split
    · exact Nat.mod_lt _ (by decide)
    · exact hfits.2

theorem readLobsters_fit (current : Json) :
    Ensures (fun lobsters => ∀ entry ∈ lobsters.entries, entry.1 < 2 ^ 64) (readLobsters current) := by
  have hempty : ∀ entry ∈ (SortedMap.empty : SortedMap Str).entries, entry.1 < 2 ^ 64 := by
    simp [SortedMap.empty]
  rw [readLobsters.eq_def]
  split
  · exact ensures_ok hempty
  · apply @ensures_foldlM _ _ _ (fun lobsters : SortedMap Str => ∀ entry ∈ lobsters.entries, entry.1 < 2 ^ 64)
      _ _ _ _ hempty
    intro lobsters entry hlobsters
    apply ensures_bind
    intro emoji _
    apply ensures_bind
    intro slot hslot
    apply ensures_ok
    intro written hwritten
    rcases mem_insertSorted hwritten with rfl | hold
    · exact stoul_lt entry.1 slot hslot
    · exact hlobsters written hold
  · intro lobsters hlobsters
    cases hlobsters

theorem readHolder_fit (current : Json) : Ensures SlotsFit (readHolder current) := by
  rw [readHolder]
  iterate 7
    apply ensures_bind
    intro _ _
  apply ensures_bind
  intro lobsters hlobsters
  exact ensures_ok (readLobsters_fit current lobsters hlobsters)

theorem parseHolder_fit (json : Json) :
    Ensures (fun current => ∀ holder, current = some holder → SlotsFit holder) (parseHolder json) := by
  rw [parseHolder.eq_def]
  split
  · exact ensures_ok (by simp)
  · exact ensures_ok (by simp)
  · rename_i current _ _
    intro parsed hparsed holder hholder
    subst hholder
    cases hread : readHolder current with
    | error reason =>
      rw [hread] at hparsed
      cases hparsed
    | ok value =>
      rw [hread] at hparsed
      cases hparsed
      exact readHolder_fit current holder hread

/-- What `parse_state` takes has no slot outside `std::size_t`. -/
theorem parseState_fit (now : ℤ) (json : Json) :
    Ensures (fun state => ∀ holder, state.current = some holder → SlotsFit holder)
      (parseState now json) := by
  rw [parseState]
  split
  · apply ensures_bind
    intro current hcurrent
    iterate 24
      apply ensures_bind
      intro _ _
    exact ensures_ok (parseHolder_fit json current hcurrent)
  · intro state hstate
    cases hstate

def stateNames : List Str := [
  utf8 "current", utf8 "scores", utf8 "quotes_added", utf8 "balloons", utf8 "cooldowns", utf8 "ids",
  utf8 "telegram_ids", utf8 "irc_names", utf8 "accounts", utf8 "display_names", utf8 "telegram_names",
  utf8 "irc_nicks", utf8 "link_requests", utf8 "raids", utf8 "quote_authors", utf8 "furniture",
  utf8 "debugging", utf8 "smeared", utf8 "welcomed", utf8 "frozen", utf8 "pregnancies", utf8 "children",
  utf8 "eggs_at", utf8 "knocks", utf8 "equipped", utf8 "split", utf8 "pugliesi", utf8 "joined",
  utf8 "guided", utf8 "entered", utf8 "invited_by", utf8 "invite_days", utf8 "invite_last_day",
  utf8 "invite_paid"]

theorem stateNames_nodup : stateNames.Nodup := by decide +kernel

section Sections
variable (state : ConquisterState)

theorem find_section (i : ℕ) {name : Str} {value : Json}
    (h : (stateMembers state)[i]? = some (name, value)) : (stateToJson state).find name = some value := by
  have hnodup : ((stateMembers state).map Prod.fst).Nodup := stateNames_nodup
  exact assoc_of_getElem? hnodup i h

theorem find_unwritten {name : Str} (h : name ∉ stateNames) : (stateToJson state).find name = none := by
  have hout : ∀ value, assoc name (stateMembers state) ≠ some value := by
    intro value hvalue
    have hnodup : ((stateMembers state).map Prod.fst).Nodup := stateNames_nodup
    have hmem := (assoc_eq_some_iff_mem hnodup name value).mp hvalue
    exact h (List.mem_map_of_mem (f := Prod.fst) hmem)
  exact Option.eq_none_iff_forall_ne_some.mpr hout

theorem counters_section (i : ℕ) {name : Str} {counters : Counters}
    (h : (stateMembers state)[i]? = some (name, .ofCounters counters)) :
    parseCounters (stateToJson state) name = .ok counters :=
  parseCounters_of_find (find_section state i h)

theorem authors_section (i : ℕ) {name : Str} {authors : Authors}
    (h : (stateMembers state)[i]? = some (name, .ofAuthors authors)) :
    parseAuthors (stateToJson state) name = authors :=
  parseAuthors_of_find (find_section state i h)

/-- No save has had timed balloons since they were retired. -/
theorem balloons_section (now : ℤ) : parseBalloons now (stateToJson state) = .ok state.balloons := by
  have hretired : parseCounters (stateToJson state) (utf8 "shields") = .ok .empty :=
    parseCounters_absent (find_unwritten state (by decide +kernel))
  rw [parseBalloons, counters_section state 3 rfl, hretired]
  rfl

theorem raids_section : parseRaids (stateToJson state) = .ok state.raids :=
  parseRecords_of_find raid_readsBack (fun _ => rfl) (find_section state 13 rfl)

theorem pregnancies_section : parsePregnancies (stateToJson state) = .ok state.pregnancies :=
  parseRecords_of_find pregnancy_readsBack (fun _ => rfl) (find_section state 20 rfl)

theorem children_section : parseChildren (stateToJson state) = .ok state.children :=
  parseRecords_of_find child_readsBack (fun _ => rfl) (find_section state 21 rfl)

theorem knocks_section : parseKnocks (stateToJson state) = .ok state.knocks :=
  parseRecords_of_find knock_readsBack (fun _ => rfl) (find_section state 23 rfl)

theorem eggs_section : optional integer 0 (stateToJson state) (utf8 "eggs_at") = .ok state.eggsAt :=
  optional_of_find integer 0 (find_section state 22 rfl)

theorem split_section :
    optional Json.getBool false (stateToJson state) (utf8 "split") = .ok state.split :=
  optional_of_find Json.getBool false (find_section state 25 rfl)

theorem holder_section (hfit : ∀ holder, state.current = some holder → SlotsFit holder) :
    parseHolder (stateToJson state) = .ok state.current := by
  have hfind : (stateToJson state).find (utf8 "current") = some (.ofCurrent state.current) :=
    find_section state 0 rfl
  cases hcurrent : state.current with
  | none =>
    rw [hcurrent] at hfind
    rw [parseHolder, hfind]
    rfl
  | some holder =>
    rw [hcurrent] at hfind
    have hread := readHolder_ofHolder (hfit holder hcurrent)
    rw [parseHolder, hfind]
    change (readHolder (.ofHolder holder)).map some = _
    rw [hread]
    rfl

end Sections

/-- A state that is written down reads back as it was, at any later time. -/
theorem parseState_stateToJson (now : ℤ) (state : ConquisterState)
    (hfit : ∀ holder, state.current = some holder → SlotsFit holder) :
    parseState now (stateToJson state) = .ok state := by
  have hobject : (stateToJson state).isObject = true := rfl
  rw [parseState, if_pos hobject, holder_section state hfit, counters_section state 1 rfl,
    counters_section state 2 rfl, balloons_section, counters_section state 4 rfl,
    counters_section state 5 rfl, counters_section state 6 rfl, counters_section state 7 rfl,
    authors_section state 8 rfl, authors_section state 9 rfl, authors_section state 10 rfl,
    authors_section state 11 rfl, authors_section state 12 rfl, raids_section,
    authors_section state 14 rfl, authors_section state 15 rfl, counters_section state 16 rfl,
    counters_section state 17 rfl, counters_section state 18 rfl, counters_section state 19 rfl,
    pregnancies_section, children_section, eggs_section, knocks_section, authors_section state 24 rfl,
    split_section, counters_section state 26 rfl, counters_section state 27 rfl,
    counters_section state 28 rfl, counters_section state 29 rfl, authors_section state 30 rfl,
    counters_section state 31 rfl, counters_section state 32 rfl, counters_section state 33 rfl]
  rfl

/-- The save format loses nothing: a state is read back as it was written, and so is what was read
from any document, be it of an older version. -/
theorem saves_read_back :
    (∀ now state, (∀ holder, state.current = some holder → SlotsFit holder) →
      parseState now (stateToJson state) = .ok state) ∧
    ∀ now later json state, parseState now json = .ok state →
      parseState later (stateToJson state) = .ok state := by
  constructor
  · exact parseState_stateToJson
  · intro now later json state hread
    exact parseState_stateToJson later state (parseState_fit now json state hread)

def savedHolder : Holder where
  userId := 7
  username := utf8 "ada"
  since := 1000
  lightningPercent := 300
  banked := 5
  lobsters := SortedMap.set (SortedMap.set .empty 12 (utf8 "⚡")) 3 (utf8 "🎈")

def savedState : ConquisterState where
  current := some savedHolder
  scores := OrderedMap.set (OrderedMap.set .empty (utf8 "ada") 12) (utf8 "bob") (-3)
  invitePaid := OrderedMap.set .empty (utf8 "bob") 1

/-- An old save: a multiplier, a timed balloon that still runs and a raid without a gift. -/
def oldSave : Json := .obj [
  (utf8 "current", .obj [(utf8 "user_id", .int 7), (utf8 "username", .str (utf8 "ada")),
    (utf8 "since", .int 1000), (utf8 "multiplier", .int 3)]),
  (utf8 "shields", .obj [(utf8 "bob", .int 5000), (utf8 "eve", .int 10)]),
  (utf8 "raids", .arr [.null, .obj [(utf8 "raider", .str (utf8 "bob")), (utf8 "target", .str (utf8 "ada")),
    (utf8 "arrive", .int 1), (utf8 "back", .int 2), (utf8 "arrived", .bool true), (utf8 "loot", .int 0)]])]

def migratedState : ConquisterState where
  current := some { userId := 7, username := utf8 "ada", since := 1000, lightningPercent := 300 }
  balloons := OrderedMap.set .empty (utf8 "bob") 0
  raids := [{ raider := utf8 "bob", target := utf8 "ada", arrive := 1, back := 2, arrived := true }]

/-- A holder with two 🦞 comes back with them, and the old save stays migrated. -/
theorem saves_read_back_sample :
    parseState 0 (stateToJson savedState) = .ok savedState ∧
    parseState 2000 oldSave = .ok migratedState ∧
    parseState 9000 (stateToJson migratedState) = .ok migratedState := by
  have hold : parseState 2000 oldSave = .ok migratedState := rfl
  have hfit : ∀ entry ∈ savedHolder.lobsters.entries, entry.1 < 2 ^ 64 := by decide
  refine ⟨saves_read_back.1 0 savedState ?_, hold, saves_read_back.2 2000 9000 oldSave migratedState hold⟩
  intro holder hholder
  cases hholder
  exact hfit

end NorelecBot
