import NorelecBot.Decimal
import NorelecBot.Lib.Fading
import NorelecBot.Watch.Save

/-! # The pulse of the group

How many messages, how much laughter and which parts of the game come up in the
chats, beside what the game does, five minutes at a time. Never a word or a name:
what is said is only counted, and forgotten at once. It remembers ninety days.
-/

namespace NorelecBot
open Lib Watch

def bucketSeconds : ℤ := 5 * 60

def pulseSeconds : ℤ := 90 * 24 * 60 * 60

def holds (text word : Str) : Bool := text.tails.any fun rest => word.isPrefixOf rest

def lowered (text : Str) : Str := text.map Text.toLower

structure Topic where
  name : Str
  words : List Str

def topicsNamed : List Topic :=
  [⟨utf8 "raid", [utf8 "raid", utf8 "rubat", utf8 "rubar", utf8 "razzi"]⟩,
    ⟨utf8 "conquister", [utf8 "conquister", utf8 "posto", utf8 "entrat", utf8 "entrar"]⟩,
    ⟨utf8 "balloon", [utf8 "🎈", utf8 "palloncin", utf8 "pallonc", utf8 "bucat"]⟩,
    ⟨utf8 "ice", [utf8 "🧊", utf8 "ghiacci", utf8 "congel", utf8 "frozen"]⟩,
    ⟨utf8 "bomb", [utf8 "💣", utf8 "bomba", utf8 "esplos", utf8 "☢"]⟩,
    ⟨utf8 "poo", [utf8 "💩", utf8 "smerd", utf8 "cacca", utf8 "merda"]⟩,
    ⟨utf8 "shop", [utf8 "/buy", utf8 "compr", utf8 "negozio", utf8 "costa"]⟩,
    ⟨utf8 "palle", [utf8 "palle", utf8 "palla", utf8 "punti", utf8 "classifica"]⟩,
    ⟨utf8 "children", [utf8 "💦", utf8 "figli", utf8 "bambin", utf8 "nato"]⟩,
    ⟨utf8 "zodiac", [utf8 "zodiac", utf8 "segno", utf8 "oroscop", utf8 "pianet"]⟩,
    ⟨utf8 "bot", [utf8 "script", utf8 "automat", utf8 "bot ", utf8 "barare"]⟩,
    ⟨utf8 "rules", [utf8 "regol", utf8 "aggiorn", utf8 "novità", utf8 "cambiat"]⟩]

def laughter : List Str :=
  [utf8 "ahah", utf8 "haha", utf8 "ahha", utf8 "jaja", utf8 "lol", utf8 "xd", utf8 "😂", utf8 "🤣", utf8 "😆", utf8 "😹",
    utf8 "💀"]

def laughs (text : Str) : Bool := laughter.any fun laugh => holds (lowered text) laugh

def topics (text : Str) : List Str :=
  let low := lowered text ++ utf8 " "
  (topicsNamed.filter fun topic => topic.words.any fun word => word ≠ [] && holds low word).map Topic.name

structure Pulse where
  buckets : KeyMap ℤ (KeyMap Str ℤ) := .empty

/-- The stretch of a time, as the division of `std::int64_t` rounds. -/
def bucketOf (now : ℤ) : ℤ := now.tdiv bucketSeconds * bucketSeconds

/-- Whatever is older than it remembers goes, a stretch at a time. -/
def Pulse.count (pulse : Pulse) (what : Str) (now : ℤ) : Pulse where
  buckets := (pulse.buckets.alter (bucketOf now) fun found =>
    (found.getD .empty).alter what fun n => n.getD 0 + 1).dropBefore (now - pulseSeconds)

def Pulse.message (pulse : Pulse) (platform text : Str) (now : ℤ) : Pulse :=
  let pulse := pulse.count (utf8 "messages:" ++ platform) now
  let pulse := if laughs text then pulse.count (utf8 "laughs:" ++ platform) now else pulse
  (topics text).foldl (fun pulse topic => pulse.count (utf8 "topic:" ++ topic) now) pulse

def Pulse.event (pulse : Pulse) (kind : Str) (now : ℤ) : Pulse := pulse.count (utf8 "event:" ++ kind) now

def Pulse.at' (pulse : Pulse) (now : ℤ) : KeyMap Str ℤ := (pulse.buckets.find (bucketOf now)).getD .empty

/-- `std::stoll` -/
def stoll (text : Str) : Option ℤ :=
  let rest := text.dropWhile Text.isSpace
  let signed := rest.head? = some 45 || rest.head? = some 43
  let digits := (if signed then rest.tail else rest).takeWhile Text.isDigit
  if digits = [] then none
  else
    let value : ℤ := if rest.head? = some 45 then -Text.digitsValue digits else Text.digitsValue digits
    if value < -2 ^ 63 ∨ 2 ^ 63 ≤ value then none else some value

def countsJson (counts : KeyMap Str ℤ) : Json := .obj (counts.entries.map fun entry => (entry.1, .int entry.2))

def Pulse.save (pulse : Pulse) : Json :=
  .obj (byKey (pulse.buckets.entries.map fun entry => (decimal entry.1, countsJson entry.2)))

def readCounts (json : Json) : Except LoadError (KeyMap Str ℤ) := do
  let members ← getMembers json
  let counts ← members.mapM fun entry => (getInt entry.2).map (Prod.mk entry.1)
  return counts.foldl (fun counts entry => counts.set entry.1 entry.2) .empty

/-- The items the library goes through, with their keys. -/
def itemsOf : Json → List (Str × Json)
  | .obj members => members
  | .arr items => items.mapIdx fun place item => (decimal place, item)
  | .null => []
  | json => [([], json)]

def readBucket (item : Str × Json) : Option (ℤ × KeyMap Str ℤ) := do
  let counts ← (readCounts item.2).toOption
  let bucket ← stoll item.1
  return (bucket, counts)

def loadBuckets (buckets : KeyMap ℤ (KeyMap Str ℤ)) : List (Str × Json) → KeyMap ℤ (KeyMap Str ℤ)
  | [] => buckets
  | item :: items =>
    match readBucket item with
    | some (bucket, counts) => loadBuckets (buckets.set bucket counts) items
    | none => buckets

def Pulse.load (pulse : Pulse) (saved : Json) : Pulse where
  buckets := loadBuckets pulse.buckets (itemsOf saved)

theorem decimal_natCast_ne (value : ℕ) : (decimal value).head? ≠ some 45 ∧ (decimal value).head? ≠ some 43 := by
  constructor
  · intro hhead
    exact absurd (isDigit_decimal value 45 (List.mem_of_head? hhead)) (by decide)
  · intro hhead
    exact absurd (isDigit_decimal value 43 (List.mem_of_head? hhead)) (by decide)

theorem decimal_neg {value : ℕ} (h : 0 < value) : decimal (-value) = 45 :: decimal value := by
  have hneg : (-(value : ℤ)) < 0 := by omega
  have hpos : ¬ ((value : ℤ) < 0) := by omega
  rw [decimal, if_pos hneg, decimal, if_neg hpos, Int.natAbs_neg]
  rfl

theorem stoll_decimal {value : ℤ} (hlow : -2 ^ 63 ≤ value) (hhigh : value < 2 ^ 63) : stoll (decimal value) = some value := by
  have hall (number : ℕ) : (decimal number).takeWhile Text.isDigit = decimal number :=
    List.takeWhile_eq_self_iff.mpr (isDigit_decimal number)
  rcases Int.eq_nat_or_neg value with ⟨number, rfl | rfl⟩
  · obtain ⟨hminus, hplus⟩ := decimal_natCast_ne number
    rw [stoll, dropWhile_isSpace_digits (isDigit_decimal number)]
    simp [hminus, hplus, hall, decimal_ne_nil, digitsValue_decimal]
    omega
  · rcases Nat.eq_zero_or_pos number with rfl | hpos
    · decide
    · have hspace : (45 :: decimal number).dropWhile Text.isSpace = 45 :: decimal number := rfl
      rw [decimal_neg hpos, stoll, hspace]
      simp [hall, decimal_ne_nil, digitsValue_decimal]
      omega

theorem mapM_getInt (members : List (Str × ℤ)) :
    (members.map fun entry => (entry.1, Json.int entry.2)).mapM
        (fun entry => (getInt entry.2).map (Prod.mk entry.1)) = .ok members := by
  induction members with
  | nil => rfl
  | cons entry members ih =>
    rw [List.map_cons, List.mapM_cons, ih]
    rfl

theorem readCounts_json (counts : KeyMap Str ℤ) : readCounts (countsJson counts) = .ok counts := by
  have hcounts := mapM_getInt counts.entries
  simp only [readCounts, countsJson, getMembers, bind, Except.bind, hcounts]
  exact congrArg Except.ok counts.foldl_set_entries

def bucketJson (entry : ℤ × KeyMap Str ℤ) : Str × Json := (decimal entry.1, countsJson entry.2)

theorem readBucket_json {entry : ℤ × KeyMap Str ℤ} (hlow : -2 ^ 63 ≤ entry.1) (hhigh : entry.1 < 2 ^ 63) :
    readBucket (bucketJson entry) = some entry := by
  rw [readBucket, bucketJson, readCounts_json, stoll_decimal hlow hhigh]
  rfl

theorem loadBuckets_eq {buckets : KeyMap ℤ (KeyMap Str ℤ)} {items : List (Str × Json)}
    (h : ∀ item ∈ items, (readBucket item).isSome = true) :
    loadBuckets buckets items =
      (items.filterMap readBucket).foldl (fun buckets entry => buckets.set entry.1 entry.2) buckets := by
  induction items generalizing buckets with
  | nil => rfl
  | cons item items ih =>
    obtain ⟨hitem, hitems⟩ := List.forall_mem_cons.mp h
    obtain ⟨entry, hread⟩ := Option.isSome_iff_exists.mp hitem
    rw [loadBuckets, List.filterMap_cons, hread]
    exact ih hitems

/-- Every stretch has a number of 64 bits. -/
def InRange (buckets : KeyMap ℤ (KeyMap Str ℤ)) : Prop :=
  ∀ bucket counts, buckets.find bucket = some counts → -2 ^ 63 ≤ bucket ∧ bucket < 2 ^ 63

theorem Pulse.load_save {pulse : Pulse} (hrange : InRange pulse.buckets) : ({} : Pulse).load pulse.save = pulse := by
  have h : ∀ entry ∈ pulse.buckets.entries, -2 ^ 63 ≤ entry.1 ∧ entry.1 < 2 ^ 63 :=
    fun entry hentry => hrange entry.1 entry.2 (KeyMap.find_eq_some.mpr hentry)
  have hperm : (byKey (pulse.buckets.entries.map bucketJson)).Perm (pulse.buckets.entries.map bucketJson) :=
    List.perm_insertionSort _ _
  have hread : (pulse.buckets.entries.map bucketJson).filterMap readBucket = pulse.buckets.entries := by
    rw [List.filterMap_map]
    have hsome : ∀ entry ∈ pulse.buckets.entries, (readBucket ∘ bucketJson) entry = some entry :=
      fun entry hentry => readBucket_json (h entry hentry).1 (h entry hentry).2
    rw [List.filterMap_congr hsome, List.filterMap_some]
  have hgood : ∀ item ∈ byKey (pulse.buckets.entries.map bucketJson), (readBucket item).isSome = true := by
    intro item hitem
    obtain ⟨entry, hentry, rfl⟩ := List.mem_map.mp (hperm.mem_iff.mp hitem)
    rw [readBucket_json (h entry hentry).1 (h entry hentry).2]
    rfl
  have hload : loadBuckets .empty (byKey (pulse.buckets.entries.map bucketJson)) = pulse.buckets := by
    have hsame := hperm.filterMap readBucket
    rw [hread] at hsame
    rw [loadBuckets_eq hgood]
    exact KeyMap.foldl_set_perm hsame
  exact congrArg Pulse.mk hload

inductive Counted where
  | messages (platform : Str)
  | laughs (platform : Str)
  | topic (name : Str)
  | event (kind : Str)
  deriving DecidableEq, Repr

def Counted.key : Counted → Str
  | .messages platform => utf8 "messages:" ++ platform
  | .laughs platform => utf8 "laughs:" ++ platform
  | .topic name => utf8 "topic:" ++ name
  | .event kind => utf8 "event:" ++ kind

def Counted.first : Counted → UInt8
  | .messages _ => 109
  | .laughs _ => 108
  | .topic _ => 116
  | .event _ => 101

theorem Counted.head?_key (counted : Counted) : counted.key.head? = some counted.first := by cases counted <;> rfl

theorem Counted.key_injective : Function.Injective Counted.key := by
  intro one other h
  have hhead := one.head?_key
  rw [h, other.head?_key] at hhead
  cases one <;> cases other <;> simp_all [Counted.key, Counted.first]

/-- What the pulse is told, and the bot stopped and started again. -/
inductive Noted where
  | message (platform text : Str) (now : ℤ)
  | event (kind : Str) (now : ℤ)
  | restart
  deriving DecidableEq, Repr

def Pulse.note (pulse : Pulse) : Noted → Pulse
  | .message platform text now => pulse.message platform text now
  | .event kind now => pulse.event kind now
  | .restart => ({} : Pulse).load pulse.save

def Pulse.noteAll (pulse : Pulse) (notes : List Noted) : Pulse := notes.foldl Pulse.note pulse

def Noted.time : Noted → Option ℤ
  | .message _ _ now => some now
  | .event _ now => some now
  | .restart => none

def Noted.counts : Noted → List Counted
  | .message platform text _ =>
    .messages platform :: (if laughs text then [.laughs platform] else []) ++ (topics text).map Counted.topic
  | .event kind _ => [.event kind]
  | .restart => []

def Noted.beats (note : Noted) : List (Fading.Beat ℤ Str) :=
  note.time.toList.flatMap fun now => note.counts.map fun counted => ⟨bucketOf now, counted.key, now - pulseSeconds⟩

theorem count_buckets (pulse : Pulse) (what : Str) (now : ℤ) :
    (pulse.count what now).buckets = Fading.beat pulse.buckets ⟨bucketOf now, what, now - pulseSeconds⟩ := rfl

theorem countTopics_buckets (pulse : Pulse) (names : List Str) (now : ℤ) :
    (names.foldl (fun pulse topic => pulse.count (utf8 "topic:" ++ topic) now) pulse).buckets =
      Fading.beatAll pulse.buckets
        (names.map fun name => ⟨bucketOf now, (Counted.topic name).key, now - pulseSeconds⟩) := by
  induction names generalizing pulse with
  | nil => rfl
  | cons name names ih => exact ih (pulse.count (utf8 "topic:" ++ name) now)

theorem note_buckets {pulse : Pulse} (hrange : InRange pulse.buckets) (note : Noted) :
    (pulse.note note).buckets = Fading.beatAll pulse.buckets note.beats := by
  cases note with
  | message platform text now =>
    rw [Pulse.note, Pulse.message]
    by_cases hlaughs : laughs text = true
    · simp [countTopics_buckets, Noted.beats, Noted.time, Noted.counts, hlaughs, Fading.beatAll, count_buckets,
        Counted.key, Function.comp_def]
    · simp [countTopics_buckets, Noted.beats, Noted.time, Noted.counts, hlaughs, Fading.beatAll, count_buckets,
        Counted.key, Function.comp_def]
  | event kind now => rfl
  | restart => exact congrArg Pulse.buckets (Pulse.load_save hrange)

/-- A time of 64 bits has a stretch of 64 bits. -/
theorem bucketOf_inRange {now : ℤ} (hlow : -2 ^ 63 ≤ now) (hhigh : now < 2 ^ 63) :
    -2 ^ 63 ≤ bucketOf now ∧ bucketOf now < 2 ^ 63 := by
  rw [bucketOf, Int.tdiv_eq_ediv, bucketSeconds]
  split
  · omega
  · have hneg : now < 0 := by omega
    have hsign : Int.sign (5 * 60) = 1 := rfl
    omega

theorem beat_inRange {buckets : KeyMap ℤ (KeyMap Str ℤ)} (h : InRange buckets) {beat : Fading.Beat ℤ Str}
    (hbeat : -2 ^ 63 ≤ beat.stretch ∧ beat.stretch < 2 ^ 63) : InRange (Fading.beat buckets beat) := by
  intro bucket counts hfind
  rw [Fading.beat, KeyMap.find_dropBefore, KeyMap.find_alter] at hfind
  by_cases hold : bucket < beat.oldest
  · simp [hold] at hfind
  · by_cases hsame : bucket = beat.stretch
    · exact hsame ▸ hbeat
    · rw [if_neg hold, if_neg hsame] at hfind
      exact h bucket counts hfind

theorem beatAll_inRange {buckets : KeyMap ℤ (KeyMap Str ℤ)} (h : InRange buckets)
    {beats : List (Fading.Beat ℤ Str)} (hbeats : ∀ beat ∈ beats, -2 ^ 63 ≤ beat.stretch ∧ beat.stretch < 2 ^ 63) :
    InRange (Fading.beatAll buckets beats) := by
  induction beats generalizing buckets with
  | nil => exact h
  | cons beat beats ih =>
    obtain ⟨hbeat, hothers⟩ := List.forall_mem_cons.mp hbeats
    exact ih (beat_inRange h hbeat) hothers

theorem mem_beats {note : Noted} {beat : Fading.Beat ℤ Str} :
    beat ∈ note.beats ↔ ∃ now counted, note.time = some now ∧ counted ∈ note.counts ∧
      beat = ⟨bucketOf now, counted.key, now - pulseSeconds⟩ := by
  simp [Noted.beats, eq_comm]

/-- Every time of a run is a number of 64 bits. -/
def Timely (notes : List Noted) : Prop := ∀ now ∈ notes.filterMap Noted.time, -2 ^ 63 ≤ now ∧ now < 2 ^ 63

theorem noteAll_buckets {pulse : Pulse} (hrange : InRange pulse.buckets) {notes : List Noted} (htimely : Timely notes) :
    (pulse.noteAll notes).buckets = Fading.beatAll pulse.buckets (notes.flatMap Noted.beats) := by
  induction notes generalizing pulse with
  | nil => rfl
  | cons note notes ih =>
    have hnote := note_buckets hrange note
    have hbeats : ∀ beat ∈ note.beats, -2 ^ 63 ≤ beat.stretch ∧ beat.stretch < 2 ^ 63 := by
      intro beat hbeat
      obtain ⟨now, counted, htime, -, rfl⟩ := mem_beats.mp hbeat
      have hnow := htimely now (List.mem_filterMap.mpr ⟨note, List.mem_cons_self, htime⟩)
      exact bucketOf_inRange hnow.1 hnow.2
    have hstill : InRange (pulse.note note).buckets := by
      have hkept := beatAll_inRange hrange hbeats
      rw [← hnote] at hkept
      exact hkept
    have hothers : Timely notes := by
      intro now hnow
      obtain ⟨other, hother, htime⟩ := List.mem_filterMap.mp hnow
      exact htimely now (List.mem_filterMap.mpr ⟨other, List.mem_cons_of_mem note hother, htime⟩)
    have hrest := ih hstill hothers
    rw [Pulse.noteAll, List.foldl_cons, ← Pulse.noteAll, hrest, hnote, List.flatMap_cons, Fading.beatAll, Fading.beatAll,
      Fading.beatAll, List.foldl_append]

theorem nodup_topics (text : Str) : (topics text).Nodup := by
  have hall : (topicsNamed.map Topic.name).Nodup := by decide +kernel
  exact hall.sublist (List.filter_sublist.map Topic.name)

theorem nodup_counts (note : Noted) : note.counts.Nodup := by
  cases note with
  | message platform text now =>
    have htopics : ((topics text).map Counted.topic).Nodup :=
      (nodup_topics text).map fun _ _ h => Counted.topic.inj h
    rw [Noted.counts]
    by_cases hlaughs : laughs text = true
    · simp [hlaughs, htopics]
    · simp [hlaughs, htopics]
  | event kind now => simp [Noted.counts]
  | restart => simp [Noted.counts]

def Noted.countsAt (note : Noted) (counted : Counted) (now : ℤ) : Bool :=
  counted ∈ note.counts && note.time.any fun time => bucketOf time = bucketOf now

theorem often_beats (note : Noted) (counted : Counted) (now : ℤ) :
    Fading.often note.beats (bucketOf now) counted.key = if note.countsAt counted now then 1 else 0 := by
  rw [Noted.countsAt, Noted.beats]
  cases htime : note.time with
  | none => simp [Fading.often]
  | some time =>
    have hkey (other : Counted) : other.key = counted.key ↔ other = counted := Counted.key_injective.eq_iff
    by_cases hsame : bucketOf time = bucketOf now
    · have hcount : note.counts.countP (fun other => decide (other = counted)) = if counted ∈ note.counts then 1 else 0 :=
        (nodup_counts note).count
      simpa [Fading.often, hsame, List.countP_map, Function.comp_def, hkey] using hcount
    · simp [Fading.often, hsame]

theorem often_flatMap (notes : List Noted) (counted : Counted) (now : ℤ) :
    Fading.often (notes.flatMap Noted.beats) (bucketOf now) counted.key =
      notes.countP fun note => note.countsAt counted now := by
  induction notes with
  | nil => rfl
  | cons note notes ih =>
    have happend : Fading.often (note.beats ++ notes.flatMap Noted.beats) (bucketOf now) counted.key =
        Fading.often note.beats (bucketOf now) counted.key +
          Fading.often (notes.flatMap Noted.beats) (bucketOf now) counted.key := List.countP_append
    rw [List.flatMap_cons, happend, ih, often_beats, List.countP_cons, Nat.add_comm]

/-- Whatever is told at a time counts something. -/
theorem counts_of_time {note : Noted} {now : ℤ} (h : note.time = some now) : ∃ counted, counted ∈ note.counts := by
  cases note with
  | message platform text at' => exact ⟨.messages platform, List.mem_cons_self⟩
  | event kind at' => exact ⟨.event kind, List.mem_cons_self⟩
  | restart => cases h

theorem forgotten_iff (notes : List Noted) (now : ℤ) :
    Fading.Forgotten (notes.flatMap Noted.beats) (bucketOf now) ↔
      ∃ time ∈ notes.filterMap Noted.time, bucketOf now < time - pulseSeconds := by
  constructor
  · rintro ⟨beat, hbeat, hold⟩
    obtain ⟨note, hnote, hthis⟩ := List.mem_flatMap.mp hbeat
    obtain ⟨time, counted, htime, -, rfl⟩ := mem_beats.mp hthis
    exact ⟨time, List.mem_filterMap.mpr ⟨note, hnote, htime⟩, hold⟩
  · rintro ⟨time, hin, hold⟩
    obtain ⟨note, hnote, htime⟩ := List.mem_filterMap.mp hin
    obtain ⟨counted, hcounted⟩ := counts_of_time htime
    exact ⟨_, List.mem_flatMap.mpr ⟨note, hnote, mem_beats.mpr ⟨time, counted, htime, hcounted, rfl⟩⟩, hold⟩

theorem pairwise_beats {notes : List Noted} (h : (notes.filterMap Noted.time).Pairwise (· ≤ ·)) :
    (notes.flatMap Noted.beats).Pairwise fun one other => ¬ other.oldest < one.oldest := by
  rw [List.pairwise_flatMap]
  constructor
  · intro note _
    apply List.pairwise_of_forall_mem_list
    intro one hone other hother
    obtain ⟨now, counted, htime, -, rfl⟩ := mem_beats.mp hone
    obtain ⟨now', counted', htime', -, rfl⟩ := mem_beats.mp hother
    obtain rfl := Option.some.inj (htime.symm.trans htime')
    exact lt_irrefl _
  · apply (List.pairwise_filterMap.mp h).imp
    intro note later hle one hone other hother
    obtain ⟨now, counted, htime, -, rfl⟩ := mem_beats.mp hone
    obtain ⟨now', counted', htime', -, rfl⟩ := mem_beats.mp hother
    have hnow := hle now htime now' htime'
    change ¬ now' - pulseSeconds < now - pulseSeconds
    omega

/-- Whatever the bot is told while the time does not go back, and however often it is started again, the pulse keeps of
each stretch just how often everything was counted in it, until the stretch is older than it remembers. -/
theorem pulse_counts {notes : List Noted} (honward : (notes.filterMap Noted.time).Pairwise (· ≤ ·))
    (htimely : Timely notes) (counted : Counted) (now : ℤ) :
    ((({} : Pulse).noteAll notes).at' now).find counted.key =
      if (∃ time ∈ notes.filterMap Noted.time, bucketOf now < time - pulseSeconds) ∨
          notes.countP (fun note => note.countsAt counted now) = 0 then none
      else some (notes.countP fun note => note.countsAt counted now : ℤ) := by
  have hempty : InRange ({} : Pulse).buckets := fun _ _ hfind => by cases hfind
  have hnumber := Fading.number_beatAll (pairwise_beats honward) (bucketOf now) counted.key
  have hat : ((({} : Pulse).noteAll notes).at' now).find counted.key =
      Fading.number (({} : Pulse).noteAll notes).buckets (bucketOf now) counted.key := by
    rw [Pulse.at', Fading.number]
    cases ((({} : Pulse).noteAll notes).buckets.find (bucketOf now)) <;> rfl
  rw [hat, noteAll_buckets hempty htimely]
  refine hnumber.trans ?_
  rw [Fading.expected, often_flatMap]
  simp only [forgotten_iff]

/-- A laugh, five minutes later the bot started again, and the next message. -/
theorem pulse_counts_restart :
    ((({} : Pulse).noteAll [.message (utf8 "tg") (utf8 "AHAH che raid") 600, .restart, .message (utf8 "tg") (utf8 "ciao") 700]).at'
      899).find (Counted.messages (utf8 "tg")).key = some 2 :=
  (pulse_counts (by decide +kernel) (by unfold Timely; decide +kernel) (.messages (utf8 "tg")) 899).trans (by decide +kernel)

end NorelecBot
