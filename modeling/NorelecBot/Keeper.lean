import NorelecBot.Blocked
import NorelecBot.Config
import NorelecBot.Lib.Daily
import NorelecBot.Watch.Forgetting
import NorelecBot.Watch.Report

/-! # What the keeper tells by the clock

Between one round of the rides and the next the keeper looks at the clock. The
golden hour is told as it starts and as it ends, and the owners are told what
the sentinel saw, once a day each; the scripts it is sure of are then kept out.
-/

namespace NorelecBot
open Lib Watch

/-- How long the sentinel keeps a script out of the game. -/
def blockSeconds : ℤ := 24 * 60 * 60

inductive GoldenWord where
  | starts
  | ends
  deriving DecidableEq, Repr

/-- The last days the golden hour was told on, as it started and as it ended. -/
structure Golden where
  began : ℤ := 0
  ended : ℤ := 0
  deriving DecidableEq, Repr

section
variable [Clock]

/-- The golden hour is told as it starts and as it ends, once a day each. -/
def goldenRound (goldenHour now : ℤ) (golden : Golden) : Option GoldenWord × Golden :=
  if goldenHour < 0 then (none, golden)
  else if Clock.localHour now = goldenHour ∧ golden.began ≠ Clock.localDay now then
    (some .starts, { golden with began := Clock.localDay now })
  else if Clock.localHour now = (goldenHour + 1) % 24 ∧ golden.began = Clock.localDay now ∧
      golden.ended ≠ Clock.localDay now then
    (some .ends, { golden with ended := Clock.localDay now })
  else (none, golden)

def goldenTold (goldenHour : ℤ) : Golden → List ℤ → List (ℤ × GoldenWord)
  | _, [] => []
  | golden, now :: later =>
    ((goldenRound goldenHour now golden).1.map (Prod.mk (Clock.localDay now))).toList ++
      goldenTold goldenHour (goldenRound goldenHour now golden).2 later

variable [Arranged]

def blockScript (now : ℤ) (memory : Memory) (script : Str) : Memory :=
  { memory with toSentinel := memory.toSentinel.block script (now + blockSeconds) }

/-- Once a day, at its hour, every owner is told what the sentinel saw. The names of the players may not be read:
the report of the day is then lost. -/
def sentinelRound (config : Configuration) (names : Option (Str → Str)) (now : ℤ) (memory : Memory) :
    Option Str × Memory :=
  if config (.ids .ownerIds) = [] ∨ config (.text .botToken) = [] ∨
      Clock.localHour now ≠ config (.number .sentinelHour) ∨ memory.reportedDay = Clock.localDay now then (none, memory)
  else
    let memory := { memory with reportedDay := Clock.localDay now }
    match names with
    | none => (none, memory)
    | some name =>
      let memory := (memory.scripts now).foldl (blockScript now) memory
      (some (memory.report now name), memory)

end

section
variable [Clock] {goldenHour : ℤ}

def goldenMoment (goldenHour now : ℤ) : Daily.Moment := ⟨Clock.localDay now, Clock.localHour now = goldenHour⟩

/-- The rounds made in the hour after, on a day the start was told on. -/
def afterMoments (goldenHour : ℤ) : ℤ → List ℤ → List Daily.Moment
  | _, [] => []
  | began, now :: later =>
    ⟨Clock.localDay now, Clock.localHour now = (goldenHour + 1) % 24 && began = Clock.localDay now⟩ ::
      afterMoments goldenHour ((goldenMoment goldenHour now).next began) later

def daysOf (word : GoldenWord) (told : List (ℤ × GoldenWord)) : List ℤ :=
  (told.filter fun entry => entry.2 = word).map Prod.fst

omit [Clock] in
theorem daysOf_append (word : GoldenWord) (told more : List (ℤ × GoldenWord)) :
    daysOf word (told ++ more) = daysOf word told ++ daysOf word more := by
  simp [daysOf]

omit [Clock] in
/-- An hour is not the next one. -/
theorem next_hour_ne : (goldenHour + 1) % 24 ≠ goldenHour := by omega

theorem goldenRound_spec (h : 0 ≤ goldenHour) (now : ℤ) (golden : Golden) :
    (goldenRound goldenHour now golden).2.began = (goldenMoment goldenHour now).next golden.began ∧
      ((goldenRound goldenHour now golden).1 = some .starts ↔ (goldenMoment goldenHour now).rings golden.began = true) ∧
      ((goldenRound goldenHour now golden).1 = some .ends ↔
        Clock.localHour now = (goldenHour + 1) % 24 ∧ golden.began = Clock.localDay now ∧ golden.ended ≠ Clock.localDay now) ∧
      (goldenRound goldenHour now golden).2.ended =
        if Clock.localHour now = (goldenHour + 1) % 24 ∧ golden.began = Clock.localDay now ∧
          golden.ended ≠ Clock.localDay now then Clock.localDay now else golden.ended := by
  have hnext := @next_hour_ne goldenHour
  rw [goldenRound, if_neg (not_lt_of_ge h)]
  by_cases hstarts : Clock.localHour now = goldenHour ∧ golden.began ≠ Clock.localDay now
  · simp [hstarts, goldenMoment, Daily.Moment.next, Daily.Moment.rings]
  · rw [if_neg hstarts]
    have hquiet : (goldenMoment goldenHour now).rings golden.began = false := by
      rw [Bool.eq_false_iff, ne_eq, Daily.rings_iff]
      simpa [goldenMoment] using hstarts
    rw [Daily.Moment.next, hquiet]
    by_cases hover : Clock.localHour now = (goldenHour + 1) % 24 ∧ golden.began = Clock.localDay now ∧
        golden.ended ≠ Clock.localDay now
    · rw [if_pos hover, if_pos hover]
      simp [hover]
    · rw [if_neg hover, if_neg hover]
      simp [hover]

/-- The start is told as a bell that is wanted in the golden hour. -/
theorem daysOf_starts (h : 0 ≤ goldenHour) (golden : Golden) (times : List ℤ) :
    daysOf .starts (goldenTold goldenHour golden times) =
      Daily.rings golden.began (times.map (goldenMoment goldenHour)) := by
  induction times generalizing golden with
  | nil => rfl
  | cons now later ih =>
    obtain ⟨hbegan, hstarts, -, -⟩ := goldenRound_spec h now golden
    rw [goldenTold, daysOf_append, ih, List.map_cons, Daily.rings, hbegan, Daily.Moment.next]
    cases hword : (goldenRound goldenHour now golden).1 with
    | none =>
      rw [hword] at hstarts
      have hquiet : ¬ (goldenMoment goldenHour now).rings golden.began = true := fun hrings => by simpa using hstarts.mpr hrings
      rw [if_neg hquiet, if_neg hquiet]
      rfl
    | some word =>
      rw [hword] at hstarts
      cases word with
      | starts =>
        have hrings := hstarts.mp rfl
        rw [if_pos hrings, if_pos hrings]
        rfl
      | ends =>
        have hquiet : ¬ (goldenMoment goldenHour now).rings golden.began = true := fun hrings => by simpa using hstarts.mpr hrings
        rw [if_neg hquiet, if_neg hquiet]
        rfl

/-- The end is told as a bell that is wanted in the hour after. -/
theorem daysOf_ends (h : 0 ≤ goldenHour) (golden : Golden) (times : List ℤ) :
    daysOf .ends (goldenTold goldenHour golden times) =
      Daily.rings golden.ended (afterMoments goldenHour golden.began times) := by
  induction times generalizing golden with
  | nil => rfl
  | cons now later ih =>
    obtain ⟨hbegan, -, hover, hended⟩ := goldenRound_spec h now golden
    have hrings : (Daily.Moment.mk (Clock.localDay now)
        (Clock.localHour now = (goldenHour + 1) % 24 && golden.began = Clock.localDay now)).rings golden.ended = true ↔
        (goldenRound goldenHour now golden).1 = some .ends := by
      rw [hover, Daily.rings_iff]
      simp [and_assoc]
    rw [goldenTold, daysOf_append, ih, hbegan, hended, afterMoments, Daily.rings]
    by_cases hword : (goldenRound goldenHour now golden).1 = some .ends
    · rw [if_pos (hover.mp hword), if_pos (hrings.mpr hword), hword]
      rfl
    · rw [if_neg fun hwanted => hword (hover.mpr hwanted), if_neg fun hring => hword (hrings.mp hring)]
      cases hsaid : (goldenRound goldenHour now golden).1 with
      | none => rfl
      | some word =>
        cases word with
        | starts => rfl
        | ends => exact absurd hsaid hword

/-- Whether the end is told on a day: a round in the hour after, once the start was told that day. -/
theorem wantedOn_after {began day : ℤ} {times : List ℤ}
    (hdays : Daily.Onward began (times.map (goldenMoment goldenHour))) :
    Daily.WantedOn day (afterMoments goldenHour began times) ↔
      (began = day ∧ ∃ stop ∈ times, Clock.localDay stop = day ∧ Clock.localHour stop = (goldenHour + 1) % 24) ∨
        ∃ start stop, [start, stop].Sublist times ∧ Clock.localDay start = day ∧ Clock.localHour start = goldenHour ∧
          Clock.localDay stop = day ∧ Clock.localHour stop = (goldenHour + 1) % 24 := by
  induction times generalizing began with
  | nil => simp [afterMoments, Daily.WantedOn]
  | cons now later ih =>
    have hfirst : began ≤ Clock.localDay now := hdays.first
    have hnext := @next_hour_ne goldenHour
    rw [afterMoments, Daily.wantedOn_cons]
    by_cases hrings : (goldenMoment goldenHour now).rings began = true
    · obtain ⟨hwanted, hnot⟩ := Daily.rings_iff.mp hrings
      have hhour : Clock.localHour now = goldenHour := by simpa [goldenMoment] using hwanted
      have hpast (stop : ℤ) (hstop : stop ∈ later) : Clock.localDay now ≤ Clock.localDay stop :=
        hdays.ring.1 (goldenMoment goldenHour stop) (List.mem_map_of_mem hstop)
      rw [Daily.Moment.next, if_pos hrings, ih hdays.ring]
      constructor
      · rintro (⟨rfl, hother⟩ | ⟨rfl, stop, hstop, hday, hafter⟩ | ⟨start, stop, hpair, hboth⟩)
        · simp [hhour, hnext.symm] at hother
        · exact .inr ⟨now, stop, List.Sublist.cons_cons now (List.singleton_sublist.mpr hstop), rfl, hhour, hday, hafter⟩
        · exact .inr ⟨start, stop, hpair.cons now, hboth⟩
      · rintro (⟨rfl, stop, hstop, hday, hafter⟩ | ⟨start, stop, hpair, hday, hstart, hboth⟩)
        · rcases List.mem_cons.mp hstop with rfl | hlater
          · exact absurd (hafter.symm.trans hhour) hnext
          · have hstill := hpast stop hlater
            exact absurd (by omega : began = Clock.localDay now) hnot
        · rcases List.sublist_cons_iff.mp hpair with hlater | ⟨rest, heq, hrest⟩
          · exact .inr (.inr ⟨start, stop, hlater, hday, hstart, hboth⟩)
          · obtain ⟨rfl, rfl⟩ := List.cons.inj heq
            exact .inr (.inl ⟨hday, stop, List.singleton_sublist.mp hrest, hboth⟩)
    · rw [Daily.Moment.next, if_neg hrings, ih hdays.tail]
      have hsame : Clock.localHour now = goldenHour → began = Clock.localDay now := by
        intro hhour
        by_contra hnot
        exact hrings (Daily.rings_iff.mpr ⟨by simpa [goldenMoment] using hhour, hnot⟩)
      constructor
      · rintro (⟨rfl, hafter⟩ | ⟨hday, stop, hstop, hboth⟩ | ⟨start, stop, hpair, hboth⟩)
        · simp only [Bool.and_eq_true, decide_eq_true_eq] at hafter
          exact .inl ⟨hafter.2, now, List.mem_cons_self, rfl, hafter.1⟩
        · exact .inl ⟨hday, stop, List.mem_cons_of_mem now hstop, hboth⟩
        · exact .inr ⟨start, stop, hpair.cons now, hboth⟩
      · rintro (⟨rfl, stop, hstop, hday, hafter⟩ | ⟨start, stop, hpair, hday, hstart, hboth⟩)
        · rcases List.mem_cons.mp hstop with rfl | hlater
          · exact .inl ⟨hday, by simp [hafter, hday]⟩
          · exact .inr (.inl ⟨rfl, stop, hlater, hday, hafter⟩)
        · rcases List.sublist_cons_iff.mp hpair with hlater | ⟨rest, heq, hrest⟩
          · exact .inr (.inr ⟨start, stop, hlater, hday, hstart, hboth⟩)
          · obtain ⟨rfl, rfl⟩ := List.cons.inj heq
            exact .inr (.inl ⟨(hsame hstart).trans hday, stop, List.singleton_sublist.mp hrest, hboth⟩)

/-- The days the keeper makes its rounds on, from one after 1970. -/
structure KeptDays (times : List ℤ) : Prop where
  late : ∀ now ∈ times, 0 < Clock.localDay now
  onward : times.Pairwise fun now later => Clock.localDay now ≤ Clock.localDay later

theorem KeptDays.golden {times : List ℤ} (h : KeptDays times) :
    Daily.Onward 0 (times.map (goldenMoment goldenHour)) := by
  constructor
  · intro moment hmoment
    obtain ⟨now, hnow, rfl⟩ := List.mem_map.mp hmoment
    exact (h.late now hnow).le
  · exact List.pairwise_map.mpr h.onward

theorem days_afterMoments (began : ℤ) (times : List ℤ) :
    (afterMoments goldenHour began times).map Daily.Moment.day = times.map Clock.localDay := by
  induction times generalizing began with
  | nil => rfl
  | cons now later ih => simp [afterMoments, ih]

theorem KeptDays.after {times : List ℤ} (h : KeptDays times) (began : ℤ) :
    Daily.Onward 0 (afterMoments goldenHour began times) := by
  have hsame := @days_afterMoments _ goldenHour began times
  constructor
  · intro moment hmoment
    have hday : moment.day ∈ times.map Clock.localDay := hsame ▸ List.mem_map_of_mem hmoment
    obtain ⟨now, hnow, heq⟩ := List.mem_map.mp hday
    exact heq ▸ (h.late now hnow).le
  · have hpairs : (times.map Clock.localDay).Pairwise (· ≤ ·) := List.pairwise_map.mpr h.onward
    rw [← hsame] at hpairs
    exact List.pairwise_map.mp hpairs

theorem KeptDays.starts {times : List ℤ} (h : KeptDays times) (hgolden : 0 ≤ goldenHour) :
    (daysOf .starts (goldenTold goldenHour {} times)).Nodup ∧
      ∀ day, day ∈ daysOf .starts (goldenTold goldenHour {} times) ↔
        ∃ now ∈ times, Clock.localDay now = day ∧ Clock.localHour now = goldenHour := by
  rw [daysOf_starts hgolden]
  have hlate : ∀ moment ∈ times.map (goldenMoment goldenHour), 0 < moment.day := by
    simpa [goldenMoment] using h.late
  obtain ⟨honce, hdays⟩ := Daily.rings_once h.golden hlate
  refine ⟨honce, fun day => (hdays day).trans ?_⟩
  simp [Daily.WantedOn, goldenMoment]

theorem KeptDays.ends {times : List ℤ} (h : KeptDays times) (hgolden : 0 ≤ goldenHour) :
    (daysOf .ends (goldenTold goldenHour {} times)).Nodup ∧
      ∀ day, day ∈ daysOf .ends (goldenTold goldenHour {} times) ↔
        ∃ start stop, [start, stop].Sublist times ∧ Clock.localDay start = day ∧ Clock.localHour start = goldenHour ∧
          Clock.localDay stop = day ∧ Clock.localHour stop = (goldenHour + 1) % 24 := by
  rw [daysOf_ends hgolden]
  have hlate : ∀ moment ∈ afterMoments goldenHour 0 times, 0 < moment.day := by
    intro moment hmoment
    have hday : moment.day ∈ times.map Clock.localDay := days_afterMoments 0 times ▸ List.mem_map_of_mem hmoment
    obtain ⟨now, hnow, heq⟩ := List.mem_map.mp hday
    exact heq ▸ h.late now hnow
  obtain ⟨honce, hdays⟩ := Daily.rings_once (h.after 0) hlate
  refine ⟨honce, fun day => ((hdays day).trans (wantedOn_after h.golden)).trans ?_⟩
  constructor
  · rintro (⟨rfl, stop, hstop, hday, -⟩ | htold)
    · exact absurd hday (h.late stop hstop).ne'
    · exact htold
  · exact Or.inr

end

section
variable [Clock] [Arranged] (config : Configuration)

/-- What the sentinel goes through between one report and the next. -/
inductive Witnessed where
  | told (told : Watch.Told)
  | turnedAway (player : Str) (now : ℤ)
  | unblocked (player : Str)
  | round (now : ℤ) (names : Option (Str → Str))

def Watch.Memory.witness (memory : Memory) : Witnessed → Memory
  | .told told => memory.tell Memory.forget told
  | .turnedAway player now => { memory with toSentinel := (memory.toSentinel.tellBlocked player now).2 }
  | .unblocked player => { memory with toSentinel := (memory.toSentinel.unblock player).2 }
  | .round now names => (sentinelRound config names now memory).2

def Watch.Memory.witnessAll (memory : Memory) (watched : List Witnessed) : Memory :=
  watched.foldl (Memory.witness config) memory

/-- Whether a round is made at the hour of the report, with somebody to send it to. -/
def reportDue (now : ℤ) : Bool :=
  config (.ids .ownerIds) ≠ [] && config (.text .botToken) ≠ [] &&
    Clock.localHour now = config (.number .sentinelHour)

def Witnessed.moment : Witnessed → Option Daily.Moment
  | .round now _ => some ⟨Clock.localDay now, reportDue config now⟩
  | _ => none

variable {config} {memory : Memory} {now : ℤ}

omit [Clock] [Arranged] in
theorem tell_reportedDay (memory : Memory) (told : Watch.Told) :
    (memory.tell Memory.forget told).reportedDay = memory.reportedDay := by
  have hstart (now : ℤ) : (Memory.forget now (memory.start now)).reportedDay = memory.reportedDay := by
    rw [Memory.forget]
    by_cases hsoon : now - (memory.start now).forgotten < 3600
    · rw [if_pos hsoon, Memory.start]
      split <;> rfl
    · rw [if_neg hsoon, Memory.start]
      split <;> rfl
  cases told with
  | link identity player => rfl
  | _ => exact hstart _

omit [Clock] [Arranged] in
theorem blockScripts_kept (now : ℤ) (scripts : List Str) (memory : Memory) :
    (scripts.foldl (fun memory script => blockScript now memory script) memory).reportedDay = memory.reportedDay := by
  induction scripts generalizing memory with
  | nil => rfl
  | cons script scripts ih => exact ih (blockScript now memory script)

/-- A round of the report: quiet, lost, or told. -/
theorem sentinelRound_cases (names : Option (Str → Str)) (now : ℤ) (memory : Memory) :
    ((Daily.Moment.mk (Clock.localDay now) (reportDue config now)).rings memory.reportedDay = false ∧
      sentinelRound config names now memory = (none, memory)) ∨
    ((Daily.Moment.mk (Clock.localDay now) (reportDue config now)).rings memory.reportedDay = true ∧
      ((names = none ∧ sentinelRound config names now memory = (none, { memory with reportedDay := Clock.localDay now })) ∨
        ∃ name, names = some name ∧ (sentinelRound config names now memory).1.isSome = true ∧
          (sentinelRound config names now memory).2 =
            (memory.scripts now).foldl (blockScript now) { memory with reportedDay := Clock.localDay now })) := by
  by_cases hquiet : config (.ids .ownerIds) = [] ∨ config (.text .botToken) = [] ∨
      Clock.localHour now ≠ config (.number .sentinelHour) ∨ memory.reportedDay = Clock.localDay now
  · left
    constructor
    · rw [Bool.eq_false_iff, ne_eq, Daily.rings_iff]
      simp only [reportDue, ne_eq, Bool.and_eq_true, decide_eq_true_eq]
      tauto
    · rw [sentinelRound, if_pos hquiet]
  · right
    constructor
    · rw [Daily.rings_iff]
      simp only [reportDue, ne_eq, Bool.and_eq_true, decide_eq_true_eq]
      tauto
    · rw [sentinelRound, if_neg hquiet]
      cases names with
      | none => exact .inl ⟨rfl, rfl⟩
      | some name => exact .inr ⟨name, rfl, rfl, rfl⟩

theorem witness_reportedDay (memory : Memory) (watched : Witnessed) :
    (memory.witness config watched).reportedDay =
      (watched.moment config).elim memory.reportedDay fun moment => moment.next memory.reportedDay := by
  cases watched with
  | told told => exact tell_reportedDay memory told
  | turnedAway player now => rfl
  | unblocked player => rfl
  | round now names =>
    rw [Memory.witness, Witnessed.moment, Option.elim_some, Daily.Moment.next]
    rcases @sentinelRound_cases _ _ config names now memory with ⟨hquiet, heq⟩ | ⟨hrings, ⟨-, heq⟩ | ⟨name, -, -, heq⟩⟩
    · rw [hquiet, heq]
      rfl
    · rw [hrings, heq]
      rfl
    · rw [hrings, heq, blockScripts_kept]
      rfl

theorem witnessAll_reportedDay (memory : Memory) (watched : List Witnessed) :
    (memory.witnessAll config watched).reportedDay =
      Daily.lastDay memory.reportedDay (watched.filterMap (Witnessed.moment config)) := by
  induction watched generalizing memory with
  | nil => rfl
  | cons one watched ih =>
    have hstep := @witness_reportedDay _ _ config memory one
    calc (memory.witnessAll config (one :: watched)).reportedDay
      _ = Daily.lastDay (memory.witness config one).reportedDay (watched.filterMap (Witnessed.moment config)) := ih _
      _ = Daily.lastDay memory.reportedDay ((one :: watched).filterMap (Witnessed.moment config)) := by
        rw [hstep, List.filterMap_cons]
        cases one.moment config <;> rfl

/-- Whether a round is the one the report of the day is made at. -/
theorem rings_after_iff {watched : List Witnessed} {names : Option (Str → Str)}
    (h : Daily.Onward memory.reportedDay ((watched ++ [Witnessed.round now names]).filterMap (Witnessed.moment config))) :
    (Daily.Moment.mk (Clock.localDay now) (reportDue config now)).rings (memory.witnessAll config watched).reportedDay = true ↔
      reportDue config now = true ∧ memory.reportedDay ≠ Clock.localDay now ∧
        ∀ sooner names', .round sooner names' ∈ watched → reportDue config sooner = true →
          Clock.localDay sooner ≠ Clock.localDay now := by
  rw [List.filterMap_append] at h
  have hbefore : Daily.Onward memory.reportedDay (watched.filterMap (Witnessed.moment config)) :=
    ⟨fun moment hmoment => h.1 moment (List.mem_append_left _ hmoment), (List.pairwise_append.mp h.2).1⟩
  have hlast : ∀ moment ∈ watched.filterMap (Witnessed.moment config), moment.day ≤ Clock.localDay now :=
    fun moment hmoment => (List.pairwise_append.mp h.2).2.2 moment hmoment _ List.mem_cons_self
  have hwanted : Daily.WantedOn (Clock.localDay now) (watched.filterMap (Witnessed.moment config)) ↔
      ∃ sooner names', .round sooner names' ∈ watched ∧ Clock.localDay sooner = Clock.localDay now ∧
        reportDue config sooner = true := by
    constructor
    · rintro ⟨moment, hmoment, hday, hdue⟩
      obtain ⟨one, hone, heq⟩ := List.mem_filterMap.mp hmoment
      cases one with
      | round sooner names' =>
        obtain rfl := Option.some.inj heq
        exact ⟨sooner, names', hone, hday, hdue⟩
      | _ => simp [Witnessed.moment] at heq
    · rintro ⟨sooner, names', hone, hday, hdue⟩
      exact ⟨⟨Clock.localDay sooner, reportDue config sooner⟩, List.mem_filterMap.mpr ⟨_, hone, rfl⟩, hday, hdue⟩
  rw [Daily.rings_iff, witnessAll_reportedDay, ne_eq, Daily.lastDay_eq_iff hbefore hlast, hwanted]
  simp only [not_or, not_exists, not_and]
  exact ⟨fun ⟨hdue, hday, hnone⟩ => ⟨hdue, hday, fun sooner names' hone hdue' hsame => hnone sooner names' hone hsame hdue'⟩,
    fun ⟨hdue, hday, hnone⟩ => ⟨hdue, hday, fun sooner names' hone hsame hdue' => hnone sooner names' hone hdue' hsame⟩⟩

omit [Clock] [Arranged] in
theorem find_blockScripts (now : ℤ) (scripts : List Str) (memory : Memory) (player : Str) :
    (scripts.foldl (blockScript now) memory).blocked.find player =
      if player ∈ scripts then some (now + blockSeconds) else memory.blocked.find player := by
  induction scripts generalizing memory with
  | nil => simp
  | cons script scripts ih =>
    rw [List.foldl_cons, ih, blockScript, Sentinel.block, OrderedMap.find_set]
    by_cases hlater : player ∈ scripts
    · simp [hlater]
    · by_cases hthis : player = script
      · simp [hthis]
      · simp [hlater, hthis]

/-- A player is kept out at least until a time. -/
def OutUntil (memory : Memory) (player : Str) (until' : ℤ) : Prop :=
  ∃ least, memory.blocked.find player = some least ∧ until' ≤ least

omit [Clock] [Arranged] in
theorem OutUntil.blockedUntil {player : Str} {until' at' : ℤ} (h : OutUntil memory player until') (hat : at' < until') :
    until' ≤ memory.toSentinel.blockedUntil player at' := by
  obtain ⟨least, hfind, hleast⟩ := h
  rw [Sentinel.blockedUntil, hfind]
  have hstill : least > at' := by omega
  simp [hstill, hleast]

omit [Clock] [Arranged] in
theorem OutUntil.of_blocked {other : Memory} {player : Str} {until' : ℤ} (h : OutUntil memory player until')
    (hsame : other.blocked.find player = memory.blocked.find player) : OutUntil other player until' := by
  obtain ⟨least, hfind, hleast⟩ := h
  exact ⟨least, hsame.trans hfind, hleast⟩

theorem OutUntil.witness {player : Str} (h : OutUntil memory player (now + blockSeconds)) {watched : Witnessed}
    (hback : watched ≠ .unblocked player) (hlater : ∀ later names, watched = .round later names → now ≤ later) :
    OutUntil (memory.witness config watched) player (now + blockSeconds) := by
  cases watched with
  | told told => exact h.of_blocked (by rw [Memory.witness, tell_blocked forget_blocked])
  | turnedAway other at' => exact h.of_blocked (by rw [Memory.witness, tellBlocked_blocked])
  | unblocked other =>
    apply h.of_blocked
    have hother : player ≠ other := fun hsame => hback (hsame ▸ rfl)
    exact OrderedMap.find_erase_of_ne memory.blocked hother
  | round later names =>
    have hnow := hlater later names rfl
    rw [Memory.witness]
    rcases @sentinelRound_cases _ _ config names later memory with ⟨-, heq⟩ | ⟨-, ⟨-, heq⟩ | ⟨name, -, -, heq⟩⟩
    · rwa [heq]
    · exact h.of_blocked (by rw [heq])
    · by_cases hscript : player ∈ memory.scripts later
      · refine ⟨later + blockSeconds, ?_, by omega⟩
        rw [heq, find_blockScripts, if_pos hscript]
      · apply h.of_blocked
        rw [heq, find_blockScripts, if_neg hscript]

theorem OutUntil.witnessAll {player : Str} (h : OutUntil memory player (now + blockSeconds)) {watched : List Witnessed}
    (hback : .unblocked player ∉ watched) (hlater : ∀ later names, .round later names ∈ watched → now ≤ later) :
    OutUntil (memory.witnessAll config watched) player (now + blockSeconds) := by
  induction watched generalizing memory with
  | nil => exact h
  | cons one watched ih =>
    have hstep : OutUntil (memory.witness config one) player (now + blockSeconds) := by
      apply h.witness
      · rintro rfl
        exact hback List.mem_cons_self
      · rintro later names rfl
        exact hlater later names List.mem_cons_self
    exact ih hstep (fun hin => hback (List.mem_cons_of_mem one hin))
      fun later names hin => hlater later names (List.mem_cons_of_mem one hin)

/-- Whatever the sentinel is told in between, a round reports if it is the first of its day at the hour of the report
and the names can be read, and everybody it was then sure of is kept out for a day, unless an owner lets him in. -/
theorem sentinel_reports_once {watched : List Witnessed} {names : Option (Str → Str)}
    (hdays : Daily.Onward memory.reportedDay ((watched ++ [Witnessed.round now names]).filterMap (Witnessed.moment config))) :
    ((sentinelRound config names now (memory.witnessAll config watched)).1.isSome = true ↔
      names.isSome = true ∧ reportDue config now = true ∧ memory.reportedDay ≠ Clock.localDay now ∧
        ∀ sooner names', .round sooner names' ∈ watched → reportDue config sooner = true →
          Clock.localDay sooner ≠ Clock.localDay now) ∧
    ((sentinelRound config names now (memory.witnessAll config watched)).1.isSome = true →
      ∀ script ∈ (memory.witnessAll config watched).scripts now, ∀ later,
        .unblocked script ∉ later → (∀ at' names', .round at' names' ∈ later → now ≤ at') →
        ∀ at' < now + blockSeconds, now + blockSeconds ≤
          (memory.witnessAll config (watched ++ .round now names :: later)).toSentinel.blockedUntil script at') := by
  have hfirst := rings_after_iff hdays
  rcases @sentinelRound_cases _ _ config names now (memory.witnessAll config watched) with
    ⟨hquiet, heq⟩ | ⟨hrings, ⟨rfl, heq⟩ | ⟨name, rfl, htold, heq⟩⟩
  · rw [hquiet] at hfirst
    constructor
    · simp only [heq, Option.isSome_none, Bool.false_eq_true, false_iff]
      exact fun hall => Bool.false_ne_true (hfirst.mpr hall.2)
    · simp [heq]
  · constructor <;> simp [heq]
  · constructor
    · exact ⟨fun _ => ⟨rfl, hfirst.mp hrings⟩, fun _ => htold⟩
    · intro _ script hscript later hback hlater at' hat
      have hout : OutUntil ((memory.witnessAll config watched).witness config (.round now (some name))) script
          (now + blockSeconds) := by
        refine ⟨now + blockSeconds, ?_, le_rfl⟩
        rw [Memory.witness, heq, find_blockScripts, if_pos hscript]
      rw [Memory.witnessAll, List.foldl_append, List.foldl_cons]
      exact (hout.witnessAll hback hlater).blockedUntil hat

end

def ownedConfig : Configuration :=
  Function.update (Function.update Setting.fallback (.ids .ownerIds) [7]) (.text .botToken) (utf8 "token")

theorem reportDue_ownedConfig (now : ℤ) : @reportDue utc ownedConfig now = decide (now / 3600 % 24 = 9) := by
  have hnine : ownedConfig (.number .sentinelHour) = 9 := by simp [ownedConfig, Setting.fallback, NumberSetting.rule]
  have howner : ownedConfig (.ids .ownerIds) ≠ [] := by simp [ownedConfig]
  have htoken : ownedConfig (.text .botToken) ≠ [] := by
    simp only [ownedConfig, Function.update_self]
    decide +kernel
  simp only [reportDue, howner, htoken, hnine, ne_eq, not_false_eq_true, decide_true, Bool.true_and]
  rfl

/-- The first round after nine in the morning. -/
theorem sentinel_reports_once_morning :
    (@sentinelRound utc asTheyCome ownedConfig (some id) (86400 + 32400)
      (@Memory.witnessAll utc asTheyCome ownedConfig {} [.round (86400 + 28800) (some id)])).1.isSome = true := by
  have hfirst := (@sentinel_reports_once utc asTheyCome ownedConfig {} (86400 + 32400) [.round (86400 + 28800) (some id)]
    (some id) ⟨by simp [Witnessed.moment, Clock.localDay], by simp [Witnessed.moment, Clock.localDay]⟩).1
  apply hfirst.mpr
  simp [reportDue_ownedConfig, Clock.localDay]

end NorelecBot
