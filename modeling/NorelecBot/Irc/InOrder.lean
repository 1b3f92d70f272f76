import NorelecBot.Irc.OneLine
import NorelecBot.Irc.Steps
import NorelecBot.Lib.Numbered

/-! # Commands are run once, in order, and nobody is locked out

Every call answers a message of its own; the calls for one nick answer its
messages in the order they came. A nick that is asked about has a line waiting,
and the answer that never came is given up together with the first line of it.
-/

namespace NorelecBot.Irc
open Lib

variable (config : SessionConfig)

/-- Everything the responder was called with, the first first. -/
def callsAfter : List Event → List Call
  | [] => []
  | event :: past => callsAfter past ++ callsOf (deedsOf config past event)

/-- The message with that number, from 0, is a line for the bot of that nick. -/
def SentAt (past : List Event) (number : ℕ) (nick text : Str) : Prop :=
  ∃ event, past.reverse[number]? = some event ∧ event.Sends config nick text

/-- The clock never goes back. -/
def Steady (past : List Event) : Prop := (past.filterMap Event.time).Pairwise (· ≥ ·)

/-- The event put a line of that nick at the end of those that wait. -/
def Queues (lowered : Str) (past : List Event) (event : Event) : Prop :=
  ∃ line, (after config (event :: past)).waiting = (after config past).waiting ++ [line] ∧
    lowerName line.nick = lowered

/-- When the last line of that nick was put among those that wait. -/
def LastQueued (lowered : Str) (came : ℤ) : List Event → Prop
  | [] => False
  | event :: past =>
    Queues config lowered past event ∧ event.time = some came ∨
      ¬ Queues config lowered past event ∧ LastQueued lowered came past

variable {config} {session session' : Session} {past : List Event} {event : Event} {deeds : List Deed}

/-- The lines that wait only ever go, but for one that comes in at the end. -/
theorem Step.waiting (h : Step config session event session' deeds) :
    (∃ stays : Waiting → Bool, session'.waiting = session.waiting.filter stays) ∨
      ∃ received now, event = .message received now ∧
        event.Sends config (nickOf received.messagePrefix) (received.param 1) ∧
        session'.waiting = session.waiting ++
          [{ nick := nickOf received.messagePrefix, text := received.param 1, deadline := now + config.whoisSeconds }] := by
  cases h with
  | connected deeds hcalls => exact .inl ⟨fun _ => false, by simp [Session.start]⟩
  | tick now => exact .inl ⟨_, rfl⟩
  | idle received now nick joined deeds hcalls hends hgone => exact .inl ⟨fun _ => true, by simp⟩
  | identified received now account identity hasked hwhat => exact .inl ⟨fun _ => true, by simp⟩
  | answered received now identity hcommand hasked => exact .inl ⟨_, rfl⟩
  | lost received now hcommand => exact .inl ⟨_, rfl⟩
  | departed received now hgone hother => exact .inl ⟨fun _ => true, by simp⟩
  | known received now entry hsends hfound hfresh hregistered => exact .inl ⟨fun _ => true, by simp⟩
  | told received now entry hsends hfound hfresh hregistered => exact .inl ⟨fun _ => true, by simp⟩
  | queued received now asked deeds hsends hstale hasked => exact .inr ⟨received, now, rfl, hsends, rfl⟩

/-- A nick that is asked about has a line that waits. -/
theorem Step.askedWaits (h : Step config session event session' deeds)
    (hwaits : ∀ lowered, (session.asked.find lowered).isSome = true → ∃ line ∈ session.waiting, lowerName line.nick = lowered) :
    ∀ lowered, (session'.asked.find lowered).isSome = true → ∃ line ∈ session'.waiting, lowerName line.nick = lowered := by
  intro lowered hasked'
  cases h with
  | connected deeds hcalls => simp [Session.start] at hasked'
  | tick now =>
    obtain ⟨identity, hfound⟩ := Option.isSome_iff_exists.mp hasked'
    obtain ⟨hold, hgone⟩ := find_foldl_erase hfound
    obtain ⟨line, hline, hnick⟩ := hwaits lowered (by rw [hold]; rfl)
    refine ⟨line, List.mem_filter.mpr ⟨hline, ?_⟩, hnick⟩
    by_contra hlate
    exact hgone line (List.mem_filter.mpr ⟨hline, by simpa using hlate⟩) hnick
  | idle received now nick joined deeds hcalls hends hgone => exact hwaits lowered hasked'
  | identified received now account identity hasked hwhat =>
    refine hwaits lowered ?_
    rw [OrderedMap.find_set] at hasked'
    split_ifs at hasked' with hthis
    · rw [hthis, hasked]
      rfl
    · exact hasked'
  | answered received now identity hcommand hasked =>
    rw [release, OrderedMap.find_erase] at hasked'
    split_ifs at hasked' with hthis
    · cases hasked'
    · obtain ⟨line, hline, hnick⟩ := hwaits lowered hasked'
      exact ⟨line, List.mem_filter.mpr ⟨hline, by simpa [hnick] using hthis⟩, hnick⟩
  | lost received now hcommand =>
    rw [noSuchNick, OrderedMap.find_erase] at hasked'
    split_ifs at hasked' with hthis
    · cases hasked'
    · obtain ⟨line, hline, hnick⟩ := hwaits lowered hasked'
      exact ⟨line, List.mem_filter.mpr ⟨hline, by simpa [hnick] using hthis⟩, hnick⟩
  | departed received now hgone hother => exact hwaits lowered hasked'
  | known received now entry hsends hfound hfresh hregistered => exact hwaits lowered hasked'
  | told received now entry hsends hfound hfresh hregistered => exact hwaits lowered hasked'
  | queued received now asked deeds hsends hstale hasked =>
    by_cases hsender : lowerName (nickOf received.messagePrefix) = lowered
    · exact ⟨_, List.mem_append_right _ (List.mem_singleton_self _), hsender⟩
    · have hold : (session.asked.find lowered).isSome = true := by
        rcases hasked with ⟨-, rfl, -⟩ | ⟨-, rfl, -⟩
        · exact hasked'
        · rwa [OrderedMap.find_set_of_ne _ _ (Ne.symm hsender)] at hasked'
      obtain ⟨line, hline, hnick⟩ := hwaits lowered hold
      exact ⟨line, List.mem_append_left _ hline, hnick⟩

theorem asked_waits (past : List Event) {lowered : Str}
    (hasked : ((after config past).asked.find lowered).isSome = true) :
    ∃ line ∈ (after config past).waiting, lowerName line.nick = lowered := by
  induction past generalizing lowered with
  | nil => simp [after, Session.start] at hasked
  | cons event past ih => exact (happen_step config _ event).askedWaits (fun lowered => ih) lowered hasked

/-- After a tick, a line of a nick that is asked about has its time still to come. -/
theorem asked_waits_tick (past : List Event) (now : ℤ) {lowered : Str}
    (hasked : ((after config (.tick now :: past)).asked.find lowered).isSome = true) :
    ∃ line ∈ (after config (.tick now :: past)).waiting, lowerName line.nick = lowered ∧ now < line.deadline := by
  obtain ⟨line, hline, hnick⟩ := asked_waits _ hasked
  exact ⟨line, hline, hnick, by simpa using (List.mem_filter.mp hline).2⟩

theorem Steady.tail (h : Steady (event :: past)) : Steady past := by
  rw [Steady, List.filterMap_cons] at h
  split at h
  · exact h
  · exact (List.pairwise_cons.mp h).2

theorem Steady.time_le (h : Steady (event :: past)) {now came : ℤ} (hnow : event.time = some now) {earlier : Event}
    (hmem : earlier ∈ past) (hcame : earlier.time = some came) : came ≤ now := by
  rw [Steady, List.filterMap_cons, hnow] at h
  exact (List.pairwise_cons.mp h).1 came (List.mem_filterMap.mpr ⟨earlier, hmem, hcame⟩)

theorem LastQueued.mem {lowered : Str} {came : ℤ} (h : LastQueued config lowered came past) :
    ∃ earlier ∈ past, earlier.time = some came := by
  induction past with
  | nil => exact h.elim
  | cons event past ih =>
    rcases h with ⟨-, hcame⟩ | ⟨-, hbefore⟩
    · exact ⟨event, List.mem_cons_self, hcame⟩
    · obtain ⟨earlier, hmem, hcame⟩ := ih hbefore
      exact ⟨earlier, List.mem_cons_of_mem _ hmem, hcame⟩

/-- A line waits for as long after it came, and it came no later than the last one of its nick. -/
theorem deadline_le (hsteady : Steady past) : ∀ line ∈ (after config past).waiting,
    ∃ came, LastQueued config (lowerName line.nick) came past ∧ line.deadline ≤ came + config.whoisSeconds := by
  induction past with
  | nil => simp [after, Session.start]
  | cons event past ih =>
    intro line hline
    rcases (happen_step config (after config past) event).waiting with ⟨stays, hfilter⟩ | ⟨received, now, rfl, -, hqueue⟩
    · change (after config (event :: past)).waiting = _ at hfilter
      rw [hfilter] at hline
      obtain ⟨came, hlast, hle⟩ := ih hsteady.tail line (List.mem_of_mem_filter hline)
      refine ⟨came, .inr ⟨?_, hlast⟩, hle⟩
      rintro ⟨new, hnew, -⟩
      have hlength := congrArg List.length (hfilter.symm.trans hnew)
      have hfewer := List.length_filter_le stays (after config past).waiting
      simp only [List.length_append, List.length_singleton] at hlength
      omega
    · change (after config (.message received now :: past)).waiting = _ at hqueue
      by_cases hsame : lowerName (nickOf received.messagePrefix) = lowerName line.nick
      · refine ⟨now, .inl ⟨⟨_, hqueue, hsame⟩, rfl⟩, ?_⟩
        rw [hqueue] at hline
        rcases List.mem_append.mp hline with hold | hnew
        · obtain ⟨came, hlast, hle⟩ := ih hsteady.tail line hold
          obtain ⟨earlier, hmem, hcame⟩ := hlast.mem
          have hbefore : came ≤ now := hsteady.time_le rfl hmem hcame
          omega
        · rw [List.mem_singleton.mp hnew]
      · rw [hqueue] at hline
        rcases List.mem_append.mp hline with hold | hnew
        · obtain ⟨came, hlast, hle⟩ := ih hsteady.tail line hold
          refine ⟨came, .inr ⟨?_, hlast⟩, hle⟩
          rintro ⟨new, hnew, hnick⟩
          have hthis := List.append_cancel_left (hqueue.symm.trans hnew)
          rw [List.cons.injEq] at hthis
          rw [← hthis.1] at hnick
          exact hsame hnick
        · rw [List.mem_singleton.mp hnew] at hsame
          exact absurd rfl hsame

/-- What waits after a tick has its time still to come, whether it waited before or came later. -/
theorem lt_deadline (hsteady : Steady past) (hwhois : 0 < config.whoisSeconds) {late : ℤ} (htick : .tick late ∈ past) :
    ∀ line ∈ (after config past).waiting, late < line.deadline := by
  induction past with
  | nil => simp at htick
  | cons event past ih =>
    intro line hline
    rcases List.mem_cons.mp htick with rfl | hbefore
    · simpa using (List.mem_filter.mp hline).2
    · rcases (happen_step config (after config past) event).waiting with ⟨stays, hfilter⟩ | ⟨received, now, rfl, -, hqueue⟩
      · change (after config (event :: past)).waiting = _ at hfilter
        rw [hfilter] at hline
        exact ih hsteady.tail hbefore line (List.mem_of_mem_filter hline)
      · change (after config (.message received now :: past)).waiting = _ at hqueue
        rw [hqueue] at hline
        rcases List.mem_append.mp hline with hold | hnew
        · exact ih hsteady.tail hbefore line hold
        · rw [List.mem_singleton.mp hnew]
          have hle : late ≤ now := hsteady.time_le rfl hbefore rfl
          dsimp only
          omega

/-- Once a tick came long enough after the last line of a nick that had to wait, nothing is asked about it. -/
theorem not_asked (hsteady : Steady past) (hwhois : 0 < config.whoisSeconds) {late : ℤ} (htick : .tick late ∈ past)
    {lowered : Str} (hlong : ∀ came, LastQueued config lowered came past → came + config.whoisSeconds ≤ late) :
    (after config past).asked.find lowered = none := by
  by_contra hasked
  obtain ⟨line, hline, rfl⟩ := asked_waits past (Option.isSome_iff_ne_none.mpr hasked)
  obtain ⟨came, hlast, hle⟩ := deadline_le hsteady line hline
  have hlate := lt_deadline hsteady hwhois htick line hline
  have hearly := hlong came hlast
  omega

/-- What is kept of a nick never expires later for anything but an answer that leaves nobody waiting. -/
theorem Step.expires (h : Step config session event session' deeds) (lowered : Str) (entry : Registration)
    (hfound : session'.registrations.find lowered = some entry) :
    (∃ old, session.registrations.find lowered = some old ∧ old.expires = entry.expires) ∨
      ∀ line ∈ session'.waiting, lowerName line.nick ≠ lowered := by
  cases h with
  | connected deeds hcalls => simp [Session.start] at hfound
  | tick now =>
    rw [Irc.tick, OrderedMap.find_filter] at hfound
    exact .inl ⟨entry, (Option.filter_eq_some_iff.mp hfound).1, rfl⟩
  | idle received now nick joined deeds hcalls hends hgone => exact .inl ⟨entry, hfound, rfl⟩
  | identified received now account identity hasked hwhat => exact .inl ⟨entry, hfound, rfl⟩
  | answered received now identity hcommand hasked =>
    by_cases hthis : lowered = lowerName (received.param 1)
    · subst hthis
      exact .inr fun line hline => by simpa using (List.mem_filter.mp hline).2
    · rw [release, OrderedMap.find_set_of_ne _ _ hthis] at hfound
      exact .inl ⟨entry, hfound, rfl⟩
  | lost received now hcommand => exact .inl ⟨entry, hfound, rfl⟩
  | departed received now hgone hother =>
    rw [OrderedMap.find_erase] at hfound
    split_ifs at hfound
    exact .inl ⟨entry, hfound, rfl⟩
  | known received now old hsends hfound' hfresh hregistered => exact .inl ⟨entry, hfound, rfl⟩
  | told received now old hsends hfound' hfresh hregistered =>
    rw [OrderedMap.find_set] at hfound
    split_ifs at hfound with hthis
    · cases hfound
      exact .inl ⟨old, hthis ▸ hfound', rfl⟩
    · exact .inl ⟨entry, hfound, rfl⟩
  | queued received now asked deeds hsends hstale hasked => exact .inl ⟨entry, hfound, rfl⟩

/-- What is kept of a nick that waits was stale already when something happened. -/
theorem stale_of_waiting (past : List Event) : ∀ line ∈ (after config past).waiting, ∀ entry,
    (after config past).registrations.find (lowerName line.nick) = some entry →
      ∃ earlier ∈ past, ∃ came, earlier.time = some came ∧ entry.expires ≤ came := by
  induction past with
  | nil => simp [after, Session.start]
  | cons event past ih =>
    intro line hline entry hfound
    have hstep := happen_step config (after config past) event
    rcases hstep.expires _ entry hfound with ⟨old, hold, hexpires⟩ | hnobody
    · suffices hbefore : line ∈ (after config past).waiting ∨
          ∃ now, event.time = some now ∧ old.expires ≤ now by
        rcases hbefore with hmem | ⟨now, hnow, hle⟩
        · obtain ⟨earlier, hearlier, came, hcame, hle⟩ := ih line hmem old hold
          exact ⟨earlier, List.mem_cons_of_mem _ hearlier, came, hcame, hexpires ▸ hle⟩
        · exact ⟨event, List.mem_cons_self, now, hnow, hexpires ▸ hle⟩
      change line ∈ (happen config (after config past) event).1.waiting at hline
      generalize happen config (after config past) event = result at hstep hline hfound
      obtain ⟨session', deeds⟩ := result
      dsimp only at hstep hline hfound
      cases hstep with
      | connected deeds hcalls => simp [Session.start] at hline
      | tick now => exact .inl (List.mem_of_mem_filter hline)
      | idle received now nick joined deeds hcalls hends hgone => exact .inl hline
      | identified received now account identity hasked hwhat => exact .inl hline
      | answered received now identity hcommand hasked => exact .inl (List.mem_of_mem_filter hline)
      | lost received now hcommand => exact .inl (List.mem_of_mem_filter hline)
      | departed received now hgone hother => exact .inl hline
      | known received now entry hsends hfound' hfresh hregistered => exact .inl hline
      | told received now entry hsends hfound' hfresh hregistered => exact .inl hline
      | queued received now asked deeds hsends hstale hasked =>
        rcases List.mem_append.mp hline with hmem | hnew
        · exact .inl hmem
        · rw [List.mem_singleton.mp hnew] at hold
          exact .inr ⟨now, rfl, hstale old hold⟩
    · exact absurd rfl (hnobody line hline)

theorem SentAt.lt {number : ℕ} {nick text : Str} (h : SentAt config past number nick text) : number < past.length := by
  obtain ⟨event, hevent, -⟩ := h
  simpa using (List.getElem?_eq_some_iff.mp hevent).1

theorem SentAt.later {number : ℕ} {nick text : Str} (h : SentAt config past number nick text) :
    SentAt config (event :: past) number nick text := by
  have hlt := h.lt
  obtain ⟨earlier, hearlier, hsends⟩ := h
  refine ⟨earlier, ?_, hsends⟩
  rw [List.reverse_cons, List.getElem?_append_left (by simpa using hlt)]
  exact hearlier

theorem sentAt_new {nick text : Str} (h : event.Sends config nick text) :
    SentAt config (event :: past) past.length nick text := by
  refine ⟨event, ?_, h⟩
  rw [List.reverse_cons, List.getElem?_append_right (by simp)]
  simp

def callTag (pair : Call × ℕ) : Str × ℕ := (lowerName pair.1.nick, pair.2)
def lineTag (pair : Waiting × ℕ) : Str × ℕ := (lowerName pair.1.nick, pair.2)

variable (config) in
structure Numbered (past : List Event) (calls : List (Call × ℕ)) (lines : List (Waiting × ℕ)) : Prop where
  allCalls : calls.map Prod.fst = callsAfter config past
  allLines : lines.map Prod.fst = (after config past).waiting
  sentCalls : ∀ pair ∈ calls, ∃ text, SentAt config past pair.2 pair.1.nick text ∧ pair.1.text = withSlash text
  sentLines : ∀ pair ∈ lines, SentAt config past pair.2 pair.1.nick pair.1.text
  ordered : InOrder (calls.map callTag ++ lines.map lineTag)

namespace Numbered
variable {calls : List (Call × ℕ)} {lines : List (Waiting × ℕ)}

theorem lt (h : Numbered config past calls lines) : ∀ tag ∈ calls.map callTag ++ lines.map lineTag, tag.2 < past.length := by
  intro tag htag
  rcases List.mem_append.mp htag with hcall | hline
  · obtain ⟨pair, hpair, rfl⟩ := List.mem_map.mp hcall
    obtain ⟨text, hsent, -⟩ := h.sentCalls pair hpair
    exact hsent.lt
  · obtain ⟨pair, hpair, rfl⟩ := List.mem_map.mp hline
    exact (h.sentLines pair hpair).lt

theorem laterCalls (h : Numbered config past calls lines) : ∀ pair ∈ calls,
    ∃ text, SentAt config (event :: past) pair.2 pair.1.nick text ∧ pair.1.text = withSlash text := by
  intro pair hpair
  obtain ⟨text, hsent, htext⟩ := h.sentCalls pair hpair
  exact ⟨text, hsent.later, htext⟩

/-- Nothing is answered, and some of the lines go. -/
theorem dropped (h : Numbered config past calls lines) (hcalls : callsOf (deedsOf config past event) = [])
    {stays : Waiting → Bool} (hwaiting : (after config (event :: past)).waiting = (after config past).waiting.filter stays) :
    Numbered config (event :: past) calls (lines.filter fun pair => stays pair.1) where
  allCalls := by rw [h.allCalls, callsAfter, hcalls, List.append_nil]
  allLines := by
    rw [hwaiting, ← h.allLines, List.filter_map]
    rfl
  sentCalls := h.laterCalls
  sentLines := fun pair hpair => (h.sentLines pair (List.mem_of_mem_filter hpair)).later
  ordered := h.ordered.drop (List.filter_sublist.map _)

/-- The line that comes in waits behind all the others. -/
theorem queued (h : Numbered config past calls lines) (hcalls : callsOf (deedsOf config past event) = [])
    {line : Waiting} (hwaiting : (after config (event :: past)).waiting = (after config past).waiting ++ [line])
    (hsends : event.Sends config line.nick line.text) :
    Numbered config (event :: past) calls (lines ++ [(line, past.length)]) where
  allCalls := by rw [h.allCalls, callsAfter, hcalls, List.append_nil]
  allLines := by rw [hwaiting, ← h.allLines, List.map_append, List.map_singleton]
  sentCalls := h.laterCalls
  sentLines := by
    intro pair hpair
    rcases List.mem_append.mp hpair with hold | hnew
    · exact (h.sentLines pair hold).later
    · rw [List.mem_singleton.mp hnew]
      exact sentAt_new hsends
  ordered := by
    rw [List.map_append, List.map_singleton]
    exact h.ordered.enqueue h.lt

/-- The line that comes in is answered at once: none of the same nick waits. -/
theorem answered (h : Numbered config past calls lines) {call : Call} {text : Str}
    (hcalls : callsOf (deedsOf config past event) = [call])
    (hwaiting : (after config (event :: past)).waiting = (after config past).waiting)
    (hsends : event.Sends config call.nick text) (htext : call.text = withSlash text)
    (hnobody : ∀ line ∈ (after config past).waiting, lowerName line.nick ≠ lowerName call.nick) :
    Numbered config (event :: past) (calls ++ [(call, past.length)]) lines where
  allCalls := by rw [List.map_append, h.allCalls, callsAfter, hcalls, List.map_singleton]
  allLines := by rw [hwaiting, h.allLines]
  sentCalls := by
    intro pair hpair
    rcases List.mem_append.mp hpair with hold | hnew
    · exact h.laterCalls pair hold
    · rw [List.mem_singleton.mp hnew]
      exact ⟨text, sentAt_new hsends, htext⟩
  sentLines := fun pair hpair => (h.sentLines pair hpair).later
  ordered := by
    rw [List.map_append, List.map_singleton]
    refine h.ordered.perform h.lt ?_
    intro tag htag
    obtain ⟨pair, hpair, rfl⟩ := List.mem_map.mp htag
    exact hnobody pair.1 (h.allLines ▸ List.mem_map_of_mem hpair)

/-- All the lines of one nick are answered, in the order they wait. -/
theorem released (h : Numbered config past calls lines) {lowered account : Str}
    (hcalls : callsOf (deedsOf config past event) =
      ((after config past).waiting.filter fun line => lowerName line.nick = lowered).map fun line =>
        callFor config line.nick account line.text)
    (hwaiting : (after config (event :: past)).waiting =
      (after config past).waiting.filter fun line => lowerName line.nick ≠ lowered) :
    Numbered config (event :: past)
      (calls ++ (lines.filter fun pair => lowerName pair.1.nick = lowered).map fun pair =>
        (callFor config pair.1.nick account pair.1.text, pair.2))
      (lines.filter fun pair => lowerName pair.1.nick ≠ lowered) where
  allCalls := by
    rw [List.map_append, h.allCalls, callsAfter, hcalls, ← h.allLines, List.filter_map, List.map_map, List.map_map]
    rfl
  allLines := by
    rw [hwaiting, ← h.allLines, List.filter_map]
    rfl
  sentCalls := by
    intro pair hpair
    rcases List.mem_append.mp hpair with hold | hnew
    · exact h.laterCalls pair hold
    · obtain ⟨line, hline, rfl⟩ := List.mem_map.mp hnew
      exact ⟨line.1.text, (h.sentLines line (List.mem_of_mem_filter hline)).later, rfl⟩
  sentLines := fun pair hpair => (h.sentLines pair (List.mem_of_mem_filter hpair)).later
  ordered := by
    have hrelease := h.ordered.release lowered
    rw [List.filter_map, List.filter_map] at hrelease
    rw [List.map_append, List.map_map]
    exact hrelease

end Numbered

/-- A nick that is answered at once has no line waiting. -/
theorem known_nobodyWaits (hsteady : Steady (event :: past)) {now : ℤ} (hnow : event.time = some now) {lowered : Str}
    {entry : Registration} (hfound : (after config past).registrations.find lowered = some entry)
    (hfresh : now < entry.expires) : ∀ line ∈ (after config past).waiting, lowerName line.nick ≠ lowered := by
  rintro line hline rfl
  obtain ⟨earlier, hearlier, came, hcame, hle⟩ := stale_of_waiting past line hline entry hfound
  have hbefore := hsteady.time_le hnow hearlier hcame
  omega

theorem numbered_after (hsteady : Steady past) : ∃ calls lines, Numbered config past calls lines := by
  induction past with
  | nil => exact ⟨[], [], rfl, rfl, by simp, by simp, List.Pairwise.nil⟩
  | cons event past ih =>
    obtain ⟨calls, lines, h⟩ := ih hsteady.tail
    have hstep := happen_step config (after config past) event
    have hdeeds : deedsOf config past event = (happen config (after config past) event).2 := rfl
    have hafter : after config (event :: past) = (happen config (after config past) event).1 := rfl
    rw [← hdeeds, ← hafter] at hstep
    generalize hsession' : after config (event :: past) = session' at hstep
    generalize hdeeds' : deedsOf config past event = deeds at hstep
    have hdrop (stays : Waiting → Bool) (hcalls : callsOf deeds = [])
        (hwaiting : session'.waiting = (after config past).waiting.filter stays) :
        ∃ calls lines, Numbered config (event :: past) calls lines :=
      ⟨calls, _, h.dropped (by rw [hdeeds', hcalls]) (by rw [hsession', hwaiting])⟩
    have hsame (hcalls : callsOf deeds = []) (hwaiting : session'.waiting = (after config past).waiting) :
        ∃ calls lines, Numbered config (event :: past) calls lines :=
      hdrop (fun _ => true) hcalls (by simp [hwaiting])
    cases hstep with
    | connected deeds hcalls => exact hdrop (fun _ => false) hcalls (by simp [Session.start])
    | tick now => exact hdrop _ rfl rfl
    | idle received now nick joined deeds hcalls hends hgone => exact hsame hcalls rfl
    | identified received now account identity hasked hwhat => exact hsame rfl rfl
    | answered received now identity hcommand hasked =>
      by_cases hregistered : identity.registered = true
      · have hcalls : callsOf (deedsOf config past (.message received now)) =
            ((after config past).waiting.filter fun line => lowerName line.nick = lowerName (received.param 1)).map
              fun line => callFor config line.nick
                (if identity.account = [] then lowerName (received.param 1) else identity.account) line.text := by
          rw [hdeeds', release]
          dsimp only
          rw [callsOf_releaseEach, if_pos (by exact hregistered)]
          rfl
        exact ⟨_, _, h.released hcalls (by rw [hsession']; rfl)⟩
      · refine hdrop _ ?_ rfl
        rw [release]
        dsimp only
        rw [callsOf_releaseEach, if_neg (by exact hregistered)]
    | lost received now hcommand => exact hdrop _ rfl rfl
    | departed received now hgone hother => exact hsame rfl rfl
    | known received now entry hsends hfound hfresh hregistered =>
      have hcall : callsOf (deedsOf config past (.message received now)) =
          [callFor config (nickOf received.messagePrefix) entry.account (received.param 1)] := by
        rw [hdeeds']
        rfl
      exact ⟨_, _, h.answered hcall (by rw [hsession']) hsends rfl (known_nobodyWaits hsteady rfl hfound hfresh)⟩
    | told received now entry hsends hfound hfresh hregistered => exact hsame rfl rfl
    | queued received now asked deeds hsends hstale hasked =>
      refine ⟨_, _, h.queued ?_ (by rw [hsession']) hsends⟩
      rw [hdeeds']
      rcases hasked with ⟨-, -, rfl⟩ | ⟨-, -, rfl⟩
      · rfl
      · rfl

/-- The message with a number comes from one nick. -/
theorem SentAt.unique {number : ℕ} {nick text nick' text' : Str} (h : SentAt config past number nick text)
    (h' : SentAt config past number nick' text') : nick = nick' := by
  obtain ⟨event, hevent, hsends⟩ := h
  obtain ⟨event', hevent', hsends'⟩ := h'
  cases hevent.symm.trans hevent'
  cases event with
  | connected => exact hsends.elim
  | tick now => exact hsends.elim
  | message received now => exact hsends.2.2.1.symm.trans hsends'.2.2.1

theorem Numbered.ordered_calls {calls : List (Call × ℕ)} {lines : List (Waiting × ℕ)}
    (h : Numbered config past calls lines) :
    calls.Pairwise fun first second => lowerName first.1.nick = lowerName second.1.nick → first.2 < second.2 :=
  List.pairwise_map.mp (InOrder.append_iff.mp h.ordered).1

theorem Numbered.nodup {calls : List (Call × ℕ)} {lines : List (Waiting × ℕ)}
    (h : Numbered config past calls lines) : (calls.map Prod.snd).Nodup := by
  rw [List.Nodup, List.pairwise_map]
  refine h.ordered_calls.imp_of_mem ?_
  intro first second hfirst hsecond hearlier hsame
  obtain ⟨text, hsent, -⟩ := h.sentCalls first hfirst
  obtain ⟨text', hsent', -⟩ := h.sentCalls second hsecond
  rw [← hsame] at hsent'
  have hlt := hearlier (by rw [hsent.unique hsent'])
  omega

theorem handle_sends {received : Message} {now : ℤ}
    (hsends : (Event.message received now).Sends config (nickOf received.messagePrefix) (received.param 1))
    (hsomebody : nickOf received.messagePrefix ≠ [])
    (hother : sameName (nickOf received.messagePrefix) session.nick = false) :
    handle config session received now =
      handleCommand config session (nickOf received.messagePrefix) (received.param 1) now := by
  obtain ⟨hcommand, hchannel, -, -, hforBot⟩ := hsends
  have hnot : ∀ word ∈ ["PING", "ERROR", "001", "376", "422", "433", "437", "JOIN", "KICK", "307", "330", "318", "401",
      "NICK", "QUIT", "PART"], utf8 "PRIVMSG" ≠ utf8 word := by decide
  simp only [List.mem_cons, List.not_mem_nil, or_false, forall_eq_or_imp, forall_eq] at hnot
  obtain ⟨hping, herror, h001, h376, h422, h433, h437, hjoin, hkick, h307, h330, h318, h401, hnick, hquit, hpart⟩ := hnot
  simp [handle, handlePrivmsg, isDeparture, *]

/-- Nothing is known of a nick and nothing is asked about it: its line has WHOIS asked. -/
theorem dealt_with {received : Message} {now : ℤ}
    (hsends : (Event.message received now).Sends config (nickOf received.messagePrefix) (received.param 1))
    (hsomebody : nickOf received.messagePrefix ≠ [])
    (hother : sameName (nickOf received.messagePrefix) session.nick = false)
    (hasked : session.asked.find (lowerName (nickOf received.messagePrefix)) = none) :
    (∃ entry, session.registrations.find (lowerName (nickOf received.messagePrefix)) = some entry ∧
        now < entry.expires) ∨
      .line (commandLine (utf8 "WHOIS") [nickOf received.messagePrefix] none) ∈ (handle config session received now).2 := by
  rw [handle_sends hsends hsomebody hother, handleCommand]
  dsimp only
  cases hknown : (session.registrations.find (lowerName (nickOf received.messagePrefix))).filter
      fun known => now < known.expires with
  | some entry =>
    obtain ⟨hfound, hfresh⟩ := Option.filter_eq_some_iff.mp hknown
    exact .inl ⟨entry, hfound, by simpa using hfresh⟩
  | none =>
    dsimp only
    rw [hasked, if_neg (by simp)]
    exact .inr (List.mem_singleton_self _)

/-- Every line for the bot is answered once at most, those of one nick in the order they came; whoever is
asked about has a line that waits, and nobody is left waiting for an answer that does not come. -/
theorem commands_in_order (config : SessionConfig) (past : List Event) (hsteady : Steady past) :
    (∃ numbered : List (Call × ℕ), numbered.map Prod.fst = callsAfter config past ∧
      (∀ pair ∈ numbered, ∃ text, SentAt config past pair.2 pair.1.nick text ∧ pair.1.text = withSlash text) ∧
      (numbered.map Prod.snd).Nodup ∧
      numbered.Pairwise fun first second => lowerName first.1.nick = lowerName second.1.nick → first.2 < second.2) ∧
    (∀ lowered, ((after config past).asked.find lowered).isSome = true →
      ∃ line ∈ (after config past).waiting, lowerName line.nick = lowered) ∧
    (∀ now lowered, ((after config (.tick now :: past)).asked.find lowered).isSome = true →
      ∃ line ∈ (after config (.tick now :: past)).waiting, lowerName line.nick = lowered ∧ now < line.deadline) ∧
    (0 < config.whoisSeconds → ∀ received now late,
      (Event.message received now).Sends config (nickOf received.messagePrefix) (received.param 1) →
      nickOf received.messagePrefix ≠ [] →
      sameName (nickOf received.messagePrefix) (after config past).nick = false →
      .tick late ∈ past →
      (∀ came, LastQueued config (lowerName (nickOf received.messagePrefix)) came past →
        came + config.whoisSeconds ≤ late) →
      (∃ entry, (after config past).registrations.find (lowerName (nickOf received.messagePrefix)) = some entry ∧
          now < entry.expires) ∨
        .line (commandLine (utf8 "WHOIS") [nickOf received.messagePrefix] none) ∈
          deedsOf config past (.message received now)) := by
  refine ⟨?_, fun lowered => asked_waits past, fun now lowered => asked_waits_tick past now, ?_⟩
  · obtain ⟨calls, lines, h⟩ := numbered_after hsteady
    exact ⟨calls, h.allCalls, h.sentCalls, h.nodup, h.ordered_calls⟩
  · intro hwhois received now late hsends hsomebody hother htick hlong
    exact dealt_with hsends hsomebody hother (not_asked hsteady hwhois htick hlong)

/-- Three lines of one nick: the first is given up, the second has WHOIS asked again and is answered at its end, and the
third at once. The last comes first. -/
def adaPast : List Event :=
  [fromAda "PRIVMSG" ["#regno", "!take ⚡"] 1013, fromAda "318" ["bot", "Ada"] 1012, fromAda "330" ["bot", "Ada", "adair"] 1012,
    fromAda "PRIVMSG" ["#regno", "!store ⚡"] 1011, .tick 1010, fromAda "PRIVMSG" ["#regno", "!take ⚡"] 1000]

theorem commands_in_order_ada :
    (callsAfter plainConfig adaPast).map Call.text = [utf8 "/store ⚡", utf8 "/take ⚡"] ∧
      ∃ numbered : List (Call × ℕ), numbered.map Prod.fst = callsAfter plainConfig adaPast ∧
        (numbered.map Prod.snd).Nodup ∧
        numbered.Pairwise fun first second => lowerName first.1.nick = lowerName second.1.nick → first.2 < second.2 := by
  have hsteady : Steady adaPast := by simp [Steady, adaPast, fromAda, Event.time]
  obtain ⟨numbered, hcalls, -, honce, hinorder⟩ := (commands_in_order plainConfig adaPast hsteady).1
  exact ⟨by decide +kernel, numbered, hcalls, honce, hinorder⟩

end NorelecBot.Irc
