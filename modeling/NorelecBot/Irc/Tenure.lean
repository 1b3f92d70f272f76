import NorelecBot.Irc.OneLine
import NorelecBot.Irc.Steps

/-! # Who plays under a nick

A command is run with the account WHOIS named for whoever held the nick. A nick
that changes, quits or parts loses its answer, but its lines that still wait are
released by the answer of the next one; and a kick takes the answer from whoever
kicked. As long as nobody leaves with a line waiting and nobody known is kicked,
who sent the line and who was identified never left the nick in between.
-/

namespace NorelecBot.Irc
open Lib

variable (config : SessionConfig)

/-- WHOIS came back for a nick with that account, and its answer is still good. -/
def WhoisSaid (lowered account : Str) (now : ℤ) (past : List Event) (event : Event) : Prop :=
  event.Ends lowered ∧
    (∃ came, event.time = some came ∧ now - came < config.registrationSeconds) ∧
    Since (fun _ earlier => earlier.Identifies lowered) (fun other => ¬ other.Ends lowered) past ∧
    (account = lowered ∨
      Since (fun _ earlier => earlier.Names lowered account) (fun other => ¬ other.Ends lowered) past)

/-- The one who sent the line of a call is the one WHOIS identified: whichever of the two came first,
he did not leave before the other. -/
def Call.Verified (past : List Event) (event : Event) (call : Call) : Prop :=
  ∃ now text, event.time = some now ∧ call.text = withSlash text ∧
    (event.Sends config call.nick text ∧
        Since (WhoisSaid config (lowerName call.nick) call.account now)
          (fun other => ¬ other.Departs (lowerName call.nick)) past ∨
      WhoisSaid config (lowerName call.nick) call.account now past event ∧
        Since (fun _ earlier => earlier.Sends config call.nick text)
          (fun other => ¬ other.Departs (lowerName call.nick)) past)

def NobodyWaits (session : Session) (lowered : Str) : Prop :=
  ∀ line ∈ session.waiting, lowerName line.nick ≠ lowered

/-- The nick is kept as an identified one. -/
def Known (session : Session) (lowered : Str) : Prop :=
  ∃ entry, session.registrations.find lowered = some entry ∧ entry.registered = true

/-- Nobody leaves while a line of his waits, and nobody is kicked by another while he is known. -/
def Undisturbed (session : Session) : Event → Prop
  | .message received _ =>
    (isDeparture received.command = true → received.command ≠ utf8 "KICK" →
        NobodyWaits session (lowerName (nickOf received.messagePrefix))) ∧
      (received.command = utf8 "KICK" →
        NobodyWaits session (lowerName (received.param 1)) ∧
          (lowerName (nickOf received.messagePrefix) ≠ lowerName (received.param 1) ∨
              sameName (received.param 1) session.nick = true →
            ¬ Known session (lowerName (received.param 1))))
  | _ => True

instance (session : Session) (lowered : Str) : Decidable (NobodyWaits session lowered) :=
  inferInstanceAs (Decidable (∀ line ∈ session.waiting, lowerName line.nick ≠ lowered))

theorem known_iff {session : Session} {lowered : Str} :
    (session.registrations.find lowered).any Registration.registered = true ↔ Known session lowered := by
  rw [Known]
  cases session.registrations.find lowered with
  | none => simp
  | some entry => simp

instance (session : Session) (lowered : Str) : Decidable (Known session lowered) := decidable_of_iff _ known_iff

instance (session : Session) : DecidablePred (Undisturbed session)
  | .connected => inferInstanceAs (Decidable True)
  | .tick _ => inferInstanceAs (Decidable True)
  | .message _ _ => inferInstanceAs (Decidable (_ ∧ _))

/-- What stands behind everything a session knows. -/
structure Tenure (past : List Event) (session : Session) : Prop where
  known : ∀ lowered entry, session.registrations.find lowered = some entry → entry.registered = true →
    ∀ now < entry.expires, Since (WhoisSaid config lowered entry.account now) (fun other => ¬ other.Departs lowered) past
  asked : ∀ lowered identity, session.asked.find lowered = some identity →
    (identity.registered = true →
        Since (fun _ earlier => earlier.Identifies lowered) (fun other => ¬ other.Ends lowered) past) ∧
      (identity.account ≠ [] →
        Since (fun _ earlier => earlier.Names lowered identity.account) (fun other => ¬ other.Ends lowered) past)
  waiting : ∀ line ∈ session.waiting,
    Since (fun _ earlier => earlier.Sends config line.nick line.text)
      (fun other => ¬ other.Departs (lowerName line.nick)) past

variable {config} {session session' : Session} {past : List Event} {event : Event} {deeds : List Deed}

theorem departs_isDeparture {received : Message} {now : ℤ} {lowered : Str}
    (h : (Event.message received now).Departs lowered) : isDeparture received.command = true := by
  rcases h with ⟨hnick | hquit | hpart, -⟩ | ⟨hkick, -⟩
  · rw [hnick]
    decide
  · rw [hquit]
    decide
  · rw [hpart]
    decide
  · rw [hkick]
    decide

/-- Whoever leaves has no line waiting. -/
theorem Undisturbed.nobodyWaits (h : Undisturbed session event) {lowered : Str} (hgone : event.Departs lowered) :
    NobodyWaits session lowered := by
  cases event with
  | connected => exact hgone.elim
  | tick now => exact hgone.elim
  | message received now =>
    have hdeparture := departs_isDeparture hgone
    rcases hgone with ⟨hcommand, rfl⟩ | ⟨hkick, rfl⟩
    · refine h.1 hdeparture fun hkick => ?_
      rw [hkick] at hcommand
      exact absurd hcommand (by decide)
    · exact (h.2 hkick).1

/-- Whoever leaves while he is known is the one the message comes from. -/
theorem Undisturbed.known (h : Undisturbed session event) {lowered : Str} (hgone : event.Departs lowered)
    (hknown : Known session lowered) :
    ∃ received now, event = .message received now ∧ lowerName (nickOf received.messagePrefix) = lowered ∧
      (received.command = utf8 "KICK" → sameName (received.param 1) session.nick = false) := by
  cases event with
  | connected => exact hgone.elim
  | tick now => exact hgone.elim
  | message received now =>
    refine ⟨received, now, rfl, ?_⟩
    rcases hgone with ⟨hcommand, rfl⟩ | ⟨hkick, rfl⟩
    · refine ⟨rfl, fun hkick => ?_⟩
      rw [hkick] at hcommand
      exact absurd hcommand (by decide)
    · by_contra hnot
      refine (h.2 hkick).2 ?_ hknown
      by_contra hself
      push Not at hself
      exact hnot ⟨hself.1, fun _ => by simpa using hself.2⟩

/-- What a session knew and still knows stands, whatever happened. -/
theorem Tenure.kept_waiting (h : Tenure config past session) (hcalm : Undisturbed session event) {line : Waiting}
    (hline : line ∈ session.waiting) :
    Since (fun _ earlier => earlier.Sends config line.nick line.text)
      (fun other => ¬ other.Departs (lowerName line.nick)) (event :: past) :=
  (h.waiting line hline).kept fun hgone => hcalm.nobodyWaits hgone line hline rfl

theorem Tenure.kept_known (h : Tenure config past session) {lowered : Str} {entry : Registration}
    (hfound : session.registrations.find lowered = some entry) (hregistered : entry.registered = true)
    (hstays : ¬ event.Departs lowered) {now : ℤ} (hfresh : now < entry.expires) :
    Since (WhoisSaid config lowered entry.account now) (fun other => ¬ other.Departs lowered) (event :: past) :=
  (h.known lowered entry hfound hregistered now hfresh).kept hstays

theorem Tenure.kept_asked (h : Tenure config past session) {lowered : Str} {identity : Identity}
    (hfound : session.asked.find lowered = some identity) (hgoes : ¬ event.Ends lowered) :
    (identity.registered = true →
        Since (fun _ earlier => earlier.Identifies lowered) (fun other => ¬ other.Ends lowered) (event :: past)) ∧
      (identity.account ≠ [] →
        Since (fun _ earlier => earlier.Names lowered identity.account) (fun other => ¬ other.Ends lowered)
          (event :: past)) :=
  ⟨fun hregistered => ((h.asked lowered identity hfound).1 hregistered).kept hgoes,
    fun haccount => ((h.asked lowered identity hfound).2 haccount).kept hgoes⟩

/-- A message that is neither a departure nor the end of a WHOIS, and leaves the three tables alone. -/
theorem Tenure.same (h : Tenure config past session) (hcalm : Undisturbed session event)
    (hregistrations : session'.registrations = session.registrations) (hasked : session'.asked = session.asked)
    (hwaiting : session'.waiting = session.waiting)
    (hends : ∀ lowered, event.Ends lowered → session.asked.find lowered = none)
    (hstays : ∀ lowered, event.Departs lowered → ¬ Known session lowered) : Tenure config (event :: past) session' where
  known := by
    intro lowered entry hfound hregistered now hfresh
    rw [hregistrations] at hfound
    exact h.kept_known hfound hregistered (fun hgone => hstays lowered hgone ⟨entry, hfound, hregistered⟩) hfresh
  asked := by
    intro lowered identity hfound
    rw [hasked] at hfound
    refine h.kept_asked hfound fun hend => ?_
    rw [hends lowered hend] at hfound
    cases hfound
  waiting := by
    intro line hline
    rw [hwaiting] at hline
    exact h.kept_waiting hcalm hline

theorem Tenure.ticked (h : Tenure config past session) (now : ℤ) :
    Tenure config (.tick now :: past) (tick session now) := by
  have hcalm : Undisturbed session (.tick now) := trivial
  refine ⟨?_, fun lowered identity hfound => h.kept_asked (find_foldl_erase hfound).1 id,
    fun line hline => h.kept_waiting hcalm (List.mem_of_mem_filter hline)⟩
  intro lowered entry hfound hregistered soon hfresh
  rw [tick, OrderedMap.find_filter] at hfound
  obtain ⟨hfound', -⟩ := Option.filter_eq_some_iff.mp hfound
  exact h.kept_known hfound' hregistered id hfresh

theorem Tenure.identified (h : Tenure config past session) {received : Message} {now : ℤ} {account : Option Str}
    {identity : Identity} (hasked : session.asked.find (lowerName (received.param 1)) = some identity)
    (hwhat : received.command = utf8 "307" ∧ account = none ∨
      received.command = utf8 "330" ∧ received.param 2 ≠ [] ∧ account = some (received.param 2))
    (hcalm : Undisturbed session (.message received now)) :
    Tenure config (.message received now :: past)
      { session with
        asked := session.asked.set (lowerName (received.param 1))
          { registered := true, account := account.getD identity.account } } := by
  have hcommand : received.command = utf8 "307" ∨ received.command = utf8 "330" := by
    rcases hwhat with ⟨h307, -⟩ | ⟨h330, -⟩
    · exact .inl h307
    · exact .inr h330
  have hgoes (lowered : Str) : ¬ (Event.message received now).Ends lowered := by
    rintro ⟨hend, -⟩
    rw [hend] at hcommand
    exact absurd hcommand (by decide)
  have hstays (lowered : Str) : ¬ (Event.message received now).Departs lowered := by
    intro hgone
    have hdeparture := departs_isDeparture hgone
    rcases hcommand with h307 | h330
    · rw [h307] at hdeparture
      exact absurd hdeparture (by decide)
    · rw [h330] at hdeparture
      exact absurd hdeparture (by decide)
  refine ⟨?_, ?_, fun line hline => h.kept_waiting hcalm hline⟩
  · intro lowered entry hfound hregistered soon hfresh
    exact h.kept_known hfound hregistered (hstays lowered) hfresh
  · intro lowered other hfound
    rw [OrderedMap.find_set] at hfound
    split_ifs at hfound with hsame
    · cases hfound
      subst hsame
      constructor
      · intro _
        refine .begun ⟨?_, rfl⟩
        rcases hwhat with ⟨h307, -⟩ | ⟨h330, hnamed, -⟩
        · exact .inl h307
        · exact .inr ⟨h330, hnamed⟩
      · intro haccount
        rcases hwhat with ⟨-, rfl⟩ | ⟨h330, hnamed, rfl⟩
        · exact ((h.asked _ identity hasked).2 haccount).kept (hgoes _)
        · exact .begun ⟨h330, rfl, rfl⟩
    · exact h.kept_asked hfound (hgoes lowered)

/-- The answer a WHOIS ends with stands on what came of it. -/
theorem Tenure.whoisSaid (h : Tenure config past session) {received : Message} {now soon : ℤ} {identity : Identity}
    (hcommand : received.command = utf8 "318")
    (hasked : session.asked.find (lowerName (received.param 1)) = some identity) (hregistered : identity.registered = true)
    (hfresh : soon < now + config.registrationSeconds) :
    WhoisSaid config (lowerName (received.param 1))
      (if identity.account = [] then lowerName (received.param 1) else identity.account) soon past
      (.message received now) := by
  obtain ⟨hidentified, hnamed⟩ := h.asked _ identity hasked
  refine ⟨⟨hcommand, rfl⟩, ⟨now, rfl, by omega⟩, hidentified hregistered, ?_⟩
  by_cases hempty : identity.account = []
  · exact .inl (if_pos hempty)
  · rw [if_neg hempty]
    exact .inr (hnamed hempty)

theorem Tenure.answered (h : Tenure config past session) {received : Message} {now : ℤ} {identity : Identity}
    (hcommand : received.command = utf8 "318")
    (hasked : session.asked.find (lowerName (received.param 1)) = some identity)
    (hcalm : Undisturbed session (.message received now)) :
    Tenure config (.message received now :: past)
      (release config { session with asked := session.asked.erase (lowerName (received.param 1)) }
        (lowerName (received.param 1)) identity.registered identity.account now).1 := by
  have hstays (lowered : Str) : ¬ (Event.message received now).Departs lowered := by
    intro hgone
    have hdeparture := departs_isDeparture hgone
    rw [hcommand] at hdeparture
    exact absurd hdeparture (by decide)
  obtain ⟨hsame, haccount, hexpires⟩ := releaseEach_account config (lowerName (received.param 1)) now
    (registrationOf config { session with asked := session.asked.erase (lowerName (received.param 1)) }
      (lowerName (received.param 1)) identity.registered identity.account now) session.waiting
  refine ⟨?_, ?_, ?_⟩
  · intro lowered entry hfound hregistered soon hfresh
    rw [release, OrderedMap.find_set] at hfound
    split_ifs at hfound with hthis
    · cases hfound
      subst hthis
      rw [haccount]
      rw [hexpires] at hfresh
      rw [hsame] at hregistered
      exact .begun (h.whoisSaid hcommand hasked hregistered hfresh)
    · exact h.kept_known hfound hregistered (hstays lowered) hfresh
  · intro lowered other hfound
    rw [release, OrderedMap.find_erase] at hfound
    split_ifs at hfound with hthis
    refine h.kept_asked hfound ?_
    rintro ⟨-, heq⟩
    exact hthis heq.symm
  · intro line hline
    exact h.kept_waiting hcalm (List.mem_of_mem_filter hline)

theorem Tenure.departed (h : Tenure config past session) {received : Message} {now : ℤ}
    (hgone : isDeparture received.command = true) (hcalm : Undisturbed session (.message received now)) :
    Tenure config (.message received now :: past)
      { session with registrations := session.registrations.erase (lowerName (nickOf received.messagePrefix)) } := by
  have hgoes (lowered : Str) : ¬ (Event.message received now).Ends lowered := by
    rintro ⟨hend, -⟩
    rw [hend] at hgone
    exact absurd hgone (by decide)
  refine ⟨?_, fun lowered identity hfound => h.kept_asked hfound (hgoes lowered),
    fun line hline => h.kept_waiting hcalm hline⟩
  intro lowered entry hfound hregistered soon hfresh
  rw [OrderedMap.find_erase] at hfound
  split_ifs at hfound with hsender
  refine h.kept_known hfound hregistered (fun hleaves => ?_) hfresh
  obtain ⟨received', now', heq, hself, -⟩ := hcalm.known hleaves ⟨entry, hfound, hregistered⟩
  cases heq
  exact hsender hself.symm

/-- A line for the bot is neither a departure nor the end of a WHOIS. -/
theorem sends_quiet {received : Message} {now : ℤ} {nick text : Str}
    (h : (Event.message received now).Sends config nick text) (lowered : Str) :
    ¬ (Event.message received now).Departs lowered ∧ ¬ (Event.message received now).Ends lowered := by
  have hcommand := h.1
  constructor
  · intro hgone
    have hdeparture := departs_isDeparture hgone
    rw [hcommand] at hdeparture
    exact absurd hdeparture (by decide)
  · rintro ⟨hend, -⟩
    rw [hcommand] at hend
    exact absurd hend (by decide)

/-- Every step of a run keeps what stands behind everything the session knows. -/
theorem Tenure.step (h : Tenure config past session) (hcalm : Undisturbed session event)
    (hstep : Step config session event session' deeds) : Tenure config (event :: past) session' := by
  cases hstep with
  | connected deeds hcalls =>
    exact ⟨fun _ _ hfound => by simp [Session.start] at hfound, fun _ _ hfound => by simp [Session.start] at hfound,
      fun _ hline => by simp [Session.start] at hline⟩
  | tick now => exact h.ticked now
  | idle received now nick joined deeds hcalls hends hgone =>
    refine h.same hcalm rfl rfl rfl ?_ ?_
    · rintro lowered ⟨hend, rfl⟩
      exact hends hend
    · intro lowered hleaves hknown
      obtain ⟨hkick, hbot⟩ := hgone (departs_isDeparture hleaves)
      obtain ⟨received', now', heq, -, hother⟩ := hcalm.known hleaves hknown
      cases heq
      rw [hother hkick] at hbot
      cases hbot
  | identified received now account identity hasked hwhat => exact h.identified hasked hwhat hcalm
  | answered received now identity hcommand hasked => exact h.answered hcommand hasked hcalm
  | lost received now hcommand =>
    have hstays (lowered : Str) : ¬ (Event.message received now).Departs lowered := by
      intro hgone
      have hdeparture := departs_isDeparture hgone
      rw [hcommand] at hdeparture
      exact absurd hdeparture (by decide)
    refine ⟨fun lowered entry hfound hregistered soon hfresh =>
      h.kept_known hfound hregistered (hstays lowered) hfresh, ?_,
      fun line hline => h.kept_waiting hcalm (List.mem_of_mem_filter hline)⟩
    intro lowered identity hfound
    rw [noSuchNick, OrderedMap.find_erase] at hfound
    split_ifs at hfound with hthis
    refine h.kept_asked hfound ?_
    rintro ⟨hend, -⟩
    rw [hcommand] at hend
    exact absurd hend (by decide)
  | departed received now hgone hother => exact h.departed hgone hcalm
  | known received now entry hsends hfound hfresh hregistered =>
    exact h.same hcalm rfl rfl rfl (fun lowered hend => absurd hend (sends_quiet hsends lowered).2)
      fun lowered hgone => absurd hgone (sends_quiet hsends lowered).1
  | told received now entry hsends hfound hfresh hregistered =>
    refine ⟨?_, fun lowered identity hasked => h.kept_asked hasked (sends_quiet hsends lowered).2,
      fun line hline => h.kept_waiting hcalm hline⟩
    intro lowered other hother hyes soon hsoon
    rw [OrderedMap.find_set] at hother
    split_ifs at hother with hthis
    · cases hother
      rw [hregistered] at hyes
      cases hyes
    · exact h.kept_known hother hyes (sends_quiet hsends lowered).1 hsoon
  | queued received now asked deeds hsends hstale hasked =>
    refine ⟨fun lowered entry hfound hregistered soon hfresh =>
      h.kept_known hfound hregistered (sends_quiet hsends lowered).1 hfresh, ?_, ?_⟩
    · intro lowered identity hfound
      rcases hasked with ⟨-, rfl, -⟩ | ⟨-, rfl, -⟩
      · exact h.kept_asked hfound (sends_quiet hsends lowered).2
      · rw [OrderedMap.find_set] at hfound
        split_ifs at hfound with hthis
        · cases hfound
          exact ⟨fun hyes => absurd hyes Bool.false_ne_true, fun haccount => absurd rfl haccount⟩
        · exact h.kept_asked hfound (sends_quiet hsends lowered).2
    · intro line hline
      rcases List.mem_append.mp hline with hold | hnew
      · exact h.kept_waiting hcalm hold
      · rw [List.mem_singleton.mp hnew]
        exact .begun hsends

/-- Whatever is asked of the responder is asked for somebody who was identified. -/
theorem Tenure.verified (h : Tenure config past session) (hpositive : 0 < config.registrationSeconds)
    (hstep : Step config session event session' deeds) : ∀ call ∈ callsOf deeds, call.Verified config past event := by
  intro call hcall
  cases hstep with
  | connected deeds hcalls =>
    rw [hcalls] at hcall
    simp at hcall
  | tick now => simp [callsOf] at hcall
  | idle received now nick joined deeds hcalls hends hgone =>
    rw [hcalls] at hcall
    simp at hcall
  | identified received now account identity hasked hwhat => simp [callsOf] at hcall
  | answered received now identity hcommand hasked =>
    have hreleased := callsOf_releaseEach config (lowerName (received.param 1)) now
      (registrationOf config { session with asked := session.asked.erase (lowerName (received.param 1)) }
        (lowerName (received.param 1)) identity.registered identity.account now) session.waiting
    rw [release] at hcall
    dsimp only at hcall
    rw [hreleased] at hcall
    by_cases hregistered : identity.registered = true
    · rw [registrationOf, if_pos hregistered, List.mem_map] at hcall
      obtain ⟨line, hline, rfl⟩ := hcall
      obtain ⟨hwaits, hnick⟩ := List.mem_filter.mp hline
      have hlowered : lowerName line.nick = lowerName (received.param 1) := by simpa using hnick
      refine ⟨now, line.text, rfl, rfl, .inr ⟨?_, h.waiting line hwaits⟩⟩
      rw [callFor, hlowered]
      exact h.whoisSaid hcommand hasked hregistered (by omega)
    · rw [registrationOf, if_neg hregistered] at hcall
      simp at hcall
  | lost received now hcommand => simp [callsOf] at hcall
  | departed received now hgone hother => simp [callsOf] at hcall
  | known received now entry hsends hfound hfresh hregistered =>
    rw [mem_callsOf, List.mem_singleton] at hcall
    cases hcall
    exact ⟨now, received.param 1, rfl, rfl, .inl ⟨hsends, h.known _ entry hfound hregistered now hfresh⟩⟩
  | told received now entry hsends hfound hfresh hregistered => simp [callsOf] at hcall
  | queued received now asked deeds hsends hstale hasked =>
    rcases hasked with ⟨-, -, rfl⟩ | ⟨-, -, rfl⟩
    · simp [callsOf] at hcall
    · simp [callsOf] at hcall

theorem tenure_after (hcalm : Throughout (fun past event => Undisturbed (after config past) event) past) :
    Tenure config past (after config past) := by
  refine @Throughout.invariant _ _ _ (fun past => Tenure config past (after config past)) hcalm ?_ ?_
  · exact ⟨fun _ _ hfound => by simp [after, Session.start] at hfound,
      fun _ _ hfound => by simp [after, Session.start] at hfound, fun _ hline => by simp [after, Session.start] at hline⟩
  · intro past event hcalm htenure
    exact htenure.step hcalm (happen_step _ _ _)

/-- Only the one who was identified for a nick plays under it, whatever comes in and in whatever order. -/
theorem verified_holder_plays (config : SessionConfig) (hpositive : 0 < config.registrationSeconds) (past : List Event)
    (event : Event) (hcalm : Throughout (fun past event => Undisturbed (after config past) event) (event :: past)) :
    ∀ call, .answer call ∈ deedsOf config past event → call.Verified config past event := by
  intro call hcall
  exact (tenure_after hcalm.2).verified hpositive (happen_step _ _ _) call (mem_callsOf.mpr hcall)

theorem verified_holder_plays_ada :
    Call.Verified plainConfig
      [fromServer "330" ["bot", "Ada", "AdaAccount"] 1001, fromAda "PRIVMSG" ["#regno", "!take ⚡"] 1000]
      (fromServer "318" ["bot", "Ada"] 1001)
      { nick := utf8 "Ada", account := utf8 "AdaAccount", owner := false, text := utf8 "/take ⚡" } :=
  verified_holder_plays plainConfig (by decide) _ _ (by decide +kernel) _ (by decide +kernel)

/-- Ada says something, gives the nick up before WHOIS comes back, and it comes back for the next one. -/
theorem next_holder_answers : ∃ call,
    .answer call ∈ deedsOf plainConfig
      [fromServer "307" ["bot", "Ada"] 1002, fromAda "NICK" ["Eva"] 1001, fromAda "PRIVMSG" ["#regno", "!take ⚡"] 1000]
      (fromServer "318" ["bot", "Ada"] 1002) ∧
    ¬ call.Verified plainConfig
      [fromServer "307" ["bot", "Ada"] 1002, fromAda "NICK" ["Eva"] 1001, fromAda "PRIVMSG" ["#regno", "!take ⚡"] 1000]
      (fromServer "318" ["bot", "Ada"] 1002) := by
  refine ⟨{ nick := utf8 "Ada", account := utf8 "ada", owner := false, text := utf8 "/take ⚡" }, by decide +kernel, ?_⟩
  rintro ⟨now, text, -, -, ⟨hsends, -⟩ | ⟨-, hsince⟩⟩
  · exact absurd hsends.1 (by decide)
  · have hgone : (fromAda "NICK" ["Eva"] 1001).Departs (lowerName (utf8 "Ada")) := by decide +kernel
    rcases hsince with hsends | ⟨-, hsends | ⟨hstays, -⟩⟩
    · exact absurd hsends.1 (by decide)
    · exact absurd hsends.1 (by decide)
    · exact hstays hgone

end NorelecBot.Irc
