import NorelecBot.Irc.Session
import NorelecBot.Lib.Since

/-! # What can happen to a session

One constructor for each way a message or a tick changes what a session knows of
the nicks: everything about its runs is proved from these.
-/

namespace NorelecBot.Irc
open Lib

namespace Event

/-- The nick leaves, or changes, or is thrown out. -/
def Departs (lowered : Str) : Event → Prop
  | .message received _ =>
    (received.command = utf8 "NICK" ∨ received.command = utf8 "QUIT" ∨ received.command = utf8 "PART") ∧
        lowerName (nickOf received.messagePrefix) = lowered ∨
      received.command = utf8 "KICK" ∧ lowerName (received.param 1) = lowered
  | _ => False

def Identifies (lowered : Str) : Event → Prop
  | .message received _ =>
    (received.command = utf8 "307" ∨ received.command = utf8 "330" ∧ received.param 2 ≠ []) ∧
      lowerName (received.param 1) = lowered
  | _ => False

def Names (lowered account : Str) : Event → Prop
  | .message received _ =>
    received.command = utf8 "330" ∧ lowerName (received.param 1) = lowered ∧ received.param 2 = account
  | _ => False

/-- A 318 for the nick: all that WHOIS had to say of it was said. -/
def Ends (lowered : Str) : Event → Prop
  | .message received _ => received.command = utf8 "318" ∧ lowerName (received.param 1) = lowered
  | _ => False

/-- A line for the bot, said in the channel by that nick. -/
def Sends (config : SessionConfig) (nick text : Str) : Event → Prop
  | .message received _ =>
    received.command = utf8 "PRIVMSG" ∧ sameName (received.param 0) config.channel = true ∧
      nickOf received.messagePrefix = nick ∧ received.param 1 = text ∧ commandIsForBot (withSlash text) = true
  | _ => False

instance (lowered : Str) : DecidablePred (Departs lowered)
  | .connected => inferInstanceAs (Decidable False)
  | .tick _ => inferInstanceAs (Decidable False)
  | .message _ _ => inferInstanceAs (Decidable (_ ∧ _ ∨ _ ∧ _))

instance (lowered : Str) : DecidablePred (Identifies lowered)
  | .connected => inferInstanceAs (Decidable False)
  | .tick _ => inferInstanceAs (Decidable False)
  | .message _ _ => inferInstanceAs (Decidable (_ ∧ _))

instance (lowered account : Str) : DecidablePred (Names lowered account)
  | .connected => inferInstanceAs (Decidable False)
  | .tick _ => inferInstanceAs (Decidable False)
  | .message _ _ => inferInstanceAs (Decidable (_ ∧ _))

instance (lowered : Str) : DecidablePred (Ends lowered)
  | .connected => inferInstanceAs (Decidable False)
  | .tick _ => inferInstanceAs (Decidable False)
  | .message _ _ => inferInstanceAs (Decidable (_ ∧ _))

instance (config : SessionConfig) (nick text : Str) : DecidablePred (Sends config nick text)
  | .connected => inferInstanceAs (Decidable False)
  | .tick _ => inferInstanceAs (Decidable False)
  | .message _ _ => inferInstanceAs (Decidable (_ ∧ _))

end Event

/-- What comes from the server, and what Ada says in the channel. -/
def fromServer (command : String) (params : List String) (now : ℤ) : Event :=
  .message { messagePrefix := utf8 "server", command := utf8 command, params := params.map utf8 } now

def fromAda (command : String) (params : List String) (now : ℤ) : Event :=
  .message { messagePrefix := utf8 "Ada!~a@host", command := utf8 command, params := params.map utf8 } now

def callsOf (deeds : List Deed) : List Call :=
  deeds.filterMap fun deed => match deed with
    | .answer call => some call
    | _ => none

theorem mem_callsOf {deeds : List Deed} {call : Call} : call ∈ callsOf deeds ↔ .answer call ∈ deeds := by
  rw [callsOf, List.mem_filterMap]
  constructor
  · rintro ⟨deed, hmem, hcall⟩
    cases deed with
    | line text => cases hcall
    | say text => cases hcall
    | answer other =>
      cases hcall
      exact hmem
  · exact fun h => ⟨.answer call, h, rfl⟩

/-- What an event can do to a session, and what it leads to. -/
inductive Step (config : SessionConfig) (session : Session) : Event → Session → List Deed → Prop
  | connected (deeds : List Deed) (hcalls : callsOf deeds = []) : Step config session .connected (.start config) deeds
  | tick (now : ℤ) : Step config session (.tick now) (tick session now) []
  /-- What the session knows of the nicks stays as it is. -/
  | idle (message : Message) (now : ℤ) (nick : Str) (joined : Bool) (deeds : List Deed) (hcalls : callsOf deeds = [])
      (hends : message.command = utf8 "318" → session.asked.find (lowerName (message.param 1)) = none)
      (hgone : isDeparture message.command = true →
        message.command = utf8 "KICK" ∧ sameName (message.param 1) session.nick = true) :
      Step config session (.message message now) { session with nick := nick, joined := joined } deeds
  | identified (message : Message) (now : ℤ) (account : Option Str) (identity : Identity)
      (hasked : session.asked.find (lowerName (message.param 1)) = some identity)
      (hwhat : message.command = utf8 "307" ∧ account = none ∨
        message.command = utf8 "330" ∧ message.param 2 ≠ [] ∧ account = some (message.param 2)) :
      Step config session (.message message now)
        { session with
          asked := session.asked.set (lowerName (message.param 1))
            { registered := true, account := account.getD identity.account } } []
  | answered (message : Message) (now : ℤ) (identity : Identity) (hcommand : message.command = utf8 "318")
      (hasked : session.asked.find (lowerName (message.param 1)) = some identity) :
      Step config session (.message message now)
        (release config { session with asked := session.asked.erase (lowerName (message.param 1)) }
          (lowerName (message.param 1)) identity.registered identity.account now).1
        (release config { session with asked := session.asked.erase (lowerName (message.param 1)) }
          (lowerName (message.param 1)) identity.registered identity.account now).2
  | lost (message : Message) (now : ℤ) (hcommand : message.command = utf8 "401") :
      Step config session (.message message now) (noSuchNick session (lowerName (message.param 1))) []
  | departed (message : Message) (now : ℤ) (hgone : isDeparture message.command = true)
      (hother : message.command = utf8 "KICK" → sameName (message.param 1) session.nick = false) :
      Step config session (.message message now)
        { session with
          registrations := session.registrations.erase (lowerName (nickOf message.messagePrefix)) } []
  | known (message : Message) (now : ℤ) (entry : Registration)
      (hsends : (Event.message message now).Sends config (nickOf message.messagePrefix) (message.param 1))
      (hfound : session.registrations.find (lowerName (nickOf message.messagePrefix)) = some entry)
      (hfresh : now < entry.expires) (hregistered : entry.registered = true) :
      Step config session (.message message now) session
        [answer config (nickOf message.messagePrefix) entry.account (message.param 1)]
  | told (message : Message) (now : ℤ) (entry : Registration)
      (hsends : (Event.message message now).Sends config (nickOf message.messagePrefix) (message.param 1))
      (hfound : session.registrations.find (lowerName (nickOf message.messagePrefix)) = some entry)
      (hfresh : now < entry.expires) (hregistered : entry.registered = false) :
      Step config session (.message message now)
        { session with
          registrations := session.registrations.set (lowerName (nickOf message.messagePrefix)) { entry with told := now } }
        [.say (unregisteredReply (nickOf message.messagePrefix))]
  | queued (message : Message) (now : ℤ) (asked : OrderedMap Str Identity) (deeds : List Deed)
      (hsends : (Event.message message now).Sends config (nickOf message.messagePrefix) (message.param 1))
      (hstale : ∀ entry, session.registrations.find (lowerName (nickOf message.messagePrefix)) = some entry →
        entry.expires ≤ now)
      (hasked : (session.asked.find (lowerName (nickOf message.messagePrefix))).isSome = true ∧
          asked = session.asked ∧ deeds = [] ∨
        session.asked.find (lowerName (nickOf message.messagePrefix)) = none ∧
          asked = session.asked.set (lowerName (nickOf message.messagePrefix)) {} ∧
          deeds = [.line (commandLine (utf8 "WHOIS") [nickOf message.messagePrefix] none)]) :
      Step config session (.message message now)
        { session with
          asked := asked
          waiting := session.waiting ++
            [{ nick := nickOf message.messagePrefix
               text := message.param 1
               deadline := now + config.whoisSeconds }] } deeds

variable {config : SessionConfig}

theorem handleCommand_step {session : Session} {message : Message} {now : ℤ}
    (hsends : (Event.message message now).Sends config (nickOf message.messagePrefix) (message.param 1)) :
    Step config session (.message message now)
      (handleCommand config session (nickOf message.messagePrefix) (message.param 1) now).1
      (handleCommand config session (nickOf message.messagePrefix) (message.param 1) now).2 := by
  have hnot318 : message.command ≠ utf8 "318" := by
    rw [hsends.1]
    decide
  have hstays : isDeparture message.command ≠ true := by
    rw [hsends.1]
    decide
  rw [handleCommand]
  dsimp only
  cases hknown : (session.registrations.find (lowerName (nickOf message.messagePrefix))).filter
      fun known => now < known.expires with
  | some entry =>
    obtain ⟨hfound, hfresh⟩ := Option.filter_eq_some_iff.mp hknown
    have hfresh' : now < entry.expires := by simpa using hfresh
    dsimp only
    by_cases hregistered : entry.registered = true
    · rw [if_pos hregistered]
      exact .known message now entry hsends hfound hfresh' hregistered
    · rw [if_neg hregistered]
      split_ifs with htold
      · exact .told message now entry hsends hfound hfresh' (by simpa using hregistered)
      · exact .idle message now session.nick session.joined [] rfl (fun h => absurd h hnot318)
          (fun h => absurd h hstays)
  | none =>
    have hstale : ∀ entry, session.registrations.find (lowerName (nickOf message.messagePrefix)) = some entry →
        entry.expires ≤ now := by
      intro entry hfound
      rw [hfound] at hknown
      simpa using Option.filter_eq_none_iff.mp hknown entry rfl
    dsimp only
    by_cases hasked : (session.asked.find (lowerName (nickOf message.messagePrefix))).isSome = true
    · rw [if_pos hasked]
      exact .queued message now session.asked [] hsends hstale (.inl ⟨hasked, rfl, rfl⟩)
    · rw [if_neg hasked]
      exact .queued message now _ _ hsends hstale (.inr ⟨by simpa using hasked, rfl, rfl⟩)

/-- A message that is neither the end of a WHOIS nor a departure may change the bot's own nick. -/
theorem Step.quiet {session : Session} {message : Message} (now : ℤ) (nick : Str) (joined : Bool) {deeds : List Deed}
    (hcalls : callsOf deeds = []) (hends : message.command ≠ utf8 "318")
    (hstays : isDeparture message.command ≠ true) :
    Step config session (.message message now) { session with nick := nick, joined := joined } deeds :=
  .idle message now nick joined deeds hcalls (fun h => absurd h hends) fun h => absurd h hstays

theorem handlePrivmsg_step {session : Session} {message : Message} {now : ℤ}
    (hcommand : message.command = utf8 "PRIVMSG") :
    Step config session (.message message now) (handlePrivmsg config session message now).1
      (handlePrivmsg config session message now).2 := by
  have hidle : Step config session (.message message now) session [] :=
    .quiet now session.nick session.joined rfl (by rw [hcommand]; decide) (by rw [hcommand]; decide)
  rw [handlePrivmsg]
  by_cases hchannel : sameName (message.param 0) config.channel = true
  · rw [if_neg (by simpa using hchannel)]
    split_ifs with hnobody hforBot
    · exact hidle
    · exact hidle
    · exact handleCommand_step ⟨hcommand, hchannel, rfl, rfl, by simpa using hforBot⟩
  · rw [if_pos (by simpa using hchannel)]
    exact hidle

theorem handle_step (session : Session) (message : Message) (now : ℤ) :
    Step config session (.message message now) (handle config session message now).1
      (handle config session message now).2 := by
  rw [handle]
  by_cases hping : message.command = utf8 "PING"
  · rw [if_pos hping]
    exact .quiet now session.nick session.joined rfl (by rw [hping]; decide) (by rw [hping]; decide)
  rw [if_neg hping]
  by_cases herror : message.command = utf8 "ERROR"
  · rw [if_pos herror]
    exact .quiet now session.nick session.joined rfl (by rw [herror]; decide) (by rw [herror]; decide)
  rw [if_neg herror]
  by_cases hwelcome : message.command = utf8 "001"
  · rw [if_pos hwelcome]
    refine .quiet now (message.param 0) session.joined ?_ (by rw [hwelcome]; decide) (by rw [hwelcome]; decide)
    split_ifs <;> rfl
  rw [if_neg hwelcome]
  by_cases hmotd : (message.command = utf8 "376" || message.command = utf8 "422") = true
  · rw [if_pos hmotd]
    have hwhich : message.command = utf8 "376" ∨ message.command = utf8 "422" := by simpa using hmotd
    exact .quiet now session.nick session.joined rfl (by rcases hwhich with h | h <;> rw [h] <;> decide)
      (by rcases hwhich with h | h <;> rw [h] <;> decide)
  rw [if_neg hmotd]
  by_cases htaken : (message.command = utf8 "433" || message.command = utf8 "437") = true
  · rw [if_pos htaken]
    have hwhich : message.command = utf8 "433" ∨ message.command = utf8 "437" := by simpa using htaken
    exact .quiet now (session.nick ++ utf8 "_") session.joined rfl (by rcases hwhich with h | h <;> rw [h] <;> decide)
      (by rcases hwhich with h | h <;> rw [h] <;> decide)
  rw [if_neg htaken]
  by_cases hjoin : (message.command = utf8 "JOIN" && sameName (nickOf message.messagePrefix) session.nick) = true
  · rw [if_pos hjoin]
    have hcommand : message.command = utf8 "JOIN" := by simpa using (Bool.and_eq_true_iff.mp hjoin).1
    exact .quiet now session.nick true rfl (by rw [hcommand]; decide) (by rw [hcommand]; decide)
  rw [if_neg hjoin]
  by_cases hkicked : (message.command = utf8 "KICK" && sameName (message.param 1) session.nick) = true
  · rw [if_pos hkicked]
    obtain ⟨hcommand, hbot⟩ := Bool.and_eq_true_iff.mp hkicked
    have hcommand' : message.command = utf8 "KICK" := by simpa using hcommand
    refine .idle message now session.nick false _ rfl (fun h => ?_) fun _ => ⟨hcommand', hbot⟩
    exact absurd (hcommand'.symm.trans h) (by decide)
  rw [if_neg hkicked]
  by_cases h307 : message.command = utf8 "307"
  · rw [if_pos h307]
    dsimp only
    rw [identify]
    cases hasked : session.asked.find (lowerName (message.param 1)) with
    | none => exact .quiet now session.nick session.joined rfl (by rw [h307]; decide) (by rw [h307]; decide)
    | some identity => exact .identified message now none identity hasked (.inl ⟨h307, rfl⟩)
  rw [if_neg h307]
  by_cases h330 : message.command = utf8 "330"
  · rw [if_pos h330]
    have hidle : Step config session (.message message now) session [] :=
      .quiet now session.nick session.joined rfl (by rw [h330]; decide) (by rw [h330]; decide)
    dsimp only
    split_ifs with hempty
    · rw [identify]
      cases hasked : session.asked.find (lowerName (message.param 1)) with
      | none => exact hidle
      | some identity => exact .identified message now (some (message.param 2)) identity hasked (.inr ⟨h330, hempty, rfl⟩)
    · exact hidle
  rw [if_neg h330]
  by_cases h318 : message.command = utf8 "318"
  · rw [if_pos h318, endOfWhois]
    cases hasked : session.asked.find (lowerName (message.param 1)) with
    | none =>
      refine .idle message now session.nick session.joined [] rfl (fun _ => hasked) fun h => ?_
      rw [h318] at h
      exact absurd h (by decide)
    | some identity => exact .answered message now identity h318 hasked
  rw [if_neg h318]
  by_cases h401 : message.command = utf8 "401"
  · rw [if_pos h401]
    exact .lost message now h401
  rw [if_neg h401]
  by_cases hgone : isDeparture message.command = true
  · rw [if_pos hgone]
    refine .departed message now hgone fun hkick => ?_
    simpa [hkick] using hkicked
  rw [if_neg hgone]
  by_cases hprivmsg : message.command = utf8 "PRIVMSG"
  · rw [if_pos hprivmsg]
    exact handlePrivmsg_step hprivmsg
  · rw [if_neg hprivmsg]
    exact .quiet now session.nick session.joined rfl h318 hgone

theorem happen_step (config : SessionConfig) (session : Session) (event : Event) :
    Step config session event (happen config session event).1 (happen config session event).2 := by
  cases event with
  | connected => exact .connected _ rfl
  | message message now => exact handle_step session message now
  | tick now => exact .tick now

theorem find_foldl_erase {α : Type} {lines : List Waiting} {asked : OrderedMap Str α} {lowered : Str} {value : α}
    (h : (lines.foldl (fun asked line => asked.erase (lowerName line.nick)) asked).find lowered = some value) :
    asked.find lowered = some value ∧ ∀ line ∈ lines, lowerName line.nick ≠ lowered := by
  induction lines generalizing asked with
  | nil => exact ⟨h, by simp⟩
  | cons line lines ih =>
    obtain ⟨hfound, hothers⟩ := ih h
    rw [OrderedMap.find_erase] at hfound
    split_ifs at hfound with hsame
    refine ⟨hfound, fun other hother => ?_⟩
    rcases List.mem_cons.mp hother with rfl | hold
    · exact fun heq => hsame heq.symm
    · exact hothers other hold

theorem releaseEach_account (config : SessionConfig) (lowered : Str) (now : ℤ) (entry : Registration) (waiting : List Waiting) :
    (releaseEach config lowered now entry waiting).1.registered = entry.registered ∧
      (releaseEach config lowered now entry waiting).1.account = entry.account ∧
      (releaseEach config lowered now entry waiting).1.expires = entry.expires := by
  induction waiting generalizing entry with
  | nil => exact ⟨rfl, rfl, rfl⟩
  | cons first waiting ih =>
    rw [releaseEach]
    split_ifs with hother hregistered htold
    · exact ih entry
    · exact ih entry
    · exact ih { entry with told := now }
    · exact ih entry

/-- What waits is answered line by line, in the order it came, when the nick is identified. -/
theorem callsOf_releaseEach (config : SessionConfig) (lowered : Str) (now : ℤ) (entry : Registration) (waiting : List Waiting) :
    callsOf (releaseEach config lowered now entry waiting).2 =
      if entry.registered = true then
        (waiting.filter fun line => lowerName line.nick = lowered).map fun line =>
          callFor config line.nick entry.account line.text
      else [] := by
  induction waiting generalizing entry with
  | nil =>
    rw [releaseEach]
    split_ifs <;> rfl
  | cons first waiting ih =>
    rw [releaseEach]
    by_cases hother : lowerName first.nick ≠ lowered
    · rw [if_pos hother, ih, List.filter_cons_of_neg (by simpa using hother)]
    · rw [if_neg hother, List.filter_cons_of_pos (by simpa using hother)]
      by_cases hregistered : entry.registered = true
      · have hrest := ih entry
        rw [if_pos hregistered] at hrest
        rw [if_pos hregistered, if_pos hregistered, List.map_cons, ← hrest]
        rfl
      · rw [if_neg hregistered, if_neg hregistered]
        split_ifs with htold
        · have hrest := ih { entry with told := now }
          rw [if_neg hregistered] at hrest
          simpa [callsOf] using hrest
        · have hrest := ih entry
          rwa [if_neg hregistered] at hrest

end NorelecBot.Irc
