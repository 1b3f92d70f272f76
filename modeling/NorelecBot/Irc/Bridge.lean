import NorelecBot.Irc.OneLine
import NorelecBot.Irc.Session
import NorelecBot.Irc.Stream
import NorelecBot.Lib.Mailbox

/-! # Between the two chats

What the bot says on Telegram waits for the one IRC connection to repeat it, and what
it answers in the channel is written in the group once it has left. The connection
can go at any moment, in the middle of a line; a new one starts clean.
-/

namespace NorelecBot.Irc
open Lib

/-- A disconnected channel must not pile up replies for ever. -/
def maxWaitingReplies : ℕ := 32

/-- What a read of the connection gives. -/
inductive Reading where
  | gone
  | nothing
  | bytes (text : Str)
  deriving DecidableEq, Repr

structure Connection where
  pending : Str := []
  outbox : List Str := []

structure Bridge (ρ : Type) where
  session : Session
  connection : Option Connection := none
  /-- What was said on Telegram, not yet in the channel. -/
  waiting : List Str := []
  /-- What was answered in the channel, not yet in the group. -/
  answers : List Str := []
  memory : ρ

/-- What happens to the bridge: something is said on Telegram, a connection is made, or it is pumped once; the
connection breaks after so many lines are sent, if there are more. -/
inductive Crossing where
  | said (text : Str)
  | connects
  | pumped (reading : Reading) (now : ℤ) (sends : ℕ)
  deriving DecidableEq, Repr

/-- What comes of it: the lines sent, what is told in the group, what was answered, what was taken to be repeated
and the lines of it that were sent. -/
structure Crossed where
  written : List Str := []
  told : List Str := []
  replies : List Str := []
  repeated : List Str := []
  announced : List Str := []
  deriving DecidableEq, Repr

/-- What handling some messages comes to. -/
structure Heard (ρ : Type) where
  lines : List Str
  session : Session
  memory : ρ

def ircSay (waiting : List Str) (text : Str) : List Str :=
  (if maxWaitingReplies ≤ waiting.length then waiting.tail else waiting) ++ [text]

section
variable {ρ : Type} (config : SessionConfig) (bridged : Bool) (responder : Responder ρ)

/-- The responder, with its answers kept for the group. -/
def answering : Responder (ρ × List Str) := fun call desk =>
  let (reply, memory) := responder call desk.1
  (reply, memory, if bridged then desk.2 ++ reply.toList else desk.2)

def hearEach (now : ℤ) : List Message → Session → ρ → Heard ρ
  | [], session, memory => ⟨[], session, memory⟩
  | message :: messages, session, memory =>
    let handled := handle config session message now
    let performed := perform config responder handled.2 memory
    let others := hearEach now messages handled.1 performed.2
    { others with lines := performed.1 ++ others.lines }

def replyTo (memory : ρ) : Deed → List Str
  | .answer call => (responder call memory).1.toList
  | _ => []

def repliesOf : List Deed → ρ → List Str
  | [], _ => []
  | deed :: deeds, memory => replyTo responder memory deed ++ repliesOf deeds (linesOf config responder memory deed).2

def repliesHeard (now : ℤ) : List Message → Session → ρ → List Str
  | [], _, _ => []
  | message :: messages, session, memory =>
    let handled := handle config session message now
    repliesOf config responder handled.2 memory ++
      repliesHeard now messages handled.1 (perform config responder handled.2 memory).2

/-- The messages of a read, and what stays pending. -/
def Connection.read (connection : Connection) : Reading → List Message × Str
  | .bytes text => ((consume (connection.pending ++ text)).1.filterMap parse, (consume (connection.pending ++ text)).2)
  | _ => ([], connection.pending)

/-- Everything that is to be sent is sent, what is repeated last, and then what was answered is told in the group;
or the connection breaks on the way. -/
def Bridge.flush (bridge : Bridge ρ) (pending : Str) (lines announced : List Str) (sends : ℕ) (crossed : Crossed) :
    Bridge ρ × Crossed :=
  if (lines ++ announced).length ≤ sends then
    ({ bridge with connection := some { pending := pending }, answers := [] },
      { crossed with written := lines ++ announced, announced := announced, told := bridge.answers })
  else
    ({ bridge with connection := none },
      { crossed with written := (lines ++ announced).take sends, announced := announced.take (sends - lines.length) })

def Bridge.pump (bridge : Bridge ρ) (connection : Connection) (reading : Reading) (now : ℤ) (sends : ℕ) :
    Bridge ρ × Crossed :=
  let (messages, pending) := connection.read reading
  let heard := hearEach config (answering bridged responder) now messages bridge.session (bridge.memory, bridge.answers)
  let session := tick heard.session now
  let repeated := if session.joined then bridge.waiting else []
  Bridge.flush ⟨session, none, if session.joined then [] else bridge.waiting, heard.memory.2, heard.memory.1⟩ pending
    (connection.outbox ++ heard.lines) (repeated.flatMap (announce config)) sends
    { replies := repliesHeard config responder now messages bridge.session bridge.memory, repeated := repeated }

def Bridge.cross (bridge : Bridge ρ) : Crossing → Bridge ρ × Crossed
  | .said text => ({ bridge with waiting := ircSay bridge.waiting text }, {})
  | .connects =>
    match bridge.connection with
    | some _ => (bridge, {})
    | none =>
      let (session, deeds) := connected config
      let (lines, memory) := perform config responder deeds bridge.memory
      -- Old replies are of no use to anyone.
      ({ session := session, connection := some { outbox := lines }, memory := memory }, {})
  | .pumped reading now sends =>
    match bridge.connection with
    | none => (bridge, {})
    | some connection =>
      if reading = .gone then ({ bridge with connection := none }, {})
      else bridge.pump config bridged responder connection reading now sends

def Bridge.crossAll (bridge : Bridge ρ) : List Crossing → List Crossed × Bridge ρ
  | [] => ([], bridge)
  | crossing :: crossings =>
    let next := bridge.cross config bridged responder crossing
    let others := next.1.crossAll crossings
    (next.2 :: others.1, others.2)

end

section
variable {ρ : Type} {config : SessionConfig} {bridged : Bool} {responder : Responder ρ}

theorem ircSay_eq (waiting : List Str) (text : Str) : ircSay waiting text = Mailbox.put maxWaitingReplies waiting text := rfl

theorem linesOf_answering (memory : ρ) (answers : List Str) (deed : Deed) :
    linesOf config (answering bridged responder) (memory, answers) deed =
      ((linesOf config responder memory deed).1, (linesOf config responder memory deed).2,
        answers ++ if bridged then replyTo responder memory deed else []) := by
  cases deed with
  | line text => simp [linesOf, replyTo]
  | say text => simp [linesOf, replyTo]
  | answer call =>
    rcases hcall : responder call memory with ⟨_ | reply, left⟩
    · cases bridged <;> simp [linesOf, replyTo, answering, hcall]
    · cases bridged <;> simp [linesOf, replyTo, answering, hcall]

theorem perform_cons (deed : Deed) (deeds : List Deed) (memory : ρ) :
    perform config responder (deed :: deeds) memory =
      ((linesOf config responder memory deed).1 ++
          (perform config responder deeds (linesOf config responder memory deed).2).1,
        (perform config responder deeds (linesOf config responder memory deed).2).2) := rfl

theorem perform_answering (deeds : List Deed) (memory : ρ) (answers : List Str) :
    perform config (answering bridged responder) deeds (memory, answers) =
      ((perform config responder deeds memory).1, (perform config responder deeds memory).2,
        answers ++ if bridged then repliesOf config responder deeds memory else []) := by
  induction deeds generalizing memory answers with
  | nil => simp [perform, repliesOf]
  | cons deed deeds ih =>
    rw [perform_cons, linesOf_answering, ih, perform_cons, repliesOf]
    cases bridged <;> simp

theorem hearEach_answering (now : ℤ) (messages : List Message) (session : Session) (memory : ρ) (answers : List Str) :
    hearEach config (answering bridged responder) now messages session (memory, answers) =
      ⟨(hearEach config responder now messages session memory).lines,
        (hearEach config responder now messages session memory).session,
        (hearEach config responder now messages session memory).memory,
        answers ++ if bridged then repliesHeard config responder now messages session memory else []⟩ := by
  induction messages generalizing session memory answers with
  | nil => simp [hearEach, repliesHeard]
  | cons message messages ih =>
    simp only [hearEach, repliesHeard, perform_answering, ih]
    cases bridged <;> simp

/-- Whatever is answered is also said in the channel. -/
theorem replyTo_said (memory : ρ) (deed : Deed) :
    ((replyTo responder memory deed).flatMap (say config)).Sublist (linesOf config responder memory deed).1 := by
  cases deed with
  | line text => simp [replyTo]
  | say text => simp [replyTo]
  | answer call =>
    rcases hcall : responder call memory with ⟨_ | reply, left⟩
    · simp [replyTo, hcall]
    · simp [replyTo, linesOf, hcall]

theorem repliesOf_said (deeds : List Deed) (memory : ρ) :
    ((repliesOf config responder deeds memory).flatMap (say config)).Sublist (perform config responder deeds memory).1 := by
  induction deeds generalizing memory with
  | nil => simp [repliesOf]
  | cons deed deeds ih =>
    rw [repliesOf, List.flatMap_append, perform_cons]
    exact (replyTo_said memory deed).append (ih _)

theorem repliesHeard_said (now : ℤ) (messages : List Message) (session : Session) (memory : ρ) :
    ((repliesHeard config responder now messages session memory).flatMap (say config)).Sublist
      (hearEach config responder now messages session memory).lines := by
  induction messages generalizing session memory with
  | nil => simp [repliesHeard]
  | cons message messages ih =>
    rw [repliesHeard, List.flatMap_append]
    exact (repliesOf_said _ memory).append (ih _ _)

def Bridge.Told (bridge : Bridge ρ) : Prop := bridge.connection.isSome = true → bridge.answers = []

variable (config bridged responder) in
/-- What a crossing has to do with the group: all that was answered is told when the connection is still there, and
nothing otherwise; and what is told was written in the channel. -/
structure Tells (next : Bridge ρ × Crossed) : Prop where
  told : next.2.told = if bridged && next.1.connection.isSome then next.2.replies else []
  written : (next.2.told.flatMap (say config)).Sublist next.2.written

theorem flush_tells {bridge : Bridge ρ} {crossed : Crossed} {lines announced : List Str} (pending : Str) (sends : ℕ)
    (htold : crossed.told = []) (hanswers : bridge.answers = if bridged then crossed.replies else [])
    (hsaid : (crossed.replies.flatMap (say config)).Sublist lines) :
    Tells config bridged (bridge.flush pending lines announced sends crossed) ∧
      (bridge.flush pending lines announced sends crossed).1.Told := by
  rw [Bridge.flush]
  by_cases hall : (lines ++ announced).length ≤ sends
  · rw [if_pos hall, hanswers]
    refine ⟨⟨by simp, ?_⟩, fun _ => rfl⟩
    cases bridged with
    | false => simp
    | true => exact hsaid.trans (List.sublist_append_left _ _)
  · rw [if_neg hall]
    exact ⟨⟨by simp [htold], by simp [htold]⟩, by simp [Bridge.Told]⟩

theorem pump_tells {bridge : Bridge ρ} (hanswers : bridge.answers = []) (connection : Connection) (reading : Reading)
    (now : ℤ) (sends : ℕ) :
    Tells config bridged (bridge.pump config bridged responder connection reading now sends) ∧
      (bridge.pump config bridged responder connection reading now sends).1.Told := by
  simp only [Bridge.pump, hearEach_answering, hanswers, List.nil_append]
  apply flush_tells _ _ rfl rfl
  have hsaid := @repliesHeard_said _ config responder now (connection.read reading).1 bridge.session bridge.memory
  exact hsaid.trans (List.sublist_append_right _ _)

variable (config bridged responder) in
/-- Everything a crossing can be. -/
inductive Cross (bridge : Bridge ρ) : Crossing → Bridge ρ × Crossed → Prop
  | said (text : Str) : Cross bridge (.said text) ({ bridge with waiting := ircSay bridge.waiting text }, {})
  | connected (habsent : bridge.connection = none) :
    Cross bridge .connects
      ({ session := (connected config).1
         connection := some { outbox := (perform config responder (connected config).2 bridge.memory).1 }
         memory := (perform config responder (connected config).2 bridge.memory).2 }, {})
  | connectedAlready (hpresent : bridge.connection.isSome = true) : Cross bridge .connects (bridge, {})
  | notThere (habsent : bridge.connection = none) (reading : Reading) (now : ℤ) (sends : ℕ) :
    Cross bridge (.pumped reading now sends) (bridge, {})
  | gone {connection : Connection} (hpresent : bridge.connection = some connection) (now : ℤ) (sends : ℕ) :
    Cross bridge (.pumped .gone now sends) ({ bridge with connection := none }, {})
  | pumped {connection : Connection} (hpresent : bridge.connection = some connection) {reading : Reading}
    (hthere : reading ≠ .gone) (now : ℤ) (sends : ℕ) :
    Cross bridge (.pumped reading now sends) (bridge.pump config bridged responder connection reading now sends)

theorem cross_cross (bridge : Bridge ρ) (crossing : Crossing) :
    Cross config bridged responder bridge crossing (bridge.cross config bridged responder crossing) := by
  cases crossing with
  | said text => exact .said text
  | connects =>
    cases hconnection : bridge.connection with
    | some connection =>
      have hstill : bridge.cross config bridged responder .connects = (bridge, {}) := by simp [Bridge.cross, hconnection]
      rw [hstill]
      exact .connectedAlready (by simp [hconnection])
    | none =>
      have hnew := @Cross.connected _ config bridged responder bridge hconnection
      simpa [Bridge.cross, hconnection] using hnew
  | pumped reading now sends =>
    cases hconnection : bridge.connection with
    | none =>
      have hstill : bridge.cross config bridged responder (.pumped reading now sends) = (bridge, {}) := by
        simp [Bridge.cross, hconnection]
      rw [hstill]
      exact .notThere hconnection reading now sends
    | some connection =>
      by_cases hgone : reading = .gone
      · have hlost := @Cross.gone _ config bridged responder bridge connection hconnection now sends
        simpa [Bridge.cross, hconnection, hgone] using hlost
      · have hpump := @Cross.pumped _ config bridged responder bridge connection hconnection reading hgone now sends
        simpa [Bridge.cross, hconnection, hgone] using hpump

theorem Cross.tells {bridge : Bridge ρ} {crossing : Crossing} {next : Bridge ρ × Crossed}
    (h : Cross config bridged responder bridge crossing next) (htold : bridge.Told) :
    Tells config bridged next ∧ next.1.Told := by
  cases h with
  | said text => exact ⟨⟨by simp, by simp⟩, htold⟩
  | connected habsent => exact ⟨⟨by simp, by simp⟩, fun _ => rfl⟩
  | connectedAlready hpresent => exact ⟨⟨by simp, by simp⟩, htold⟩
  | notThere habsent => exact ⟨⟨by simp, by simp⟩, htold⟩
  | gone hpresent => exact ⟨⟨by simp, by simp⟩, by simp [Bridge.Told]⟩
  | @pumped connection hpresent reading hthere now sends =>
    exact pump_tells (htold (by simp [hpresent])) connection reading now sends

theorem crossAll_told {bridge : Bridge ρ} (htold : bridge.Told) (crossings : List Crossing) :
    (bridge.crossAll config bridged responder crossings).2.Told := by
  induction crossings generalizing bridge with
  | nil => exact htold
  | cons crossing crossings ih =>
    exact ih ((cross_cross bridge crossing).tells htold).2

/-- However the connection comes and goes, what is answered in the channel is told in the group after it was written
there whole, in order and once; of a connection that breaks on the way nothing is told. -/
theorem bridge_tells_what_left (memory : ρ) (crossings : List Crossing) (crossing : Crossing) :
    Tells config bridged
      ((Bridge.crossAll config bridged responder ⟨Session.start config, none, [], [], memory⟩ crossings).2.cross config
        bridged responder crossing) := by
  have htold : (Bridge.mk (Session.start config) none [] [] memory).Told := by simp [Bridge.Told]
  exact ((cross_cross _ crossing).tells (crossAll_told htold crossings)).1

variable (config responder) in
/-- Whether a pump finds the bot in the channel, once it has heard what came. -/
def Bridge.joins (bridge : Bridge ρ) (reading : Reading) (now : ℤ) : Bool :=
  bridge.connection.any fun connection =>
    reading ≠ .gone &&
      (tick (hearEach config responder now (connection.read reading).1 bridge.session bridge.memory).session now).joined

def Crossing.text : Crossing → Option Str
  | .said text => some text
  | _ => none

theorem flush_waiting (bridge : Bridge ρ) (pending : Str) (lines announced : List Str) (sends : ℕ) (crossed : Crossed) :
    (bridge.flush pending lines announced sends crossed).1.waiting = bridge.waiting ∧
      (bridge.flush pending lines announced sends crossed).2.repeated = crossed.repeated := by
  rw [Bridge.flush]
  split <;> exact ⟨rfl, rfl⟩

theorem pump_waiting {bridge : Bridge ρ} {connection : Connection} (hpresent : bridge.connection = some connection)
    {reading : Reading} (hthere : reading ≠ .gone) (now : ℤ) (sends : ℕ) :
    (bridge.pump config bridged responder connection reading now sends).1.waiting =
        (if bridge.joins config responder reading now then [] else bridge.waiting) ∧
      (bridge.pump config bridged responder connection reading now sends).2.repeated =
        (if bridge.joins config responder reading now then bridge.waiting else []) := by
  simp only [Bridge.pump, hearEach_answering, Bridge.joins, hpresent, Option.any_some, decide_true, hthere, ne_eq,
    not_false_eq_true, Bool.true_and]
  exact flush_waiting _ _ _ _ _ _

variable (config) in
/-- What is sent of what is repeated: the last lines that are sent, the first of what there is to say, and all of
it when the connection is still there. -/
structure Announces (next : Bridge ρ × Crossed) : Prop where
  sent : next.2.announced <:+ next.2.written
  first : next.2.announced <+: next.2.repeated.flatMap (announce config)
  whole : next.1.connection.isSome = true → next.2.announced = next.2.repeated.flatMap (announce config)

theorem flush_announces {crossed : Crossed} {announced : List Str}
    (hannounced : crossed.repeated.flatMap (announce config) = announced) (bridge : Bridge ρ) (pending : Str)
    (lines : List Str) (sends : ℕ) : Announces config (bridge.flush pending lines announced sends crossed) := by
  rw [Bridge.flush]
  by_cases hall : (lines ++ announced).length ≤ sends
  · rw [if_pos hall]
    constructor <;> simp [hannounced]
  · rw [if_neg hall]
    constructor
    · simp [List.take_append]
    · simp [hannounced, List.take_prefix]
    · simp

theorem Cross.announces {bridge : Bridge ρ} {crossing : Crossing} {next : Bridge ρ × Crossed}
    (h : Cross config bridged responder bridge crossing next) : Announces config next := by
  cases h with
  | pumped hpresent hthere now sends =>
    apply flush_announces
    rfl
  | _ => exact ⟨by simp, by simp, by simp⟩

variable (config bridged responder) in
/-- There is room for what is said, no connection is made while something waits, and none is lost in the turn that
takes it. -/
def Bridge.HasRoom (bridge : Bridge ρ) : Crossing → Prop
  | .said _ => bridge.waiting.length < maxWaitingReplies
  | .connects => bridge.connection = none → bridge.waiting = []
  | .pumped reading now sends =>
    bridge.waiting ≠ [] → bridge.joins config responder reading now = true →
      (bridge.cross config bridged responder (.pumped reading now sends)).1.connection.isSome = true

theorem Cross.keeps {bridge : Bridge ρ} {crossing : Crossing} {next : Bridge ρ × Crossed}
    (h : Cross config bridged responder bridge crossing next) (hroom : bridge.HasRoom config bridged responder crossing) :
    next.2.repeated ++ next.1.waiting = bridge.waiting ++ crossing.text.toList := by
  cases h with
  | said text => simpa [Crossing.text, ircSay_eq] using Mailbox.put_of_lt hroom text
  | connected habsent => simp [hroom habsent, Crossing.text]
  | connectedAlready hpresent => simp [Crossing.text]
  | notThere habsent => simp [Crossing.text]
  | gone hpresent => simp [Crossing.text]
  | @pumped connection hpresent reading hthere now sends =>
    obtain ⟨hwaiting, hrepeated⟩ := @pump_waiting _ config bridged responder _ _ hpresent _ hthere now sends
    rw [hwaiting, hrepeated]
    cases bridge.joins config responder reading now <;> simp [Crossing.text]

/-- With room, what is taken is sent whole. -/
theorem Cross.whole {bridge : Bridge ρ} {crossing : Crossing} {next : Bridge ρ × Crossed}
    (h : Cross config bridged responder bridge crossing next) (hroom : bridge.HasRoom config bridged responder crossing) :
    next.2.announced = next.2.repeated.flatMap (announce config) := by
  have hannounces := h.announces
  by_cases hnothing : next.2.repeated = []
  · have hfirst := hannounces.first
    rw [hnothing] at hfirst ⊢
    exact List.prefix_nil.mp hfirst
  · cases h with
    | @pumped connection hpresent reading hthere now sends =>
      obtain ⟨-, hrepeated⟩ := @pump_waiting _ config bridged responder _ _ hpresent _ hthere now sends
      have hcross : bridge.cross config bridged responder (.pumped reading now sends) =
          bridge.pump config bridged responder connection reading now sends := by
        simp [Bridge.cross, hpresent, hthere]
      rw [Bridge.HasRoom, hcross] at hroom
      apply hannounces.whole
      apply hroom
      · rintro hempty
        simp [hrepeated, hempty] at hnothing
      · by_contra hout
        simp [hrepeated, hout] at hnothing
    | _ => exact absurd rfl hnothing

end

end NorelecBot.Irc
