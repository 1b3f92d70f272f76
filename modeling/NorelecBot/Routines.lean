import NorelecBot.Dispatch

/-! # How a message moves its desk

Everything a message does to its desk is made of a few steps: the files are read,
the game is asked for something, the sender's key is kept, the sentinel is told.
A way of moving that each of them keeps to is kept to by the whole message. The
rides that set off are left apart: they are looked at where they are asked for.
-/

namespace NorelecBot
open Lib

/-- What a message asks of the game in passing: nobody is seen by it, comes for the place or sets off, and neither
the keeper nor a start does it. -/
def Op.inPassing : Op → Bool
  | .seen .. | .claim .. | .raidStart .. | .raidDue .. | .handOut .. | .sortOut => false
  | _ => true

/-- What a sender comes for the place by, or sets off. -/
def Op.onHisWay (key : Str) : Op → Prop
  | .claim _ username .. => username = key
  | .raidStart _ username .. => username = key
  | _ => False

section
variable [SlotCodec] [Clock]

/-- A way of moving that everything keeps to that is done before a line is carried out. -/
structure Courteous (context : CommandContext) (moment : Moment) (R : Desk → Desk → Prop) : Prop where
  preorder : IsPreorder Desk R
  consult : ∀ {α : Type} (f : Files → α), (consult moment f).Within R
  remember : (rememberSender context moment).Within R
  tellBlocked : ∀ player now, (askSentinel fun sentinel => sentinel.tellBlocked player now).Within R

namespace Courteous
variable {context : CommandContext} {moment : Moment} {R : Desk → Desk → Prop} (courteous : Courteous context moment R)
include courteous

theorem pure {α : Type} (result : α) : (Pure.pure result : Act Desk α).Within R :=
  have := courteous.preorder
  Act.within_pure result

theorem bind {α β : Type} {act : Act Desk α} {next : α → Act Desk β} (hact : act.Within R)
    (hnext : ∀ result, (next result).Within R) : (act >>= next).Within R :=
  have := courteous.preorder
  Act.within_bind hact hnext

/-- Reading what is on the desk leaves it as it is. -/
theorem glance {α : Type} (f : Desk → α) : Act.Within (fun desk => (some (f desk), desk)) R :=
  have := courteous.preorder
  fun desk => refl desk

theorem namesMe (target : Str) : (namesMe moment target).Within R :=
  courteous.bind (courteous.glance _) fun _ => Act.within_ite (courteous.pure _) (courteous.consult _)

theorem turnAway (text : Str) : (turnAway context moment text).Within R := by
  apply Act.within_ite _ (courteous.pure _)
  apply courteous.bind courteous.remember
  intro _
  apply courteous.bind (courteous.glance _)
  intro key
  apply courteous.bind (courteous.glance _)
  intro kept
  apply Act.within_ite _ (courteous.pure _)
  exact courteous.bind (courteous.tellBlocked _ _) fun _ => courteous.pure _

theorem oldLineInstead (text : Str) : (oldLineInstead context moment text).Within R := by
  apply Act.within_ite (courteous.pure _)
  split
  · exact courteous.pure _
  split
  · exact courteous.pure _
  split
  · apply Act.within_ite (courteous.pure _)
    apply courteous.bind courteous.remember
    intro _
    apply courteous.bind (courteous.namesMe _)
    intro me
    exact Act.within_ite (courteous.pure _) (courteous.pure _)
  · apply Act.within_ite (courteous.pure _)
    apply courteous.bind courteous.remember
    intro _
    exact courteous.bind (courteous.namesMe _) fun _ => courteous.pure _

/-- A text is answered this way when its line is carried out this way. -/
theorem dispatch (text : Str)
    (hcarry : (NorelecBot.carryOut context moment (expanded context text)).Within R) :
    (dispatch context moment text).Within R := by
  apply Act.within_caught
  apply courteous.bind (courteous.turnAway text)
  intro refused
  split
  · exact courteous.pure _
  apply courteous.bind (courteous.oldLineInstead text)
  intro instead
  split
  · exact courteous.pure _
  · exact hcarry

end Courteous

/-- A sender is seen by asking for it, and his key is kept. -/
theorem remember_of_ask {context : CommandContext} {moment : Moment} {R : Desk → Desk → Prop} [IsPreorder Desk R]
    (hask : (ask moment (seenOp context moment)).Within R) (hbind : ∀ key, (bindKey key).Within R) :
    (rememberSender context moment).Within R := by
  apply Act.within_ite
  · exact Act.within_pure ()
  apply Act.within_bind hask
  intro reply
  split
  · exact hbind _
  · exact Act.within_pure ()

/-- A way of moving that every step keeps to but coming for the place and setting off. -/
structure Routine (context : CommandContext) (moment : Moment) (R : Desk → Desk → Prop) : Prop
    extends Courteous context moment R where
  ask : ∀ op, op.inPassing = true → (ask moment op).Within R
  unblock : ∀ player, (askSentinel fun sentinel => sentinel.unblock player).Within R

namespace Routine
variable {context : CommandContext} {moment : Moment} {R : Desk → Desk → Prop} (routine : Routine context moment R)
include routine

theorem boundKey : boundKey.Within R := routine.glance _

theorem price (cost : ℤ) : (price moment cost).Within R :=
  routine.bind routine.boundKey fun _ => routine.bind (routine.consult _) fun _ => routine.pure _

theorem tell (reply : Reply) : (tell moment reply).Within R :=
  Act.within_ite
    (routine.bind routine.boundKey fun _ => routine.bind (routine.consult _) fun _ => routine.pure _)
    (routine.pure _)

theorem showPlayer (command : Command) (argument : Str) :
    (showPlayer context moment command argument).Within R := by
  apply Act.within_ite
  · exact Act.within_ite (routine.pure _) (routine.bind (routine.consult _) fun _ => routine.pure _)
  · exact routine.bind (routine.consult _) fun _ => routine.pure _

/-- Something asked for under the sender's key, and told. -/
theorem asked {op : Str → Op} (h : ∀ key, (op key).inPassing = true) :
    (do let key ← NorelecBot.boundKey
        let reply ← NorelecBot.ask moment (op key)
        NorelecBot.tell moment reply).Within R :=
  routine.bind routine.boundKey fun key => routine.bind (routine.ask _ (h key)) fun reply => routine.tell reply

theorem handleBurn (amount : ℤ) : (handleBurn context moment amount).Within R :=
  Act.within_ite (routine.pure _) (routine.asked fun _ => rfl)

theorem handleFurnitureMove (request : ParsedMove) :
    (handleFurnitureMove context moment request).Within R :=
  routine.asked fun _ => rfl

theorem handleEmojiBurn (emoji : Str) (destroy : Bool) :
    (handleEmojiBurn context moment emoji destroy).Within R :=
  Act.within_ite (routine.pure _) (routine.asked fun _ => rfl)

theorem tellClaim (result : ClaimResult) : (tellClaim moment result).Within R := by
  apply Act.within_ite (routine.pure _)
  apply routine.bind (routine.consult _)
  intro _
  apply Act.within_ite (routine.pure _)
  exact routine.bind (Act.within_caught (routine.consult _) _) fun _ => routine.pure _

theorem handleAddQuote (argument : Str) : (handleAddQuote context moment argument).Within R := by
  apply Act.within_ite (routine.pure _)
  apply routine.bind (routine.price _)
  intro cost
  apply Act.within_ite (routine.pure _)
  apply Act.within_ite (routine.pure _)
  apply routine.bind routine.boundKey
  intro key
  exact routine.bind (routine.ask _ rfl) fun _ => routine.pure _

theorem handleFurniture (wanted : Str) (slot : Option ℤ) :
    (handleFurniture context moment wanted slot).Within R := by
  apply Act.within_ite (routine.pure _)
  apply routine.bind (routine.price _)
  intro cost
  exact Act.within_ite (routine.pure _) (routine.asked fun _ => rfl)

theorem handleTake (argument : Str) : (handleTake context moment argument).Within R := by
  apply Act.within_ite (routine.pure _)
  split
  · exact routine.asked fun _ => rfl
  · exact routine.asked fun _ => rfl
  · exact routine.pure _

theorem handleStore (argument : Str) : (handleStore context moment argument).Within R := by
  apply Act.within_ite (routine.pure _)
  split
  · exact routine.asked fun _ => rfl
  · exact routine.pure _

theorem handleDeleteQuote (argument : Str) :
    (handleDeleteQuote context moment argument).Within R := by
  apply Act.within_ite (routine.pure _)
  apply Act.within_ite (routine.pure _)
  exact routine.bind (routine.ask _ rfl) fun _ => routine.pure _

theorem handleDebug (argument : Str) : (handleDebug context moment argument).Within R := by
  apply Act.within_ite (routine.pure _)
  apply Act.within_ite
  · apply routine.bind routine.boundKey
    intro key
    exact routine.bind (routine.consult _) fun _ => routine.pure _
  · apply routine.bind routine.boundKey
    intro key
    exact routine.bind (routine.ask _ rfl) fun _ => routine.pure _

theorem handleLink (argument : Str) : (handleLink context moment argument).Within R := by
  apply Act.within_ite (routine.pure _)
  split
  · exact routine.pure _
  · exact routine.bind (routine.ask _ rfl) fun _ => routine.pure _

theorem handleInvitedBy (argument : Str) :
    (handleInvitedBy context moment argument).Within R := by
  apply Act.within_ite (routine.pure _)
  apply Act.within_ite (routine.pure _)
  apply routine.bind routine.boundKey
  intro key
  exact routine.bind (routine.ask _ rfl) fun _ => routine.pure _

theorem handleUnblock (argument : Str) : (handleUnblock context moment argument).Within R := by
  apply Act.within_ite (routine.pure _)
  apply Act.within_ite (routine.pure _)
  apply routine.bind (routine.consult _)
  intro names
  split
  · exact routine.pure _
  · exact routine.bind (routine.unblock _) fun _ => routine.pure _

/-- No command sets a ride off. -/
theorem handler (command : Command) (argument : Str) :
    (command.handler context moment argument).Within R := by
  cases command with
  | leaderboard => exact routine.bind (routine.consult _) fun _ => routine.pure _
  | emoji => exact Act.within_ite (routine.pure _) (routine.pure _)
  | profile => exact routine.showPlayer .profile argument
  | house => exact routine.showPlayer .house argument
  | addQuote => exact routine.handleAddQuote argument
  | link => exact routine.handleLink argument
  | quotes => exact Act.within_ite (routine.pure _) (routine.bind (routine.consult _) fun _ => routine.pure _)
  | deleteQuote => exact routine.handleDeleteQuote argument
  | debug => exact routine.handleDebug argument
  | take => exact routine.handleTake argument
  | store => exact routine.handleStore argument
  | unblock => exact routine.handleUnblock argument
  | invitedBy => exact routine.handleInvitedBy argument
  | help | buy | raid | give | throw | burn | home | move => exact routine.pure _

theorem moveLine (verb : Verb) (request : ParsedMove) :
    (moveLine context moment verb request).Within R := by
  apply Act.within_ite (routine.pure _)
  apply Act.within_ite (routine.pure _)
  apply routine.bind routine.remember
  intro _
  apply Act.within_ite (routine.pure _)
  apply routine.bind (routine.namesMe _)
  intro me
  apply Act.within_ite (routine.pure _)
  exact routine.bind (routine.handleFurnitureMove _) fun _ => routine.pure _

theorem commandLine (command : Command) (argument : Str) :
    (commandLine context moment command argument).Within R := by
  apply routine.bind routine.remember
  intro _
  exact routine.bind (routine.handler command argument) fun _ => routine.pure _

/-- A line is carried out this way when the one that comes for the place is, and the three that may set a ride off. -/
theorem carryOut (line : Verbed) (henter : (enterLine context moment line.verb).Within R)
    (hamount : ∀ transfer, (amountLine context moment line.verb transfer).Within R)
    (hemoji : ∀ carried, (emojiLine context moment line.verb carried).Within R)
    (hraid : ∀ target, (raidLine context moment line.verb target).Within R) :
    (carryOut context moment line).Within R := by
  apply Act.within_ite henter
  split
  · exact hamount _
  split
  · exact routine.moveLine _ _
  split
  · exact hemoji _
  apply Act.within_ite (hraid _)
  apply Act.within_ite (routine.pure _)
  apply Act.within_ite (routine.pure _)
  split
  · exact routine.pure _
  · exact routine.commandLine _ _

theorem payInvite (seen : Str) : (payInvite moment seen).Within R := by
  apply Act.within_caught
  apply routine.bind (routine.ask _ rfl)
  intro reply
  split
  · exact routine.pure _
  · exact routine.pure _

theorem showGuide (seen : Str) : (showGuide moment seen).Within R := by
  apply Act.within_caught
  apply routine.bind (routine.ask _ rfl)
  intro reply
  split
  · exact routine.pure _
  · exact routine.pure _

theorem afterReply (seen : Str) (answer : Answer) : (afterReply moment seen answer).Within R := by
  apply routine.bind (routine.payInvite seen)
  intro paid
  split
  · exact routine.pure _
  · exact routine.bind (routine.showGuide seen) fun _ => routine.pure _

theorem commandDispatch (text : Str)
    (hcarry : (NorelecBot.carryOut context moment (expanded context text)).Within R) :
    (commandDispatch context moment text).Within R := by
  apply routine.bind (routine.dispatch text hcarry)
  intro answer
  apply routine.bind routine.boundKey
  intro seen
  split
  · exact routine.pure _
  · apply Act.within_ite (routine.pure _)
    exact routine.bind (routine.afterReply _ _) fun _ => routine.pure _

section
variable {known : Files → Str → Prop}

/-- A line that goes on once its sender was seen. -/
theorem seenFirst {α : Type} {next : Unit → Act Desk α}
    (hseen : ∀ desk desk', rememberSender context moment desk = (some (), desk') → known desk'.files desk'.bound)
    (hnext : (next ()).WithinFrom (fun desk => known desk.files desk.bound) R) :
    (rememberSender context moment >>= next).Within R := by
  have := routine.preorder
  intro desk
  have hfrom : (rememberSender context moment >>= next).WithinFrom (fun _ => True) R := by
    apply Act.withinFrom_bind (K := fun _ desk => known desk.files desk.bound)
      (Act.withinFrom_of_within routine.remember _)
    · intro desk _ desk' _ hrun
      exact hseen desk desk' hrun
    · intro _
      exact hnext
  exact hfrom desk trivial

omit [SlotCodec] [Clock] routine in
theorem known_namesMe (target : Str) (desk : Desk) (me : Bool) (desk' : Desk) (h : known desk.files desk.bound)
    (hrun : NorelecBot.namesMe moment target desk = (some me, desk')) : known desk'.files desk'.bound := by
  rw [NorelecBot.namesMe, Act.run_bind_some (run_boundKey desk)] at hrun
  split at hrun
  · cases hrun
    exact h
  · rw [NorelecBot.consult, Prod.mk.injEq] at hrun
    rw [← hrun.2]
    exact h

/-- A line that goes on once it is known whether it names its sender. -/
theorem namedThen {α : Type} {target : Str} {next : Bool → Act Desk α}
    (hnext : ∀ me, (next me).WithinFrom (fun desk => known desk.files desk.bound) R) :
    (NorelecBot.namesMe moment target >>= next).WithinFrom (fun desk => known desk.files desk.bound) R := by
  have := routine.preorder
  exact Act.withinFrom_bind (Act.withinFrom_of_within (routine.namesMe target) _) (known_namesMe target) hnext

/-- What is done on the way to an answer, and then told. -/
theorem told {act : Act Desk Answer} (h : act.WithinFrom (fun desk => known desk.files desk.bound) R) :
    (act >>= fun answer => Pure.pure (some answer)).WithinFrom (fun desk => known desk.files desk.bound) R := by
  have := routine.preorder
  exact Act.withinFrom_bind h (fun _ _ _ _ _ => trivial) fun _ => Act.withinFrom_of_within (routine.pure _) fun _ => True

variable (hway : ∀ desk op, known desk.files desk.bound → context.username ≠ [] → op.onHisWay desk.bound →
  R desk (NorelecBot.ask moment op desk).2)
include hway

/-- What is asked for under the sender's key, on his way. -/
theorem askedOnHisWay {op : Str → Op} {rest : Reply → Act Desk Answer} (hname : context.username ≠ [])
    (hop : ∀ key, (op key).onHisWay key) (hrest : ∀ reply, (rest reply).Within R) :
    (NorelecBot.boundKey >>= fun key => NorelecBot.ask moment (op key) >>= rest).WithinFrom
      (fun desk => known desk.files desk.bound) R := by
  have := routine.preorder
  intro desk hknown
  have hask := hway desk (op desk.bound) hknown hname (hop desk.bound)
  rw [Act.run_bind_some (run_boundKey desk), Act.run_bind]
  split
  · rename_i reply desk' heq
    rw [heq] at hask
    exact Trans.trans hask (hrest reply desk')
  · rename_i desk' heq
    rw [heq] at hask
    exact hask

theorem handleClaim : (handleClaim context moment).WithinFrom (fun desk => known desk.files desk.bound) R := by
  rw [NorelecBot.handleClaim]
  split
  · exact Act.withinFrom_of_within (routine.pure _) _
  · rename_i hname
    have hclaim (key : Str) : (Op.claim context.userId key moment.now (claimRules context.config) moment.claim).onHisWay key :=
      rfl
    apply routine.askedOnHisWay hway hname hclaim
    intro reply
    split
    · exact routine.tellClaim _
    · exact routine.pure _

theorem handleRaid (target : Str) (gift : ℤ) (giftEmoji : Str) (intact : Bool) :
    (handleRaid context moment target gift giftEmoji intact).WithinFrom (fun desk => known desk.files desk.bound) R := by
  rw [NorelecBot.handleRaid]
  split
  · exact Act.withinFrom_of_within (routine.pure _) _
  · rename_i hname
    exact routine.askedOnHisWay hway hname (fun _ => rfl) fun _ => routine.pure _

theorem handleGift (transfer : ParsedAmount) :
    (handleGift context moment transfer).WithinFrom (fun desk => known desk.files desk.bound) R := by
  apply Act.withinFrom_ite (Act.withinFrom_of_within (routine.pure _) _)
  exact Act.withinFrom_ite (Act.withinFrom_of_within (routine.pure _) _) (routine.handleRaid hway _ _ _ _)

theorem emojiErrand (verb : Verb) (carried : ParsedEmoji) (me : Bool) :
    (emojiErrand context moment verb carried me).WithinFrom (fun desk => known desk.files desk.bound) R := by
  have hburn (destroy : Bool) := Act.withinFrom_of_within (routine.handleEmojiBurn carried.emoji destroy)
    fun desk => known desk.files desk.bound
  have hpure (answer : Answer) := Act.withinFrom_of_within (routine.pure answer) fun desk => known desk.files desk.bound
  apply Act.withinFrom_ite
  · exact Act.withinFrom_ite (hpure _) (Act.withinFrom_of_within (routine.handleFurniture _ _) _)
  apply Act.withinFrom_ite (hpure _)
  apply Act.withinFrom_ite
  · exact Act.withinFrom_ite (hburn true) (Act.withinFrom_ite (hpure _) (hburn false))
  · exact routine.handleRaid hway _ _ _ _

variable (hseen : ∀ desk desk', rememberSender context moment desk = (some (), desk') → known desk'.files desk'.bound)
include hseen

theorem enterLine (verb : Verb) : (enterLine context moment verb).Within R := by
  apply Act.within_ite (routine.pure _)
  apply Act.within_ite (routine.pure _)
  apply routine.seenFirst hseen
  exact routine.told (routine.handleClaim hway)

theorem amountLine (verb : Verb) (transfer : ParsedAmount) :
    (amountLine context moment verb transfer).Within R := by
  have hpure (answer : Option Answer) :=
    Act.withinFrom_of_within (routine.pure answer) fun desk => known desk.files desk.bound
  apply Act.within_ite (routine.pure _)
  apply Act.within_ite (routine.pure _)
  apply routine.seenFirst hseen
  apply Act.withinFrom_ite
  · apply Act.withinFrom_ite (hpure _)
    exact routine.told (Act.withinFrom_of_within (routine.handleBurn _) _)
  · apply routine.namedThen
    intro me
    exact Act.withinFrom_ite (hpure _) (routine.told (routine.handleGift hway transfer))

theorem emojiLine (verb : Verb) (carried : ParsedEmoji) : (emojiLine context moment verb carried).Within R := by
  have hpure (answer : Option Answer) :=
    Act.withinFrom_of_within (routine.pure answer) fun desk => known desk.files desk.bound
  apply Act.within_ite (routine.pure _)
  apply Act.within_ite (routine.pure _)
  apply routine.seenFirst hseen
  apply Act.withinFrom_ite (hpure _)
  apply Act.withinFrom_ite (hpure _)
  apply routine.namedThen
  intro me
  exact routine.told (routine.emojiErrand hway verb carried me)

theorem raidLine (verb : Verb) (target : Str) : (raidLine context moment verb target).Within R := by
  have := routine.preorder
  apply Act.within_ite (routine.pure _)
  apply Act.within_ite (routine.pure _)
  apply routine.seenFirst hseen
  have hthen (me : Bool) : (if me = true then Pure.pure (some Answer.notHimself)
      else NorelecBot.handleRaid context moment target 0 [] false >>= fun answer => Pure.pure (some answer)).WithinFrom
        (fun desk => known desk.files desk.bound) R :=
    Act.withinFrom_ite (Act.withinFrom_of_within (routine.pure _) _) (routine.told (routine.handleRaid hway _ _ _ _))
  split
  · exact routine.namedThen hthen
  · exact hthen false

/-- Then the whole message moves its desk this way. -/
theorem message (text : Str) : (NorelecBot.commandDispatch context moment text).Within R :=
  routine.commandDispatch text
    (routine.carryOut _ (routine.enterLine hway hseen _) (routine.amountLine hway hseen _)
      (routine.emojiLine hway hseen _) (routine.raidLine hway hseen _))

end

/-- A message all whose steps move the desk this way. -/
theorem message_of_ask (hask : ∀ op, (NorelecBot.ask moment op).Within R) (text : Str) :
    (NorelecBot.commandDispatch context moment text).Within R := by
  have hway (desk : Desk) (op : Op) (_ : True) (_ : context.username ≠ []) (_ : op.onHisWay desk.bound) :
      R desk (NorelecBot.ask moment op desk).2 := hask op desk
  have hseen (desk desk' : Desk) : rememberSender context moment desk = (some (), desk') → True := fun _ => trivial
  exact @message _ _ _ _ _ routine (fun _ _ => True) hway hseen text

end Routine

def carriedOut (calls : List Call) : List Op := (calls.filter fun call => call.reply.isSome).map Call.op

def Filed (before after : Desk) : Prop :=
  ∃ since, after.calls = before.calls ++ since ∧ after.files = before.files.run (carriedOut since)

theorem Filed.of_same {before after : Desk} (hcalls : after.calls = before.calls) (hfiles : after.files = before.files) :
    Filed before after :=
  ⟨[], by rw [hcalls, List.append_nil], hfiles⟩

theorem filed_preorder : IsPreorder Desk Filed where
  refl := fun _ => .of_same rfl rfl
  trans := by
    rintro first second third ⟨since, hcalls, hfiles⟩ ⟨later, hcalls', hfiles'⟩
    refine ⟨since ++ later, by rw [hcalls', hcalls, List.append_assoc], ?_⟩
    rw [hfiles', hfiles, carriedOut, carriedOut, carriedOut, List.filter_append, List.map_append, Files.run, Files.run,
      Files.run, List.foldl_append]

theorem ask_filed (moment : Moment) (op : Op) : (ask moment op).Within Filed := by
  intro desk
  rcases ask_cases moment op desk with hask | ⟨reply, files, hstep, hask⟩
  · rw [hask]
    exact ⟨_, rfl, rfl⟩
  · rw [hask]
    exact ⟨_, rfl, (Files.after_eq hstep).symm⟩

theorem filed_routine (context : CommandContext) (moment : Moment) : Routine context moment Filed where
  preorder := filed_preorder
  consult _ _ := .of_same rfl rfl
  remember :=
    have := filed_preorder
    remember_of_ask (ask_filed moment _) fun _ _ => .of_same rfl rfl
  tellBlocked _ _ _ := .of_same rfl rfl
  ask op _ := ask_filed moment op
  unblock _ _ := .of_same rfl rfl

/-- A message leaves on file what comes of the calls it was answered. -/
theorem hear_filed (bot : Bot) (message : Message) :
    (bot.hear message).2.files = bot.files.run (carriedOut (bot.hear message).2.calls) := by
  obtain ⟨since, hcalls, hfiles⟩ := (filed_routine message.context message.moment).message_of_ask
    (ask_filed message.moment) message.text bot.desk
  have hsince : (bot.hear message).2.calls = since := hcalls
  rw [hsince]
  exact hfiles

end

end NorelecBot
