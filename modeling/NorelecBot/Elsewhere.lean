import NorelecBot.HoldPaid
import NorelecBot.OperationPassages
import NorelecBot.SelfRides
import NorelecBot.Telegram

/-! # The game is played in its own chat

In any other chat the bot answers, and keeps what it is told of a player, but
nobody comes for the place or sets off.
-/

namespace NorelecBot
open Lib

/-- What somebody comes for the place by, or sets off. -/
def Op.plays : Op → Bool
  | .claim .. | .raidStart .. => true
  | _ => false

theorem Op.plays_of_inPassing {op : Op} (h : op.inPassing = true) : op.plays = false := by
  cases op <;> first | rfl | cases h

structure AllAtHome (state : ConquisterState) : Prop where
  road : state.raids = []
  place : state.current = none

theorem allAtHome_empty : AllAtHome {} := ⟨rfl, rfl⟩

theorem Stands.place {s t : ConquisterState} (h : Stands s t) (hplace : s.current = none) : t.current = none := by
  rcases h with hleft | hsame
  · exact hleft
  · simpa [hplace] using hsame

section
variable [SlotCodec] [Clock]

/-- Whoever is at home stays there, but for those who come for the place or set off. -/
theorem step_allAtHome {files files' : Files} {op : Op} {reply : Reply} (hs : AllAtHome files.state)
    (hop : op.plays = false) (h : step files op = .ok (reply, files')) : AllAtHome files'.state := by
  constructor
  · rcases (step_goes h).rides.onward with honward | ⟨userId, username, now, rules, errand, draws, result, target, rfl, -⟩
    · apply List.eq_nil_iff_forall_not_mem.mpr
      intro raid hraid
      obtain ⟨old, hold, -⟩ := honward raid hraid
      simp [hs.road] at hold
    · cases hop
  · obtain ⟨receipt, ⟨typed, paid, -, hedits, -, -⟩, -, huntended⟩ := step_passage h
    cases op with
    | claim => cases hop
    | burn player emoji now rules destroy draws =>
      obtain ⟨result, hburn, -, -⟩ := Files.only_eq_ok h
      rcases furnitureBurn_hold hburn with ⟨-, hsame⟩ | ⟨-, hleft | ⟨landed, hstands, hloses⟩⟩
      · rw [hsame, hs.place]
      · exact hleft
      · rw [loseBolts, hstands.place hs.place] at hloses
        cases hloses
        exact hstands.place hs.place
    | _ => exact (hedits.stands (huntended trivial)).place hs.place

/-- What was asked of the game since then comes for no place and sets nobody off. -/
def Idle (before after : Desk) : Prop :=
  ∃ since, after.calls = before.calls ++ since ∧ (∀ call ∈ since, call.op.plays = false) ∧
    (AllAtHome before.files.state → AllAtHome after.files.state)

omit [SlotCodec] [Clock] in
theorem Idle.of_same {before after : Desk} (hcalls : after.calls = before.calls) (hfiles : after.files = before.files) :
    Idle before after :=
  ⟨[], by rw [hcalls, List.append_nil], by simp, fun hs => hfiles ▸ hs⟩

omit [SlotCodec] [Clock] in
theorem idle_preorder : IsPreorder Desk Idle where
  refl := fun _ => .of_same rfl rfl
  trans := by
    rintro first second third ⟨since, hcalls, hidle, hhome⟩ ⟨later, hcalls', hidle', hhome'⟩
    refine ⟨since ++ later, ?_, List.forall_mem_append.mpr ⟨hidle, hidle'⟩, fun hs => hhome' (hhome hs)⟩
    rw [hcalls', hcalls, List.append_assoc]

theorem ask_idle (moment : Moment) {op : Op} (hop : op.plays = false) : (ask moment op).Within Idle := by
  intro desk
  rcases ask_cases moment op desk with hask | ⟨reply, files, hstep, hask⟩
  · rw [hask]
    exact ⟨_, rfl, List.forall_mem_singleton.mpr hop, id⟩
  · rw [hask]
    exact ⟨_, rfl, List.forall_mem_singleton.mpr hop, fun hs => step_allAtHome hs hop hstep⟩

theorem idle_routine (context : CommandContext) (moment : Moment) : Routine context moment Idle where
  preorder := idle_preorder
  ask _ hop := ask_idle moment (Op.plays_of_inPassing hop)
  consult _ _ := .of_same rfl rfl
  remember :=
    have := idle_preorder
    remember_of_ask (ask_idle moment rfl) fun _ _ => .of_same rfl rfl
  unblock _ _ := .of_same rfl rfl
  tellBlocked _ _ _ := .of_same rfl rfl

/-- The lines that come for the place or set off are for the game's chat. -/
theorem hear_idle (bot : Bot) {message : Message} (hchat : message.context.claimsAllowed = false) :
    Idle bot.desk (bot.hear message).2 := by
  have hroutine := idle_routine message.context message.moment
  have hchat' : ¬ message.context.claimsAllowed = true := by simp [hchat]
  apply hroutine.commandDispatch message.text
  apply hroutine.carryOut
  · rw [enterLine, if_pos hchat']
    exact hroutine.pure _
  · intro transfer
    rw [amountLine, if_pos hchat']
    exact hroutine.pure _
  · intro carried
    rw [emojiLine, if_pos hchat']
    exact hroutine.pure _
  · intro target
    rw [raidLine, if_pos hchat']
    exact hroutine.pure _

theorem after_allAtHome {bot : Bot} {op : Op} (hs : AllAtHome bot.files.state) (hop : op.plays = false) :
    AllAtHome (bot.files.after op).state := by
  cases hstep : step bot.files op with
  | error failure =>
    rw [Files.after, hstep]
    exact hs
  | ok result =>
    rw [Files.after_eq hstep]
    exact step_allAtHome hs hop hstep

/-- What happens while every message is from another chat. -/
def Event.Elsewhere : Event → Prop
  | .message heard => heard.context.claimsAllowed = false
  | _ => True

theorem event_allAtHome {bot : Bot} {event : Event} (hevent : event.Elsewhere) :
    (∀ call ∈ bot.callsOn event, call.op.plays = false) ∧
      (AllAtHome bot.files.state → AllAtHome (bot.after event).files.state) := by
  cases event with
  | message message =>
    obtain ⟨since, hcalls, hidle, hhome⟩ := hear_idle bot hevent
    have hsince : bot.callsOn (.message message) = since := hcalls
    rw [hsince]
    exact ⟨hidle, hhome⟩
  | block player until' => exact ⟨by simp [Bot.callsOn], id⟩
  | _ => exact ⟨by simp [Bot.callsOn], fun hs => after_allAtHome hs rfl⟩

def FromElsewhere (config : Configuration) (update : Json) : Prop :=
  ∀ message, messageIn update = some message → config.gameChat ≠ 0 ∧ message.chat ≠ config.gameChat

omit [SlotCodec] [Clock] in
theorem claimsAllowed_iff {config : Configuration} {message : Incoming} :
    (contextOf config message).claimsAllowed = false ↔ config.gameChat ≠ 0 ∧ message.chat ≠ config.gameChat := by
  simp [contextOf]

omit [SlotCodec] [Clock] in
theorem eventsOf_elsewhere {config : Configuration} (moment : Moment) {update : Json} (h : FromElsewhere config update) :
    ∀ event ∈ eventsOf config moment update, event.Elsewhere := by
  intro event hevent
  rw [eventsOf] at hevent
  cases hread : messageIn update with
  | none => simp [hread] at hevent
  | some message =>
    have hchat : (contextOf config message).claimsAllowed = false := claimsAllowed_iff.mpr (h message hread)
    by_cases hreport : asksReport config message = true
    · simp [hread, hreport] at hevent
    · simp only [hread, hreport, Bool.false_eq_true, if_false, List.mem_singleton] at hevent
      rw [hevent]
      exact hchat

theorem run_allAtHome {bot : Bot} {events : List Event} (helsewhere : ∀ event ∈ events, event.Elsewhere) :
    (∀ call ∈ bot.callsIn events, call.op.plays = false) ∧
      (AllAtHome bot.files.state → AllAtHome (bot.run events).files.state) := by
  induction events generalizing bot with
  | nil => exact ⟨by simp [Bot.callsIn], id⟩
  | cons event events ih =>
    obtain ⟨hevent, hevents⟩ := List.forall_mem_cons.mp helsewhere
    obtain ⟨hidle, hhome⟩ := @event_allAtHome _ _ bot _ hevent
    obtain ⟨hrest, hstill⟩ := @ih (bot.after event) hevents
    exact ⟨List.forall_mem_append.mpr ⟨hidle, hrest⟩, fun hs => hstill (hhome hs)⟩

/-- Whatever is written in other chats, in every run: nobody comes for the place and nobody sets off, and if
nobody was on the road or at the place nobody ever is; nor by any updates gone through then that come from such
chats. -/
theorem nobody_plays_elsewhere {bot : Bot} {events : List Event} (helsewhere : ∀ event ∈ events, event.Elsewhere) :
    (∀ call ∈ bot.callsIn events, call.op.plays = false) ∧
      (AllAtHome bot.files.state → AllAtHome (bot.run events).files.state) ∧
      ∀ (config : Configuration) (visits : List (Moment × Json)), (∀ visit ∈ visits, FromElsewhere config visit.2) →
        AllAtHome bot.files.state → AllAtHome (goThroughAll config (bot.run events) visits).files.state := by
  obtain ⟨hidle, hhome⟩ := @run_allAtHome _ _ bot _ helsewhere
  refine ⟨hidle, hhome, fun config visits hvisits hs => ?_⟩
  have helse : ∀ event ∈ visits.flatMap fun visit => eventsOf config visit.1 visit.2, event.Elsewhere := by
    intro event hevent
    obtain ⟨visit, hvisit, hevent⟩ := List.mem_flatMap.mp hevent
    exact eventsOf_elsewhere visit.1 (hvisits visit hvisit) event hevent
  rw [goThroughAll_bot]
  exact (run_allAtHome helse).2 (hhome hs)

end

/-- Somebody who writes to the bot alone, between two rounds. -/
theorem nobody_plays_elsewhere_alone :
    AllAtHome (@Bot.run _ utc {}
      [.message ⟨{ claimsAllowed := false, userId := 1, username := utf8 "ada" }, { now := 5 }, utf8 "We @bob"⟩,
        .message ⟨{ claimsAllowed := false, userId := 2, username := utf8 "bob" }, { now := 6 }, utf8 "casa"⟩]).files.state :=
  (@nobody_plays_elsewhere _ utc {} _ (by simp [Event.Elsewhere])).2.1 allAtHome_empty

end NorelecBot
