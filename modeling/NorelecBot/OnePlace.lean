import NorelecBot.Runs

/-! # One place at a time

Nobody rides twice or rides while holding the place, nobody owes anything, a ride
brings one thing, and nobody has more on him than he can carry: along every run in
which the emoji written keep apart in their slots.
-/

namespace NorelecBot
open Lib

section
variable [SlotCodec]

structure OneRide (state : ConquisterState) : Prop where
  riders : (state.raids.map Raid.raider).Nodup
  holder : ∀ hold, state.current = some hold → ∀ raid ∈ state.raids, raid.raider ≠ hold.username
  rides : ∀ raid ∈ state.raids, raid.Orderly ∧ raid.Single
  scores : ∀ player, 0 ≤ counter state.scores player

structure OnePlace (state : ConquisterState) : Prop extends OneRide state where
  gear : ∀ player, (gearOf state player).length ≤ carriedLimit

/-- What keeps everybody on one ride along a run. -/
structure Steady (state : ConquisterState) : Prop where
  thrifty : Thrifty state
  loaded : Loaded state
  apart : Apart state

variable {P : Str → Prop}

omit [SlotCodec] in
theorem Steady.oneRide {s : ConquisterState} (h : Steady s) : OneRide s where
  riders := h.apart.riders
  holder := h.apart.holder
  rides raid hraid := ⟨h.loaded.solvent.rides raid hraid, h.loaded.oneLoad raid hraid⟩
  scores := h.loaded.solvent.scores

theorem Passage.steady {inputs : List Str} {s t : ConquisterState} {f : Receipt} (h : Passage inputs s f t)
    (hs : Steady s) : Steady t :=
  ⟨h.thrifty hs.thrifty, h.loaded hs.thrifty hs.loaded, h.apart hs.apart⟩

omit [SlotCodec] in
theorem steady_empty : Steady {} where
  thrifty := nofun
  loaded := ⟨⟨fun _ => le_rfl, nofun⟩, nofun⟩
  apart := ⟨List.nodup_nil, nofun⟩

theorem inPlace_empty (law : Lawful P) : InPlace P {} := by
  have hbare : ∀ player, slotsOf {} player = [] ∧ gearOf {} player = [] := fun _ => ⟨law.nothing, law.nothing⟩
  refine ⟨⟨fun player => ?_, fun player => ?_, nofun⟩, fun player => ?_⟩
  · rw [(hbare player).1]
    exact allOf_nil
  · rw [(hbare player).2]
    exact allOf_nil
  · rw [(hbare player).2]
    exact Nat.zero_le _

theorem oneRide_run [Clock] (ops : List Op) : OneRide (({} : Files).run ops).state := by
  have hany : ∀ op ∈ ops, AllOf (fun _ => True) op.inputs := fun _ _ _ _ _ => trivial
  exact (Files.run_keeps (fun _ hpassage => hpassage.steady) hany steady_empty).oneRide

theorem gear_run [Clock] (law : Lawful P) {ops : List Op} (hinputs : ∀ op ∈ ops, AllOf P op.inputs) (player : Str) :
    (gearOf (({} : Files).run ops).state player).length ≤ carriedLimit := by
  have hplace : InPlace P (({} : Files).run ops).state :=
    Files.run_keeps (fun hemoji hpassage => hpassage.inPlace law hemoji) hinputs (inPlace_empty law)
  exact hplace.fits player

end

/-- Along every run from the empty game nobody is in two places, and nobody and no ride owes anything; nor has anybody
more on him than he can carry, when every emoji bought or sent along is of a kind that is read back as it was stored,
whatever the slots. -/
theorem onePlace_run [Clock] (ops : List Op) :
    OneRide (({} : Files).run ops).state ∧
      ∀ {P : Str → Prop}, Lawful P → (∀ op ∈ ops, AllOf P op.inputs) → OnePlace (({} : Files).run ops).state :=
  ⟨oneRide_run ops, fun law hinputs => ⟨oneRide_run ops, gear_run law hinputs⟩⟩

def buysAndTakes (emoji : Str) : List Op :=
  [.buy (utf8 "alice") emoji 0 0 10 0 0, .take (utf8 "alice") emoji [] 0]

/-- A joiner hangs over the keycap and takes up the 👍, and lets go of it once its emoji is at home. -/
def hoarding : List Op :=
  [utf8 "👨‍", utf8 "1⃣", utf8 "👍", utf8 "🍕", utf8 "🍺", utf8 "🍎"].flatMap buysAndTakes ++
    [.store (utf8 "alice") (utf8 "👨‍") 10 0]

theorem hoarding_overloads : ¬ OnePlace (@Files.run _ utc {} hoarding).state := by
  have hload : ¬ (gearOf (@Files.run _ utc {} hoarding).state (utf8 "alice")).length ≤ carriedLimit := by
    decide +kernel
  exact fun h => hload (h.gear (utf8 "alice"))

theorem onePlace_run_pizza : OnePlace (@Files.run _ utc {} (buysAndTakes (utf8 "🍕"))).state := by
  have hpizza : Clean (utf8 "🍕") :=
    clean_of_reading (by decide +kernel) (by decide +kernel) (by decide +kernel) (by decide +kernel)
  refine (@onePlace_run utc _).2 lawful_clean fun op hop emoji hemoji _ => ?_
  rcases List.mem_cons.mp hop with rfl | hop
  · rw [List.mem_singleton.mp hemoji]
    exact hpizza
  · rw [List.mem_singleton.mp hop] at hemoji
    cases hemoji

end NorelecBot
