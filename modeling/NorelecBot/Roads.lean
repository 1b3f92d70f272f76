import NorelecBot.PalleFits
import Mathlib

/-! # The roads between the houses

Everybody lives at a point of a square, and a road is as long as the straight line,
rounded. So roads are as good as straight: whoever stops on the way saves nothing.
-/

namespace NorelecBot

namespace Position

/-- A point where it really is. -/
noncomputable def Point.place (point : Point) : ℂ := ⟨point.x, point.y⟩

theorem dist_place (first second : Point) :
    dist first.place second.place = √((first.x - second.x).natAbs ^ 2 + (first.y - second.y).natAbs ^ 2 : ℕ) := by
  rw [Complex.dist_eq_re_im]
  congr 1
  simp [Point.place, Nat.cast_natAbs]

/-- The rounded root is the nearest whole number. -/
theorem roundedRoot_nearest (square : ℕ) : |(roundedRoot square : ℝ) - √square| < 1 / 2 := by
  have hlow : (square.sqrt : ℝ) ^ 2 ≤ square := by exact_mod_cast Nat.sqrt_le' square
  have hhigh : (square : ℝ) < (square.sqrt + 1) ^ 2 := by exact_mod_cast Nat.lt_succ_sqrt' square
  have hleast : (square.sqrt : ℝ) ≤ √square := Real.le_sqrt_of_sq_le hlow
  have hmost : √square < square.sqrt + 1 := (Real.sqrt_lt' (by positivity)).mpr hhigh
  rw [roundedRoot, abs_lt]
  split_ifs with hpast
  · have hpast' : (square.sqrt * square.sqrt + square.sqrt + 1 : ℝ) ≤ square := by exact_mod_cast hpast
    have hhalf : (square.sqrt : ℝ) + 1 / 2 < √square := (Real.lt_sqrt (by positivity)).mpr (by nlinarith only [hpast'])
    push_cast
    constructor <;> linarith
  · have hwithin : (square : ℝ) ≤ square.sqrt * square.sqrt + square.sqrt := by exact_mod_cast not_lt.mp hpast
    have hhalf : √square < square.sqrt + 1 / 2 := (Real.sqrt_lt' (by positivity)).mpr (by nlinarith only [hwithin])
    constructor <;> linarith

/-- A road is as long as the straight line, rounded. -/
theorem distance_nearest (first second : Point) : |(distance first second : ℝ) - dist first.place second.place| < 1 / 2 := by
  rw [dist_place, distance]
  exact_mod_cast roundedRoot_nearest _

theorem distance_comm (first second : Point) : distance first second = distance second first := by
  rw [distance, distance, ← Int.natAbs_neg (first.x - second.x), ← Int.natAbs_neg (first.y - second.y), neg_sub, neg_sub]

/-- Rounded three times, a detour may look shorter by one. -/
theorem distance_triangle (first second third : Point) : distance first third ≤ distance first second + distance second third + 1 := by
  have hdirect := abs_lt.mp (distance_nearest first third)
  have hthere := abs_lt.mp (distance_nearest first second)
  have hon := abs_lt.mp (distance_nearest second third)
  have hstraight := dist_triangle first.place second.place third.place
  have hshort : (distance first third : ℝ) < (distance first second + distance second third + 1 : ℤ) + 1 := by
    push_cast
    linarith only [hdirect.2, hthere.1, hon.1, hstraight]
  exact Int.lt_add_one_iff.mp (by exact_mod_cast hshort)

/-- Two who do not live in the same place have a road between them. -/
theorem distance_pos {first second : Point} (h : first ≠ second) : 0 < distance first second := by
  have hapart : 0 < (first.x - second.x).natAbs ^ 2 + (first.y - second.y).natAbs ^ 2 := by
    by_contra hzero
    apply h
    have hsame : (first.x - second.x).natAbs ^ 2 = 0 ∧ (first.y - second.y).natAbs ^ 2 = 0 := by omega
    simp only [ne_eq, OfNat.ofNat_ne_zero, not_false_eq_true, pow_eq_zero_iff, Int.natAbs_eq_zero, sub_eq_zero] at hsame
    cases first
    cases second
    exact congrArg₂ Point.mk hsame.1 hsame.2
  have hroot : 0 < (roundedRoot ((first.x - second.x).natAbs ^ 2 + (first.y - second.y).natAbs ^ 2)) := by
    have hsqrt := Nat.sqrt_pos.mpr hapart
    rw [roundedRoot]
    split_ifs
    · omega
    · exact hsqrt
  rw [distance]
  exact_mod_cast hroot

/-- Every number there is for a player is another place. -/
theorem coordinatesOf_injective {first second : ℤ} (hfirst : 0 ≤ first ∧ first < ids) (hsecond : 0 ≤ second ∧ second < ids)
    (h : coordinatesOf first = coordinatesOf second) : first = second := by
  have hids : ids = 10000000000 := rfl
  have hside : planeSide = 100000 := rfl
  have hfolded {id : ℤ} (hid : 0 ≤ id ∧ id < ids) : coordinatesOf id = ⟨id % 100000, id / 100000⟩ := by
    rw [hids] at hid
    have hinner : id.tmod ids = id := by
      rw [Int.tmod_eq_emod_of_nonneg hid.1, hids]
      omega
    have houter : (id + ids).tmod ids = id := by
      rw [Int.tmod_eq_emod_of_nonneg (by omega), hids]
      omega
    simp only [coordinatesOf, hinner, houter, hside]
    rw [Int.tmod_eq_emod_of_nonneg hid.1, Int.tdiv_eq_ediv_of_nonneg hid.1]
  rw [hfolded hfirst, hfolded hsecond, Point.mk.injEq] at h
  omega

theorem distance_nonneg (first second : Point) : 0 ≤ distance first second := Int.natCast_nonneg _

/-- The way from one corner to the other. -/
theorem distance_le (first second : ℤ) : distance (coordinatesOf first) (coordinatesOf second) ≤ 141420 := by
  have hside : planeSide = 100000 := rfl
  have hfirst := coordinatesOf_range first
  have hsecond := coordinatesOf_range second
  rw [hside] at hfirst hsecond
  rw [distance]
  generalize (coordinatesOf first) = one at *
  generalize (coordinatesOf second) = other at *
  have hwidth : (one.x - other.x).natAbs ^ 2 ≤ 99999 ^ 2 := Nat.pow_le_pow_left (by omega) 2
  have hheight : (one.y - other.y).natAbs ^ 2 ≤ 99999 ^ 2 := Nat.pow_le_pow_left (by omega) 2
  generalize (one.x - other.x).natAbs ^ 2 = width at *
  generalize (one.y - other.y).natAbs ^ 2 = height at *
  have hroot : (width + height).sqrt < 141420 := Nat.sqrt_lt'.mpr (by omega)
  rw [roundedRoot]
  split_ifs
  · omega
  · omega

/-- Two numbers and so much more, each shared out and rounded down. -/
theorem share_detour {direct there on more share : ℤ} (h : direct ≤ there + on + more) (hshare : 0 < share) :
    direct / share ≤ there / share + on / share + (more - 2) / share + 2 := by
  have hthere := Int.lt_ediv_add_one_mul_self there hshare
  have hon := Int.lt_ediv_add_one_mul_self on hshare
  have hmore := Int.lt_ediv_add_one_mul_self (more - 2) hshare
  have hless : direct < (there / share + on / share + (more - 2) / share + 3) * share := by
    nlinarith only [h, hthere, hon, hmore]
  have hquotient := Int.ediv_lt_of_lt_mul hshare hless
  omega

theorem travelSeconds_detour {direct there on : ℤ} (h : direct ≤ there + on + 1) (hdirect : 0 ≤ direct) (hthere : 0 ≤ there)
    (hon : 0 ≤ on) (divisor : ℤ) :
    travelSeconds direct divisor ≤ travelSeconds there divisor + travelSeconds on divisor + 1 := by
  have hshortest : shortestTravel = 5 := rfl
  simp only [travelSeconds, hshortest]
  by_cases hdivisor : divisor ≤ 0
  · simp only [hdivisor, if_true]
    omega
  · simp only [hdivisor, if_false]
    rw [Int.tdiv_eq_ediv_of_nonneg hdirect, Int.tdiv_eq_ediv_of_nonneg hthere, Int.tdiv_eq_ediv_of_nonneg hon]
    have hshare := share_detour h (not_le.mp hdivisor)
    have hless : (1 - 2) / divisor = -1 := by
      rw [show (1 - 2 : ℤ) = -1 by rfl, Int.neg_one_ediv, Int.sign_eq_one_of_pos (not_le.mp hdivisor)]
    omega

theorem shortest_le_travelSeconds (distance divisor : ℤ) : shortestTravel ≤ travelSeconds distance divisor := by
  rw [travelSeconds]
  split_ifs
  · exact le_rfl
  · exact le_max_left _ _

end Position

open Position

section
variable [SlotCodec] (state : ConquisterState) (username : Str) (rules : RaidRules)

theorem shortest_le_rideSeconds (distance : ℤ) : shortestTravel ≤ rideSeconds state username distance rules := by
  rw [rideSeconds]
  split_ifs
  · exact le_max_left _ _
  · exact shortest_le_travelSeconds _ _

/-- With any number of 🚀, a detour saves two seconds at the most. -/
theorem rideSeconds_detour {direct there on : ℤ} (h : direct ≤ there + on + 1) (hdirect : 0 ≤ direct) (hthere : 0 ≤ there)
    (hon : 0 ≤ on) :
    rideSeconds state username direct rules ≤
      rideSeconds state username there rules + rideSeconds state username on rules + 2 := by
  have hseconds := travelSeconds_detour h hdirect hthere hon rules.travelDivisor
  have hleast (distance : ℤ) := shortest_le_travelSeconds distance rules.travelDivisor
  have hshortest : shortestTravel = 5 := rfl
  rw [hshortest] at hleast
  have hfar := hleast direct
  have hnear := hleast there
  have hnext := hleast on
  simp only [rideSeconds, hshortest]
  generalize travelSeconds direct rules.travelDivisor = direct at *
  generalize travelSeconds there rules.travelDivisor = there at *
  generalize travelSeconds on rules.travelDivisor = on at *
  by_cases hrockets : carriedCopies state username .rocket > 0 ∧ rules.rocketPercent > 0
  · simp only [if_pos hrockets]
    have hspeed : 0 < carriedCopies state username .rocket * rules.rocketPercent := mul_pos hrockets.1 hrockets.2
    generalize carriedCopies state username .rocket * rules.rocketPercent = speed at *
    rw [Int.tdiv_eq_ediv_of_nonneg (by omega), Int.tdiv_eq_ediv_of_nonneg (by omega), Int.tdiv_eq_ediv_of_nonneg (by omega)]
    have hshare := @share_detour (direct * 100) (there * 100) (on * 100) 100 (100 + speed) (by omega) (by omega)
    have hless : (100 - 2) / (100 + speed) = 0 := Int.ediv_eq_zero_of_lt (by omega) (by omega)
    omega
  · simp only [if_neg hrockets]
    omega

/-- Every road between two houses is as long as the straight line between them, to the nearest whole number, and never
longer than from corner to corner; a ride takes as long one way as the other, a few seconds at the least, and whoever
goes by way of a third house saves two seconds at the most. Two numbers there may be for a player are two places. -/
theorem roads_are_straight (first second third : ℤ) :
    let road (fromId toId : ℤ) := distance (coordinatesOf fromId) (coordinatesOf toId)
    let lasts (fromId toId : ℤ) := rideSeconds state username (road fromId toId) rules
    |(road first second : ℝ) - dist (coordinatesOf first).place (coordinatesOf second).place| < 1 / 2 ∧
      road first second ≤ 141420 ∧
      lasts first second = lasts second first ∧ shortestTravel ≤ lasts first second ∧
      lasts first third ≤ lasts first second + lasts second third + 2 ∧
      (first ∈ Set.Ico 0 ids → second ∈ Set.Ico 0 ids → first ≠ second → 0 < road first second) := by
  intro road lasts
  refine ⟨distance_nearest _ _, distance_le first second, ?_, shortest_le_rideSeconds state username rules _, ?_, ?_⟩
  · exact congrArg (fun distance => rideSeconds state username distance rules) (distance_comm _ _)
  · exact rideSeconds_detour state username rules (distance_triangle _ _ _) (distance_nonneg _ _) (distance_nonneg _ _)
      (distance_nonneg _ _)
  · intro hfirst hsecond hother
    apply distance_pos
    intro hsame
    exact hother (coordinatesOf_injective hfirst hsecond hsame)

end

end NorelecBot
