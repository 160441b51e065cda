import Reckoner.Binary64.Basic

/-!
# The fewest digits that read back

Every finite double is the nearest one to a whole interval of reals.  `shortest` looks for a
decimal with as few digits as possible in that interval: for one digit, two digits and so on it
tries the two neighbours of the value on that decimal grid.  The first grid with a hit wins; of two
hits the nearer, and of two equally near the one whose last digit is even.

The interval includes its ends exactly when the mantissa is even, because ties are rounded to even.
Below a power of two the doubles lie twice as dense, so the lower half of the interval is half as
wide there.
-/

namespace Reckoner

/-- A decimal `digits · 10 ^ exponent`. -/
structure Scientific where
  digits : Nat
  exponent : Int
deriving DecidableEq, Repr

/-- Move the zeros at the end of the digits into the exponent, at most `fuel` of them. -/
def Scientific.stripZeros : Nat → Scientific → Scientific
  | 0, s => s
  | fuel + 1, s =>
    if s.digits ≠ 0 ∧ s.digits % 10 = 0 then stripZeros fuel ⟨s.digits / 10, s.exponent + 1⟩
    else s

/-- Every zero that is moved adds one to the exponent. -/
theorem Scientific.stripZeros_exponent (fuel : Nat) (s : Scientific) :
    s.exponent ≤ (stripZeros fuel s).exponent ∧
      (stripZeros fuel s).exponent ≤ s.exponent + fuel := by
  induction fuel generalizing s with
  | zero => simp [stripZeros]
  | succ fuel ih =>
    rw [stripZeros]
    split
    · have := ih ⟨s.digits / 10, s.exponent + 1⟩
      simp only at this
      omega
    · omega

namespace Binary64

/-- Whether `10 ^ power ≤ mantissa · 2 ^ exponent`. -/
def reachesPower (mantissa : Nat) (exponent power : Int) : Bool :=
  Nat.pow 10 power.toNat * Nat.pow 2 (-exponent).toNat
    ≤ mantissa * Nat.pow 2 exponent.toNat * Nat.pow 10 (-power).toNat

/-- The decimal exponent of the first digit of `mantissa · 2 ^ exponent`.  The estimate from the
binary logarithm is off by at most one. -/
def decade (mantissa : Nat) (exponent : Int) : Int :=
  let estimate := ((Nat.log2 mantissa : Int) + exponent) * 30103 / 100000
  if reachesPower mantissa exponent (estimate + 1) then estimate + 1
  else if reachesPower mantissa exponent estimate then estimate
  else estimate - 1

/-- The first digit of a double counts between `10 ^ -325` and `10 ^ 308`. -/
theorem decade_range {mantissa : Nat} {exponent : Int} (h : Canonical mantissa exponent) :
    -325 ≤ decade mantissa exponent ∧ decade mantissa exponent ≤ 308 := by
  obtain ⟨hmantissa, hlow, hhigh, _⟩ := h
  have hlog : Nat.log2 mantissa < 53 := by
    by_cases hzero : mantissa = 0
    · subst hzero; decide
    · exact (Nat.log2_lt hzero).2 hmantissa
  unfold decade
  simp only
  split
  · omega
  · split <;> omega

/-- The reals that round to a double, in quarters of its last mantissa bit. -/
structure Interval where
  low : Nat
  value : Nat
  high : Nat
  closed : Bool

/-- The interval of a canonical mantissa and exponent. -/
def interval (mantissa : Nat) (exponent : Int) : Interval where
  low := if mantissa = topBit ∧ -1074 < exponent then 4 * mantissa - 1 else 4 * mantissa - 2
  value := 4 * mantissa
  high := 4 * mantissa + 2
  closed := mantissa % 2 == 0

/-- The decimals that a grid offers for a value, and which of them lie in the interval. -/
structure GridPoints where
  down : Nat
  downFits : Bool
  upFits : Bool
  /-- The order of twice the distance to `down` and one grid step. -/
  half : Ordering

/-- The neighbours of the value on the grid of multiples of `10 ^ grid`. -/
def gridPoints (i : Interval) (exponent grid : Int) : GridPoints :=
  let quarter := Nat.pow 2 (exponent - 2).toNat * Nat.pow 10 (-grid).toNat
  let step := Nat.pow 10 grid.toNat * Nat.pow 2 (2 - exponent).toNat
  let down := i.value * quarter / step
  let inside (point : Nat) : Bool :=
    if i.closed then i.low * quarter ≤ point * step && point * step ≤ i.high * quarter
    else i.low * quarter < point * step && point * step < i.high * quarter
  { down
    downFits := inside down
    upFits := inside (down + 1)
    half := Ord.compare (2 * (i.value * quarter % step)) step }

/-- The nearer of the two neighbours, ties to the even one. -/
def GridPoints.nearer (p : GridPoints) : Nat :=
  match p.half with
  | .lt => p.down
  | .gt => p.down + 1
  | .eq => if p.down % 2 = 0 then p.down else p.down + 1

/-- Refine the grid until one of the two neighbours lies in the interval, or the given number of
refinements is used up.  Seventeen digits always suffice. -/
def searchGrids (i : Interval) (exponent : Int) : Nat → Int → Scientific
  | 0, grid => ⟨(gridPoints i exponent grid).nearer, grid⟩
  | refinements + 1, grid =>
    let points := gridPoints i exponent grid
    match points.downFits, points.upFits with
    | true, true => ⟨points.nearer, grid⟩
    | true, false => ⟨points.down, grid⟩
    | false, true => ⟨points.down + 1, grid⟩
    | false, false => searchGrids i exponent refinements (grid - 1)

/-- Every refinement takes one from the exponent of the grid. -/
theorem searchGrids_exponent (i : Interval) (exponent : Int) (refinements : Nat) (grid : Int) :
    grid - refinements ≤ (searchGrids i exponent refinements grid).exponent ∧
      (searchGrids i exponent refinements grid).exponent ≤ grid := by
  induction refinements generalizing grid with
  | zero => simp [searchGrids]
  | succ refinements ih =>
    rw [searchGrids]
    split
    · simp only; omega
    · simp only; omega
    · simp only; omega
    · have := ih (grid - 1)
      omega

/-- The shortest decimal that reads back as `mantissa · 2 ^ exponent`, the nearest of those. -/
def shortest (mantissa : Nat) (exponent : Int) : Scientific :=
  if mantissa = 0 then ⟨0, 0⟩
  else
    (searchGrids (interval mantissa exponent) exponent 16 (decade mantissa exponent)).stripZeros 18

/-- The exponent of a shortest decimal has at most three digits. -/
theorem shortest_exponent_range {mantissa : Nat} {exponent : Int}
    (h : Canonical mantissa exponent) :
    -341 ≤ (shortest mantissa exponent).exponent ∧ (shortest mantissa exponent).exponent ≤ 326 := by
  unfold shortest
  split
  · simp
  · have hdecade := decade_range h
    have hgrid := searchGrids_exponent (interval mantissa exponent) exponent 16
      (decade mantissa exponent)
    have hstrip := Scientific.stripZeros_exponent 18
      (searchGrids (interval mantissa exponent) exponent 16 (decade mantissa exponent))
    omega

end Binary64

end Reckoner
