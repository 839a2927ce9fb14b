import DicePool.Roller

/-!
# Sources of rolls

Deterministic rollers: a list that is read again and again, a counter, a linear congruential
generator, and a list of 32-bit words from which uniform answers are drawn by rejection.
-/

namespace DicePool

/-- A deterministic source of rolls. -/
inductive Source where
  /-- Values read in a circle; when `clamped`, each is moved into the range of the sides. -/
  | cycle (clamped : Bool) (values : List Nat) (index : Nat)
  /-- A counter taken modulo the sides. -/
  | step (current increment : Nat)
  /-- A congruential generator of 31 bits. -/
  | congruential (state : Nat)
  /-- Words read in order, zero after their end. -/
  | words (rest : List Nat)
  deriving Repr, DecidableEq

namespace Source

/-- The number of values of a 32-bit word. -/
def wordSize : Nat := 4294967296

/-- The largest low half of a product that is accepted: the greatest multiple of a shifted number
of sides that fits a word, less one. -/
def zone (sides : Nat) : Nat :=
  (sides <<< (31 - sides.log2) + (wordSize - 1)) % wordSize

/-- A uniform answer from words: the high half of a word times the sides, for the first word
whose low half is accepted. -/
def draw (sides : Nat) : List Nat → Nat × List Nat
  | [] => (1, [])
  | w :: ws =>
    let product := w * sides
    if product % wordSize ≤ zone sides then (product / wordSize + 1, ws) else draw sides ws

/-- A value moved into the range from one to the sides. -/
def clamp (sides value : Nat) : Nat := min (max value 1) sides

/-- The answer of a source and its next state. -/
def next (sides : Nat) : Source → Nat × Source
  | cycle clamped values index =>
    let value := values[index % values.length]?.getD 1
    (if clamped then clamp sides value else value, cycle clamped values (index + 1))
  | step current increment =>
    ((current - 1) % sides + 1, step (current + increment) increment)
  | congruential state =>
    let state := (state * 1103515245 + 12345) % 2147483648
    (state / 256 % sides + 1, congruential state)
  | words rest =>
    let (answer, rest) := draw sides rest
    (answer, words rest)

/-- Sources are rollers. -/
instance : Roller Source where
  roll s sides := s.next sides

/-- A counter answers within the sides. -/
theorem step_mem {sides : Nat} (pos : 0 < sides) (current increment : Nat) :
    1 ≤ ((step current increment).next sides).1
      ∧ ((step current increment).next sides).1 ≤ sides := by
  have := Nat.mod_lt (current - 1) pos
  simp only [next]
  omega

end Source
end DicePool
