/-!
# The height limit

How many levels the tree of an expression may have. Every limit a user sets is brought into
`1 ≤ limit ≤ ceiling` by `HeightLimit.clamp`.
-/

namespace TreeCalculator.HeightLimit

/-- The limit before a user sets one. -/
def standard : Nat := 200

/-- The highest limit a user can set. -/
def ceiling : Nat := 2000

/-- The limit nearest to `n` that a user can set. -/
def clamp (n : Nat) : Nat := max 1 (min n ceiling)

/-- A limit that a user has set is at least one. -/
theorem one_le_clamp (n : Nat) : 1 ≤ clamp n := Nat.le_max_left ..

/-- A limit that a user has set is at most the ceiling. -/
theorem clamp_le_ceiling (n : Nat) : clamp n ≤ ceiling :=
  Nat.max_le.2 ⟨by decide, Nat.min_le_right ..⟩

end TreeCalculator.HeightLimit
