/-!
# Reading a part of an input

A reader takes something from the front of an input and leaves the rest. The bound on the length of
the rest is part of what it returns, so that readers can call one another on what is left.

## Main definitions

* `Reading`: what was read, and a rest of bounded length.
-/

namespace PatternMachines

/-- What was read from the front of an input, and the rest, which has at most `n` items. -/
structure Reading (σ α : Type) (n : Nat) where
  /-- What was read. -/
  value : α
  /-- What is left. -/
  rest : List σ
  /-- The rest is not longer than the bound. -/
  rest_length : rest.length ≤ n

namespace Reading

variable {σ α β : Type} {m n : Nat}

/-- The same reading with another value. -/
def map (f : α → β) (r : Reading σ α n) : Reading σ β n := ⟨f r.value, r.rest, r.rest_length⟩

/-- The same reading under a weaker bound. -/
def weaken (r : Reading σ α m) (h : m ≤ n) : Reading σ α n :=
  ⟨r.value, r.rest, Nat.le_trans r.rest_length h⟩

end Reading

end PatternMachines
