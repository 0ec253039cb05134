import SafetyIsland.Fallible.Returns

namespace Fallible

-- How a call fails to return.
inductive Failure
  -- The message of a `std::invalid_argument`.
  | invalidArgument (message : String)
  -- `std::vector::at`, or an iterator behind the end.
  | outOfRange
  -- The message that is logged before the process exits.
  | exit (message : String)
  -- A loop has not ended within the passes that the model allows it.
  | running
deriving DecidableEq

variable {α : Type}

-- A `try` block, and `none` for an exception that the block catches. A process that exits is not
-- caught.
def caught : Except Failure α → Except Failure (Option α)
  | .ok a                       => .ok (some a)
  | .error (.invalidArgument _) => .ok none
  | .error .outOfRange          => .ok none
  | .error f                    => .error f

def vectorAt (xs : List α) (i : ℕ) : Except Failure α :=
  match xs[i]? with
  | some x => .ok x
  | none   => .error .outOfRange

-- `xs.at(i) = x`
def setAt (xs : List α) (i : ℕ) (x : α) : Except Failure (List α) :=
  if i < xs.length then .ok (xs.set i x) else .error .outOfRange

-- `xs.insert(xs.begin() + i, x)`
def insertAt (xs : List α) (i : ℕ) (x : α) : Except Failure (List α) :=
  if i ≤ xs.length then .ok (xs.insertIdx i x) else .error .outOfRange

variable {xs : List α} {i : ℕ} {x : α}

theorem vectorAt_eq (h : i < xs.length) : vectorAt xs i = .ok xs[i] := by
  rw [vectorAt, List.getElem?_eq_getElem h]

theorem vectorAt_returns (h : i < xs.length) : Returns (vectorAt xs i) fun x => x ∈ xs :=
  ⟨_, vectorAt_eq h, List.getElem_mem h⟩

theorem setAt_eq (h : i < xs.length) : setAt xs i x = .ok (xs.set i x) :=
  if_pos h

theorem insertAt_returns (h : i ≤ xs.length) :
    Returns (insertAt xs i x) fun ys => ys.length = xs.length + 1 := by
  rw [insertAt, if_pos h]
  exact .ok (List.length_insertIdx_of_le_length h x)

end Fallible
