/-!
# Reading from the front

A reader takes a value off the front of its input. `Taken` keeps, beside the value and the rest, that
the rest is shorter, which is what ends every loop over a reader.
-/

namespace AppletHost.Text

/-- A value taken off the front of `input`, which leaves a strictly shorter rest. -/
structure Taken {τ : Type} (α : Type) (input : List τ) where
  value : α
  rest : List τ
  shorter : rest.length < input.length

namespace Taken

variable {τ α β : Type} {input : List τ}

/-- The same rest with another value. -/
def map (f : α → β) (t : Taken α input) : Taken β input := ⟨f t.value, t.rest, t.shorter⟩

/-- What was taken off a shorter input was taken off the longer one too. -/
def within {shorterInput : List τ} (t : Taken α shorterInput)
    (h : shorterInput.length ≤ input.length) : Taken α input :=
  ⟨t.value, t.rest, Nat.lt_of_lt_of_le t.shorter h⟩

end Taken

theorem length_dropWhile_le {α : Type} (p : α → Bool) (xs : List α) :
    (xs.dropWhile p).length ≤ xs.length := by
  induction xs with
  | nil => simp
  | cons x xs ih =>
    rw [List.dropWhile_cons]
    split
    · exact Nat.le_succ_of_le ih
    · exact Nat.le_refl _

end AppletHost.Text
