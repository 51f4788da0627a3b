/-!
# Splitting

* `splitOn`: the pieces of a list between its separators.
-/

namespace Brainfuck

variable {α : Type} [DecidableEq α]

/-- Puts an element in front of the first piece. -/
def onFirst (a : α) : List (List α) → List (List α)
  | [] => [[a]]
  | p :: ps => (a :: p) :: ps

/-- The pieces of a list before, between and after its separators. -/
def splitOn (separator : α) (s : List α) : List (List α) :=
  s.foldr (fun a pieces => if a = separator then [] :: pieces else onFirst a pieces) [[]]

@[simp] theorem splitOn_nil (separator : α) : splitOn separator [] = [[]] := rfl

@[simp] theorem splitOn_separator (separator : α) (s : List α) :
    splitOn separator (separator :: s) = [] :: splitOn separator s := by
  simp [splitOn]

theorem splitOn_cons {a separator : α} (h : a ≠ separator) (s : List α) :
    splitOn separator (a :: s) = onFirst a (splitOn separator s) := by
  simp [splitOn, h]

theorem splitOn_ne_nil (separator : α) (s : List α) : splitOn separator s ≠ [] := by
  cases s with
  | nil => exact List.cons_ne_nil _ _
  | cons a s =>
    by_cases h : a = separator
    · rw [h, splitOn_separator]
      exact List.cons_ne_nil _ _
    · rw [splitOn_cons h]
      unfold onFirst
      split <;> exact List.cons_ne_nil _ _

/-- The pieces before a separator and the pieces behind it. -/
theorem splitOn_append (separator : α) (s t : List α) :
    splitOn separator (s ++ separator :: t) = splitOn separator s ++ splitOn separator t := by
  induction s with
  | nil => exact splitOn_separator separator t
  | cons a s ih =>
    by_cases h : a = separator
    · rw [h, List.cons_append, splitOn_separator, splitOn_separator, ih, List.cons_append]
    · rw [List.cons_append, splitOn_cons h, splitOn_cons h, ih]
      obtain ⟨p, ps, hps⟩ := List.exists_cons_of_ne_nil (splitOn_ne_nil separator s)
      rw [hps]
      rfl

theorem splitOn_of_not_mem {separator : α} {s : List α} (h : separator ∉ s) :
    splitOn separator s = [s] := by
  induction s with
  | nil => rfl
  | cons a s ih =>
    have ha : a ≠ separator := fun heq => h (heq ▸ List.mem_cons_self)
    have hs : separator ∉ s := fun hmem => h (List.mem_cons_of_mem a hmem)
    rw [splitOn_cons ha, ih hs]
    rfl

end Brainfuck
