import SchemaPlugin.Text

/-!
How alike two texts are. They have in common their longest common run and what they have in common
before it and after it; they are alike if that makes up three fifths of both.
-/

namespace SchemaPlugin.Text

/-- The length of the longest common beginning. -/
def commonPrefix : Text → Text → Nat
  | a :: s, b :: t => if a = b then commonPrefix s t + 1 else 0
  | _, _ => 0

theorem commonPrefix_le (s t : Text) : commonPrefix s t ≤ s.length := by
  induction s generalizing t with
  | nil => simp [commonPrefix]
  | cons a s ih =>
    cases t with
    | nil => simp [commonPrefix]
    | cons b t =>
      rw [commonPrefix]
      split
      · exact Nat.succ_le_succ (ih t)
      · exact Nat.zero_le _

/-- A run of code points that stands in two texts: where it begins in each, and its length. -/
structure Run where
  first : Nat
  second : Nat
  size : Nat
  deriving DecidableEq

/-- The common runs from one place of the first text on, where it goes on with `s`. -/
def runsAt (first : Nat) (s : Text) (second : Nat) : Text → List Run
  | [] => []
  | c :: t => ⟨first, second, commonPrefix s (c :: t)⟩ :: runsAt first s (second + 1) t

/-- The common runs in the order of their places, each as long as it can be. -/
def runs (t : Text) (first : Nat) : Text → List Run
  | [] => []
  | c :: s => runsAt first (c :: s) 0 t ++ runs t (first + 1) s

theorem end_le_of_mem_runsAt {first second : Nat} {s t : Text} {run : Run}
    (h : run ∈ runsAt first s second t) : run.first + run.size ≤ first + s.length := by
  induction t generalizing second with
  | nil => simp [runsAt] at h
  | cons c t ih =>
    rw [runsAt, List.mem_cons] at h
    rcases h with rfl | h
    · exact Nat.add_le_add_left (commonPrefix_le s (c :: t)) first
    · exact ih h

theorem end_le_of_mem_runs {first : Nat} {s t : Text} {run : Run} (h : run ∈ runs t first s) :
    run.first + run.size ≤ first + s.length := by
  induction s generalizing first with
  | nil => simp [runs] at h
  | cons c s ih =>
    rw [runs, List.mem_append] at h
    rcases h with h | h
    · exact end_le_of_mem_runsAt h
    · have := ih h
      rw [List.length_cons]
      omega

def Run.longer (best run : Run) : Run := if best.size < run.size then run else best

/-- The longest common run, the first of several. -/
def longestRun (s t : Text) : Run := (runs t 0 s).foldl Run.longer ⟨0, 0, 0⟩

theorem foldl_longer_mem (best : Run) (rs : List Run) :
    rs.foldl Run.longer best = best ∨ rs.foldl Run.longer best ∈ rs := by
  induction rs generalizing best with
  | nil => exact Or.inl rfl
  | cons run rs ih =>
    rw [List.foldl_cons]
    rcases ih (best.longer run) with h | h
    · rw [h, Run.longer]
      split
      · exact Or.inr List.mem_cons_self
      · exact Or.inl rfl
    · exact Or.inr (List.mem_cons_of_mem run h)

theorem longestRun_end_le (s t : Text) :
    (longestRun s t).first + (longestRun s t).size ≤ s.length := by
  rcases foldl_longer_mem ⟨0, 0, 0⟩ (runs t 0 s) with h | h
  · rw [longestRun, h]
    exact Nat.zero_le _
  · have := end_le_of_mem_runs h
    rwa [Nat.zero_add] at this

/-- How many code points two texts have in common. -/
def common (s t : Text) : Nat :=
  let run := longestRun s t
  if _h : run.size = 0 then 0
  else
    common (s.take run.first) (t.take run.second) + run.size +
      common (s.drop (run.first + run.size)) (t.drop (run.second + run.size))
termination_by s.length
decreasing_by
  all_goals
    have nonempty : (longestRun s t).size ≠ 0 := _h
    have := longestRun_end_le s t
    simp only [List.length_take, List.length_drop]
    omega

/-- Whether what two texts have in common makes up three fifths of both. -/
def isAlike (s t : Text) : Bool := 3 * (s.length + t.length) ≤ 10 * common s t

/-- Whether `s` has at least as large a part in common with `word` as `t` has. -/
def isCloser (word s t : Text) : Bool :=
  common t word * (s.length + word.length) ≤ common s word * (t.length + word.length)

end SchemaPlugin.Text
