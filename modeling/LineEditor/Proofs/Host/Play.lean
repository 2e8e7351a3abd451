import LineEditor.Host.Machine

/-!
Runs of a machine. A move is a call of the host or the next job, and a run is any list of moves, so
that calls and jobs interleave as they please; what a host may do when is said by those who need it.

Main definitions: `Machine.move`, `Machine.play`, `Machine.Admits`, that each move of a run may be
made where it is made, and `Machine.record`, which joins what is told of each move of a run. Main
statement: `play_invariant`, what every move keeps is kept by a run.
-/
namespace LineEditor

/-- What happens next. -/
inductive Move where
  | call (c : Call)
  /-- The next job is done. -/
  | step

/-- Whether a job is to run tasks that wait. -/
def Job.isTasks : Job → Bool
  | .tasks _ => true
  | _ => false

namespace Machine

/-- One move; nothing happens if there is no job to do. -/
def move (host : Host) (m : Machine) : Move → Machine
  | .call c => (m.call c).1
  | .step => (m.step? host).getD m

/-- Some moves, one after the other. -/
def play (host : Host) (m : Machine) (moves : List Move) : Machine := moves.foldl (move host) m

/-- What is told of the moves of a run, one after the other. -/
def record {α : Type} (tell : Machine → Move → List α) (host : Host) (m : Machine)
    (moves : List Move) : List α :=
  (collect (fun m x => (m.move host x, tell m x)) m moves).2

/-- Each move of a run is allowed when it is made. -/
def Admits (allows : Machine → Move → Prop) (host : Host) : Machine → List Move → Prop
  | _, [] => True
  | m, x :: moves => allows m x ∧ Admits allows host (m.move host x) moves

instance decidableAdmits (allows : Machine → Move → Prop) [∀ m x, Decidable (allows m x)]
    (host : Host) : (m : Machine) → (moves : List Move) → Decidable (m.Admits allows host moves)
  | _, [] => inferInstanceAs (Decidable True)
  | m, x :: moves =>
    have := decidableAdmits allows host (m.move host x) moves
    inferInstanceAs (Decidable (allows m x ∧ Admits allows host (m.move host x) moves))

/-- No task is being run: all that is left to do is to run those that wait. -/
def BetweenTasks (m : Machine) : Prop := ∀ j ∈ m.jobs, j.isTasks = true

instance (m : Machine) : Decidable m.BetweenTasks :=
  inferInstanceAs (Decidable (∀ j ∈ m.jobs, j.isTasks = true))

variable {host : Host} {m : Machine}

@[simp] theorem play_nil : m.play host [] = m := rfl

@[simp] theorem play_cons (x : Move) (moves : List Move) :
    m.play host (x :: moves) = (m.move host x).play host moves := rfl

@[simp] theorem play_append (moves moves' : List Move) :
    m.play host (moves ++ moves') = (m.play host moves).play host moves' := List.foldl_append ..

section Record

variable {α : Type} (tell : Machine → Move → List α) (host : Host) (m : Machine)

@[simp] theorem record_nil : record tell host m [] = [] := rfl

@[simp] theorem record_cons (x : Move) (moves : List Move) :
    record tell host m (x :: moves) = tell m x ++ record tell host (m.move host x) moves :=
  congrArg Prod.snd (collect_cons ..)

end Record

/-- What is allowed and keeps `P` move by move keeps `P` along a run. -/
theorem play_invariant {P : Machine → Prop} {A : Machine → Move → Prop}
    (hmove : ∀ m x, A m x → P m → P (m.move host x)) (moves : List Move) (hm : P m)
    (hadmits : m.Admits A host moves) : P (m.play host moves) := by
  induction moves generalizing m with
  | nil => exact hm
  | cons x moves ih => exact ih (hmove m x hadmits.1 hm) hadmits.2

theorem Admits.mono {A B : Machine → Move → Prop} {moves : List Move} (hadmits : m.Admits A host moves)
    (himp : ∀ m x, A m x → B m x) : m.Admits B host moves := by
  induction moves generalizing m with
  | nil => exact trivial
  | cons x moves ih => exact ⟨himp _ _ hadmits.1, ih hadmits.2⟩

end Machine

end LineEditor
