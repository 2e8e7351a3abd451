/-!
Machines that write while they read. A step takes a state and a symbol and gives the next state
together with what it writes; `collect` runs it over a list and joins what was written.

Main statements: `collect_cons` unfolds a run by its first symbol, and `collect_append` says that a
run over two lists is a run over the second from where the first one ended.
-/
namespace LineEditor

variable {σ α β : Type}

/-- A run over `xs` from `s`: the state after it, and everything written. -/
@[specialize]
def collect (step : σ → α → σ × List β) (s : σ) (xs : List α) : σ × List β :=
  let (s, out) := xs.foldl (fun (s, out) x =>
    let (s, new) := step s x
    (s, out ++ new)) (s, (#[] : Array β))
  (s, out.toList)

/-- A run of a machine that writes one thing for each symbol. -/
@[specialize]
def collectEach (step : σ → α → σ × β) (s : σ) (xs : List α) : σ × List β :=
  collect (fun s x =>
    let (s, new) := step s x
    (s, [new])) s xs

/-- What was written before has no influence on a run. -/
theorem collect_foldl (step : σ → α → σ × List β) (xs : List α) (s : σ) (out : Array β) :
    xs.foldl (fun (s, out) x =>
      let (s, new) := step s x
      (s, out ++ new)) (s, out) =
      ((collect step s xs).1, out ++ (collect step s xs).2) := by
  induction xs generalizing s out with
  | nil => simp [collect]
  | cons x xs ih =>
    simp only [collect, List.foldl_cons]
    rw [ih, ih]
    exact Prod.ext rfl (Array.ext' (by simp))

@[simp] theorem collect_nil (step : σ → α → σ × List β) (s : σ) : collect step s [] = (s, []) :=
  rfl

theorem collect_cons (step : σ → α → σ × List β) (s : σ) (x : α) (xs : List α) :
    collect step s (x :: xs) =
      ((collect step (step s x).1 xs).1, (step s x).2 ++ (collect step (step s x).1 xs).2) := by
  rw [collect, List.foldl_cons, collect_foldl]
  simp

theorem collect_append (step : σ → α → σ × List β) (s : σ) (xs ys : List α) :
    collect step s (xs ++ ys) =
      ((collect step (collect step s xs).1 ys).1,
        (collect step s xs).2 ++ (collect step (collect step s xs).1 ys).2) := by
  induction xs generalizing s with
  | nil => simp
  | cons x xs ih => simp [collect_cons, ih]

theorem collectEach_cons (step : σ → α → σ × β) (s : σ) (x : α) (xs : List α) :
    collectEach step s (x :: xs) =
      ((collectEach step (step s x).1 xs).1, (step s x).2 :: (collectEach step (step s x).1 xs).2) :=
  collect_cons ..

end LineEditor
