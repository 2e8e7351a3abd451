import LineEditor.Proofs.Host.Play

/-!
Nothing that is done depends on what was written to a connection before, or on what the host heard. Two
worlds with the same engines and with connections that differ in their screens and transcripts only go
on with the same engines, and give the same lines to the callbacks.

Main definitions: `World.Alike` and `Machine.Alike`. Main statements: `World.Alike.call`,
`Machine.Alike.run` and `Machine.Alike.play`.
-/
namespace LineEditor

/-- Connections that differ in what was written to them only. -/
def Connection.Alike (c c' : Connection) : Prop := ∃ screen output, c' = { c with screen, output }

/-- Worlds that differ in what was written to their connections and in what the host heard only, but
for the lines that it received. -/
structure World.Alike (w w' : World) : Prop where
  engines_eq : w'.engines = w.engines
  lines_eq : w'.journal.lines = w.journal.lines
  conns : ∀ n : Nat, (w.conns[n]? = none ∧ w'.conns[n]? = none) ∨
    ∃ c c' : Connection, w.conns[n]? = some c ∧ w'.conns[n]? = some c' ∧ c.Alike c'

namespace World.Alike

variable {w w' w'' : World} {e : Engine} {n conn : Nat}

theorem refl (w : World) : w.Alike w := by
  refine ⟨rfl, rfl, fun n => ?_⟩
  cases hc : w.conns[n]? with
  | none => exact .inl ⟨rfl, rfl⟩
  | some c => exact .inr ⟨c, c, rfl, rfl, c.screen, c.output, rfl⟩

theorem symm (h : w.Alike w') : w'.Alike w := by
  refine ⟨h.engines_eq.symm, h.lines_eq.symm, fun n => ?_⟩
  rcases h.conns n with ⟨hc, hc'⟩ | ⟨c, _, hc, hc', screen, output, rfl⟩
  · exact .inl ⟨hc', hc⟩
  · exact .inr ⟨_, c, hc', hc, c.screen, c.output, rfl⟩

theorem trans (h : w.Alike w') (h' : w'.Alike w'') : w.Alike w'' := by
  refine ⟨h'.engines_eq.trans h.engines_eq, h'.lines_eq.trans h.lines_eq, fun n => ?_⟩
  rcases h.conns n with ⟨hc, hc'⟩ | ⟨c, _, hc, hc', screen, output, rfl⟩
  · rcases h'.conns n with ⟨-, hc''⟩ | ⟨c', _, hsome, -⟩
    · exact .inl ⟨hc, hc''⟩
    · rw [hc'] at hsome
      cases hsome
  · rcases h'.conns n with ⟨hnone, -⟩ | ⟨c', _, hsome, hc'', screen', output', rfl⟩
    · rw [hc'] at hnone
      cases hnone
    · cases hc'.symm.trans hsome
      exact .inr ⟨c, _, hc, hc'', screen', output', rfl⟩

/-! ### What engines do -/

theorem engine? (h : w.Alike w') (n : Nat) : w'.engine? n = w.engine? n := by
  rw [World.engine?, World.engine?, h.engines_eq]

theorem size_eq (h : w.Alike w') (n : Nat) : w'.size n = w.size n := by
  rcases h.conns n with ⟨hc, hc'⟩ | ⟨c, _, hc, hc', screen, output, rfl⟩
  · simp [World.size, hc, hc']
  · simp [World.size, hc, hc']

theorem setEngine (h : w.Alike w') (n : Nat) (e : Engine) :
    (w.setEngine n e).Alike (w'.setEngine n e) :=
  ⟨congrArg (List.set · n (some e)) h.engines_eq, h.lines_eq, h.conns⟩

/-- Changes of a connection on both sides. -/
theorem modifyConn (h : w.Alike w') {f f' : Connection → Connection}
    (hf : ∀ c c', w.conns[n]? = some c → w'.conns[n]? = some c' → c.Alike c' → (f c).Alike (f' c')) :
    (w.modifyConn n f).Alike (w'.modifyConn n f') := by
  refine ⟨h.engines_eq, h.lines_eq, fun i => ?_⟩
  simp only [World.modifyConn, List.getElem?_modify]
  rcases h.conns i with ⟨hc, hc'⟩ | ⟨c, c', hc, hc', halike⟩
  · exact .inl (by simp [hc, hc'])
  · by_cases hi : n = i
    · subst hi
      exact .inr ⟨f c, f' c', by simp [hc], by simp [hc'], hf c c' hc hc' halike⟩
    · exact .inr ⟨c, c', by simp [hc, hi], by simp [hc', hi], halike⟩

/-- Other changes of what the host heard. -/
theorem journal (h : w.Alike w') {j j' : Journal} (hj : j'.lines = j.lines) :
    World.Alike { w with journal := j } { w' with journal := j' } := ⟨h.engines_eq, hj, h.conns⟩

theorem note (h : w.Alike w') (x : Note) : (w.note x).Alike (w'.note x) := h.journal h.lines_eq

theorem record (h : w.Alike w') (x : Log.Entry) : (w.record x).Alike (w'.record x) := by
  refine h.journal ?_
  rw [Journal.lines_record, Journal.lines_record, h.lines_eq]

/-- Effects are only written, noted and logged. -/
theorem of_perform (w : World) (conn : Nat) (bell : BellStyle) (x : Effect) :
    w.Alike (w.perform conn bell x) := by
  have hwrite : ∀ t, w.Alike (w.modifyConn conn (·.write t)) := by
    intro t
    have hsame : w.modifyConn conn id = w := by simp [World.modifyConn]
    have halike : (w.modifyConn conn id).Alike (w.modifyConn conn (·.write t)) := by
      refine (refl w).modifyConn ?_
      rintro c c' - - ⟨screen, output, rfl⟩
      exact ⟨_, _, rfl⟩
    rwa [hsame] at halike
  cases x with
  | write t => exact hwrite t
  | draw t => exact hwrite t
  | ring =>
    unfold World.perform
    dsimp only
    split
    · exact hwrite _
    · exact refl w
  | log x => exact ⟨rfl, w.journal.lines_record x, (refl w).conns⟩
  | note x => exact ⟨rfl, rfl, (refl w).conns⟩

/-- What an engine leaves is put back, and its effects do not matter. -/
theorem of_put (w : World) (n conn : Nat) (e : Engine) :
    (w.setEngine n { e with effects := [] }).Alike (w.put n conn e) := by
  have hfold : ∀ (xs : List Effect) (w : World),
      w.Alike (xs.foldl (World.perform conn e.config.bell) w) := by
    intro xs
    induction xs with
    | nil => exact refl
    | cons x xs ih => exact fun w => (of_perform w conn _ x).trans (ih _)
  exact hfold _ _

theorem put (h : w.Alike w') (n conn : Nat) (e : Engine) : (w.put n conn e).Alike (w'.put n conn e) :=
  ((of_put w n conn e).symm.trans (h.setEngine n _)).trans (of_put w' n conn e)

/-! ### What arrives -/

theorem execute (h : w.Alike w') (n : Nat) (t : Task) :
    (w.modifyConn n (·.execute t)).Alike (w'.modifyConn n (·.execute t)) := by
  refine h.modifyConn ?_
  rintro c _ - - ⟨screen, output, rfl⟩
  exact ⟨screen, output, rfl⟩

theorem scheduleDelivery (h : w.Alike w') (n : Nat) :
    (w.scheduleDelivery n).Alike (w'.scheduleDelivery n) := by
  unfold World.scheduleDelivery
  rw [h.engine?]
  cases w.engine? n with
  | none => exact h
  | some e =>
    dsimp only
    split
    · exact h
    · split
      · exact h
      · exact (h.setEngine n _).execute _ _

theorem receiveInput (h : w.Alike w') (n : Nat) (t : Text) :
    (w.receiveInput n t).Alike (w'.receiveInput n t) := by
  unfold World.receiveInput
  rw [h.engine?]
  cases w.engine? n with
  | none => exact h
  | some e =>
    dsimp only
    split
    · exact h.record _
    · exact (h.setEngine n _).scheduleDelivery n

theorem deliver (h : w.Alike w') (x : Owner × Delivery) : (w.deliver x).Alike (w'.deliver x) := by
  rcases x with ⟨n | n, t | ⟨s, c⟩⟩
  · exact h.receiveInput n t
  · exact h
  · exact h.note _
  · exact h.note _

theorem deliverAll (h : w.Alike w') (conn : Nat) {c c' : Connection} (hc : c.Alike c')
    (ds : List (Owner × Delivery)) :
    (w.deliverAll conn (c, ds)).Alike (w'.deliverAll conn (c', ds)) := by
  have hfold : ∀ (ds : List (Owner × Delivery)) {w w' : World}, w.Alike w' →
      (ds.foldl World.deliver w).Alike (ds.foldl World.deliver w') := by
    intro ds
    induction ds with
    | nil => exact id
    | cons x ds ih => exact fun h => ih (h.deliver x)
  exact hfold ds (h.modifyConn fun _ _ _ _ _ => hc)

theorem feed (h : w.Alike w') (conn : Nat) (bytes : List UInt8) :
    (w.feed conn bytes).Alike (w'.feed conn bytes) := by
  unfold World.feed
  rcases h.conns conn with ⟨hc, hc'⟩ | ⟨c, _, hc, hc', screen, output, rfl⟩
  · rw [hc, hc']
    exact h
  · rw [hc, hc']
    exact h.deliverAll conn ⟨screen, output, rfl⟩ _

theorem endOfStream (h : w.Alike w') (conn : Nat) :
    (w.endOfStream conn).Alike (w'.endOfStream conn) := by
  unfold World.endOfStream
  rcases h.conns conn with ⟨hc, hc'⟩ | ⟨c, _, hc, hc', screen, output, rfl⟩
  · rw [hc, hc']
    exact h
  · rw [hc, hc']
    exact h.deliverAll conn ⟨screen, output, rfl⟩ _

theorem resize (h : w.Alike w') (conn : Nat) (s : Size) :
    (w.resize conn s).Alike (w'.resize conn s) := by
  have hsized : (w.modifyConn conn (·.setSize s)).Alike (w'.modifyConn conn (·.setSize s)) := by
    refine h.modifyConn ?_
    rintro c _ - - ⟨screen, output, rfl⟩
    exact ⟨_, _, rfl⟩
  unfold World.resize
  generalize w.modifyConn conn (·.setSize s) = w₁ at hsized ⊢
  generalize w'.modifyConn conn (·.setSize s) = w₁' at hsized ⊢
  have howner : (w₁'.conns[conn]?.bind fun c => c.handlers.size) =
      w₁.conns[conn]?.bind fun c => c.handlers.size := by
    rcases hsized.conns conn with ⟨hc, hc'⟩ | ⟨c, _, hc, hc', screen, output, rfl⟩
    · rw [hc, hc']
    · rw [hc, hc']
      rfl
  dsimp only
  rw [howner]
  split
  · exact hsized
  · exact hsized.execute conn _
  · exact hsized.note _

theorem receiveSize (h : w.Alike w') (n : Nat) (s : Size) :
    (w.receiveSize n s).Alike (w'.receiveSize n s) := by
  unfold World.receiveSize
  rw [h.engine?]
  cases w.engine? n with
  | none => exact h
  | some e =>
    dsimp only
    split
    · exact h.record _
    · split
      · exact h
      · exact h.put n _ _

theorem queueInput (h : w.Alike w') (n : Nat) (e : Engine) (t : Text) :
    (w.queueInput n e t).Alike (w'.queueInput n e t) := by
  unfold World.queueInput
  dsimp only
  split
  · exact (h.setEngine n _).scheduleDelivery n
  · exact h.setEngine n _

/-! ### Sessions that begin and end -/

theorem restore (h : w.Alike w') (conn : Nat) (previous : Handlers) :
    (w.restore conn previous).Alike (w'.restore conn previous) := by
  refine h.modifyConn ?_
  rintro c _ - - ⟨screen, output, rfl⟩
  exact ⟨screen, output, rfl⟩

theorem close (h : w.Alike w') (f : Option Finished) : (w.close f).Alike (w'.close f) := by
  cases f with
  | none => exact h
  | some f => exact h.restore f.conn f.previous

theorem drop (h : w.Alike w') (n : Nat) : (w.drop n).Alike (w'.drop n) := by
  unfold World.drop
  rw [h.engine?]
  cases w.engine? n with
  | none => exact h
  | some e =>
    have hdropped : World.Alike { w with engines := w.engines.set n none }
        { w' with engines := w'.engines.set n none } :=
      ⟨congrArg (List.set · n none) h.engines_eq, h.lines_eq, h.conns⟩
    dsimp only
    split
    · exact hdropped
    · exact hdropped.restore _ _

/-- The same line begins, or it is refused. -/
theorem readline (h : w.Alike w') (r : Request) (callback : Nat) :
    (∃ err, w.readline r callback = .error err ∧ w'.readline r callback = .error err) ∨
      ∃ w₁ w₁', w.readline r callback = .ok w₁ ∧ w'.readline r callback = .ok w₁' ∧ w₁.Alike w₁' := by
  unfold World.readline
  rw [h.engine?]
  rcases h.conns r.conn with ⟨hc, hc'⟩ | ⟨c, _, hc, hc', screen, output, rfl⟩
  · rw [hc, hc']
    cases w.engine? r.engine <;> exact .inr ⟨w, w', rfl, rfl, h⟩
  · rw [hc, hc']
    cases w.engine? r.engine with
    | none => exact .inr ⟨w, w', rfl, rfl, h⟩
    | some e =>
      dsimp only
      by_cases hbusy : e.busy = true
      · exact .inl ⟨_, if_pos hbusy, if_pos hbusy⟩
      · rw [if_neg hbusy, if_neg hbusy]
        by_cases hreads : e.session.isSome = true
        · exact .inl ⟨_, if_pos hreads, if_pos hreads⟩
        · rw [if_neg hreads, if_neg hreads]
          have hinstalled : (w.modifyConn r.conn fun _ =>
                { c with handlers := sessionHandlers r.engine }).Alike
              (w'.modifyConn r.conn fun _ =>
                { c with handlers := sessionHandlers r.engine, screen, output }) :=
            h.modifyConn fun _ _ _ _ _ => ⟨screen, output, rfl⟩
          have hput := hinstalled.put r.engine r.conn (e.start r callback c.size.cols c.handlers)
          refine .inr ⟨_, _, rfl, rfl, ?_⟩
          split
          · exact hput.scheduleDelivery r.engine
          · exact hput

end World.Alike

/-! ### Calls -/

/-- Calls that lead to the same in worlds that are alike. -/
structure Called.Alike (r r' : Called) : Prop where
  world : r.world.Alike r'.world
  jobs_eq : r'.jobs = r.jobs
  reply_eq : r'.reply = r.reply

namespace World.Alike

variable {w w' : World}

theorem callEngine (h : w.Alike w') (n : Nat) {f f' : Engine → Called}
    (hf : ∀ e, (f e).Alike (f' e)) : (w.callEngine n f).Alike (w'.callEngine n f') := by
  unfold World.callEngine
  rw [h.engine?]
  cases w.engine? n with
  | none => exact ⟨h, rfl, rfl⟩
  | some e =>
    dsimp only
    split
    · exact ⟨h, rfl, rfl⟩
    · exact hf e

/-- Every call of the host. -/
theorem call (h : w.Alike w') (c : Call) : (w.call c).Alike (w'.call c) := by
  cases c with
  | readline r callback =>
    refine h.callEngine r.engine fun _ => ?_
    rcases h.readline r callback with ⟨err, herror, herror'⟩ | ⟨w₁, w₁', hok, hok', halike⟩
    · rw [herror, herror']
      exact ⟨h, rfl, rfl⟩
    · rw [hok, hok']
      exact ⟨halike, rfl, rfl⟩
  | queue n t => exact h.callEngine n fun e => ⟨h.queueInput n e t, rfl, rfl⟩
  | resume n =>
    refine h.callEngine n fun e => ?_
    unfold World.callResume
    rw [h.size_eq]
    split
    · exact ⟨h, rfl, rfl⟩
    · exact ⟨(h.put n _ _).close _, rfl, rfl⟩
  | session n calls =>
    refine h.callEngine n fun e => ?_
    unfold World.callSession
    rw [h.size_eq]
    split
    · exact ⟨h, rfl, rfl⟩
    · exact ⟨(h.put n _ _).close _, rfl, rfl⟩
  | history n calls => exact h.callEngine n fun e => ⟨h.setEngine n _, rfl, rfl⟩
  | bind n event k => exact h.callEngine n fun e => ⟨h.setEngine n _, rfl, rfl⟩
  | style n => exact h.callEngine n fun e => ⟨h, rfl, rfl⟩
  | drop n => exact ⟨h.drop n, rfl, rfl⟩
  | feed conn bytes => exact ⟨h.feed conn bytes, rfl, rfl⟩
  | runTasks conn => exact ⟨h, rfl, rfl⟩
  | runDelayed conn =>
    refine ⟨h.modifyConn ?_, rfl, rfl⟩
    rintro c _ - - ⟨screen, output, rfl⟩
    exact ⟨screen, output, rfl⟩
  | endOfStream conn => exact ⟨h.endOfStream conn, rfl, rfl⟩
  | resize conn s => exact ⟨h.resize conn s, rfl, rfl⟩
  | setHandlers conn f =>
    refine ⟨h.modifyConn ?_, rfl, rfl⟩
    rintro c _ - - ⟨screen, output, rfl⟩
    exact ⟨screen, output, rfl⟩

end World.Alike

/-! ### Machines -/

/-- Machines with the same to do in worlds that are alike. -/
structure Machine.Alike (m m' : Machine) : Prop where
  world : m.world.Alike m'.world
  jobs_eq : m'.jobs = m.jobs

namespace Machine.Alike

variable {host : Host} {m m' : Machine}

theorem goOn (h : m.Alike m') {w w' : World} (hw : w.Alike w') (jobs : List Job) :
    (m.goOn w jobs).Alike (m'.goOn w' jobs) := ⟨hw, congrArg (jobs ++ ·) h.jobs_eq⟩

theorem callLater (h : m.Alike m') (c : Call) (n : Reply → Note) :
    (m.callLater c n).Alike (m'.callLater c n) := by
  have hcall := h.world.call c
  unfold Machine.callLater
  dsimp only
  rw [hcall.jobs_eq, hcall.reply_eq]
  exact h.goOn hcall.world _

theorem callBack (h : m.Alike m') (c : Call) : (m.callBack c).Alike (m'.callBack c) := by
  have hcall := h.world.call c
  unfold Machine.callBack
  dsimp only
  rw [hcall.jobs_eq, hcall.reply_eq]
  split
  · exact h.goOn (hcall.world.note _) _
  · exact h.goOn hcall.world _

theorem runTask (h : m.Alike m') (t : Task) : (m.runTask t).Alike (m'.runTask t) := by
  cases t with
  | deliver n =>
    unfold Machine.runTask
    dsimp only
    rw [h.world.engine?]
    split
    · exact h
    · split
      · exact h
      · exact h.goOn (h.world.setEngine n _) _
  | resize n s => exact h.goOn (h.world.receiveSize n s) _
  | background n calls resume => exact h.goOn h.world _

theorem runTasks (h : m.Alike m') (conn : Nat) : (m.runTasks conn).Alike (m'.runTasks conn) := by
  unfold Machine.runTasks
  rcases h.world.conns conn with ⟨hc, hc'⟩ | ⟨c, _, hc, hc', screen, output, rfl⟩
  · rw [hc, hc']
    exact h
  · rw [hc, hc', Option.bind_some, Option.bind_some]
    unfold Connection.popTask
    cases c.tasks with
    | nil => exact h
    | cons t tasks =>
      have hpopped : (m.world.modifyConn conn fun _ => { c with tasks }).Alike
          (m'.world.modifyConn conn fun _ => { c with tasks, screen, output }) :=
        h.world.modifyConn fun _ _ _ _ _ => ⟨screen, output, rfl⟩
      exact (h.goOn hpopped [.tasks conn]).runTask t

theorem deliver (h : m.Alike m') (n : Nat) : (m.deliver n).Alike (m'.deliver n) := by
  unfold Machine.deliver
  rw [h.world.engine?]
  cases m.world.engine? n with
  | none => exact h
  | some e =>
    dsimp only
    split
    · exact h
    · split
      · exact h
      · exact h.goOn ((h.world.put n _ _).close _) _
      · exact h.goOn ((h.world.put n _ _).note _) _

theorem endScript (h : m.Alike m') (n : Nat) (c : Completion) (s : ScriptedHandler) :
    (m.endScript n c s).Alike (m'.endScript n c s) := by
  unfold Machine.endScript
  rw [h.world.engine?]
  cases m.world.engine? n with
  | none => exact h
  | some e =>
    dsimp only
    split
    · exact h
    · exact h.goOn ((h.world.put n _ _).close _) _

theorem scriptStep (h : m.Alike m') (n : Nat) (c : Completion) (s : ScriptedHandler)
    (x : ScriptStep) (rest : List ScriptStep) :
    (m.scriptStep n c s x rest).Alike (m'.scriptStep n c s x rest) := by
  unfold Machine.scriptStep
  rw [h.world.engine?]
  cases m.world.engine? n with
  | none => exact h
  | some e =>
    have hdesk : ∀ d : Desk, (m.goOn
          (m.world.put n e.conn (e.put (d.scriptStep (m.world.size e.conn) x)))
          [.script n c s rest]).Alike (m'.goOn
          (m'.world.put n e.conn (e.put (d.scriptStep (m'.world.size e.conn) x)))
          [.script n c s rest]) := by
      intro d
      rw [h.world.size_eq]
      exact h.goOn (h.world.put n _ _) _
    cases x
    case setAsk ask => exact h.goOn h.world _
    case feed t => exact h.goOn (h.world.feed _ _) _
    case runTasks => exact h.goOn h.world _
    case resize size => exact h.goOn (h.world.resize _ _) _
    case schedule calls resume =>
      refine h.goOn (h.world.modifyConn ?_) _
      rintro k _ - - ⟨screen, output, rfl⟩
      cases s.delayed <;> exact ⟨screen, output, rfl⟩
    all_goals
      dsimp only
      cases e.desk? with
      | none => exact h
      | some d => exact hdesk d

/-- Every job. -/
theorem run (h : m.Alike m') (j : Job) : (m.run host j).Alike (m'.run host j) := by
  cases j with
  | tasks conn => exact h.runTasks conn
  | deliver n => exact h.deliver n
  | schedule n => exact h.goOn (h.world.scheduleDelivery n) _
  | callback n line =>
    exact h.goOn (h.world.journal (congrArg (Array.push · line) h.world.lines_eq)) _
  | call c => exact h.callBack c
  | script n c s rest =>
    cases rest with
    | nil => exact h.endScript n c s
    | cons x rest => exact h.scriptStep n c s x rest
  | background n calls => exact h.callLater _ _
  | resume n => exact h.callLater _ _
  | note x => exact h.goOn (h.world.note x) _

/-- Every move. -/
theorem move (h : m.Alike m') (x : Move) : (m.move host x).Alike (m'.move host x) := by
  cases x with
  | call c =>
    have hcall := h.world.call c
    refine ⟨hcall.world, ?_⟩
    change (m'.world.call c).jobs ++ m'.jobs = (m.world.call c).jobs ++ m.jobs
    rw [hcall.jobs_eq, h.jobs_eq]
  | step =>
    obtain ⟨w, jobs⟩ := m
    obtain ⟨w', jobs'⟩ := m'
    obtain ⟨hw, hjobs⟩ := h
    dsimp only at hw hjobs
    subst hjobs
    cases jobs' with
    | nil => exact ⟨hw, rfl⟩
    | cons j jobs =>
      have hsame : Machine.Alike ⟨w, jobs⟩ ⟨w', jobs⟩ := ⟨hw, rfl⟩
      exact hsame.run j

/-- Machines that are alike stay alike. -/
theorem play (h : m.Alike m') (moves : List Move) : (m.play host moves).Alike (m'.play host moves) := by
  induction moves generalizing m m' with
  | nil => exact h
  | cons x moves ih => exact ih (h.move x)

end Machine.Alike

end LineEditor
