import Brainfuck.Proofs.Output
import Brainfuck.Proofs.Run

/-!
# Sessions

A session is any sequence of actions on one machine: single steps, runs and cancellations, also
after a failure or at the end of the program. Its trail is the list of the machines that its
steps started from.

* `Machine.performAll`, `Machine.trail`: a session and its trail.
* `Machine.log_performAll`, `Machine.log_trail`: a log that every step extends, and that nothing
  else changes, is after a session the log of the steps in its trail, and at a machine on the
  trail the log of the steps before it.
* `Machine.Invariant`: what steps, flushes and cancellations keep holds wherever a session comes.
* `Machine.Invariant.of_console`: so does what holds of the console, if its calls keep it.
* `Machine.execute_mapConsole`, `Machine.flush_mapConsole`: what calls on the output commute with,
  instructions but `,` commute with, and the end of a run.
* `Machine.performAll_map`, `Machine.trail_map`: a map that each step on the trail commutes with,
  the session commutes with.
-/

namespace Brainfuck

namespace Machine

/-- Takes the actions in order; none if one is a run that `fuel` steps do not finish. -/
def performAll (fuel : Nat) (m : Machine) : List Action → Option (List Answer × Machine)
  | [] => some ([], m)
  | action :: rest =>
    match m.perform fuel action with
    | none => none
    | some (answer, after) =>
      (after.performAll fuel rest).map fun (answers, last) => (answer :: answers, last)

/-- The machines from which the steps of a run start. -/
def stepTrail (fuel : Nat) (m : Machine) : List Machine :=
  match fuel with
  | 0 => []
  | fuel + 1 =>
    match m.step with
    | (.ok .next, after) => m :: after.stepTrail fuel
    | _ => [m]

/-- The machines from which the steps of an action start. -/
def actionTrail (fuel : Nat) (m : Machine) : Action → List Machine
  | .step => [m]
  | .run => m.stepTrail fuel
  | .cancel => []

/-- The machines from which the steps of a session start. -/
def trail (fuel : Nat) (m : Machine) : List Action → List Machine
  | [] => []
  | action :: rest =>
    m.actionTrail fuel action ++
      match m.perform fuel action with
      | none => []
      | some (_, after) => after.trail fuel rest

variable {m last : Machine} {fuel : Nat} {α : Type}

theorem log_steps {log entry : Machine → List α} (hstep : ∀ m, log m.step.2 = log m ++ entry m)
    {result : Except RunError Unit} (h : m.steps fuel = some (result, last)) :
    log last = log m ++ (m.stepTrail fuel).flatMap entry := by
  induction fuel generalizing m with
  | zero => simp [steps] at h
  | succ fuel ih =>
    have hlog := hstep m
    rcases hs : m.step with ⟨_ | (_ | _), after⟩
    · rw [steps_of_error hs] at h
      rw [hs] at hlog
      cases h
      simpa [stepTrail, hs] using hlog
    · rw [steps_of_next hs] at h
      rw [hs] at hlog
      simp [stepTrail, hs, ih h, hlog]
    · rw [steps_of_halted hs] at h
      rw [hs] at hlog
      cases h
      simpa [stepTrail, hs] using hlog

theorem finish_snd (result : Except RunError Unit) (m : Machine) :
    (m.finish result).2 = m.flush.2 := by
  cases result <;> rfl

theorem log_perform {log entry : Machine → List α} (hstep : ∀ m, log m.step.2 = log m ++ entry m)
    (hflush : ∀ m : Machine, log m.flush.2 = log m) (hcancel : ∀ m : Machine, log m.cancel = log m)
    {action : Action} {answer : Answer} (h : m.perform fuel action = some (answer, last)) :
    log last = log m ++ (m.actionTrail fuel action).flatMap entry := by
  cases action with
  | step =>
    simp only [perform, Option.some.injEq, Prod.mk.injEq] at h
    obtain ⟨-, rfl⟩ := h
    simp [actionTrail, hstep]
  | cancel =>
    cases h
    simp [actionTrail, hcancel]
  | run =>
    obtain ⟨⟨result, after⟩, hr, heq⟩ := Option.map_eq_some_iff.1 h
    cases heq
    obtain ⟨result', mid, hs, hf⟩ := run_eq_some_iff.1 hr
    -- the closing flush adds nothing to what the steps have logged
    have hlast : last = mid.flush.2 := by rw [← finish_snd result' mid, hf]
    rw [hlast, hflush]
    exact log_steps hstep hs

/-- **A session logs what its steps log.** -/
theorem log_performAll (log entry : Machine → List α)
    (hstep : ∀ m, log m.step.2 = log m ++ entry m)
    (hflush : ∀ m : Machine, log m.flush.2 = log m) (hcancel : ∀ m : Machine, log m.cancel = log m)
    {actions : List Action} {answers : List Answer}
    (h : m.performAll fuel actions = some (answers, last)) :
    log last = log m ++ (m.trail fuel actions).flatMap entry := by
  induction actions generalizing m answers with
  | nil =>
    cases h
    simp [trail]
  | cons action rest ih =>
    simp only [performAll] at h
    split at h
    · cases h
    · rename_i answer after hp
      obtain ⟨⟨answers', last'⟩, hrest, heq⟩ := Option.map_eq_some_iff.1 h
      cases heq
      rw [ih hrest, log_perform hstep hflush hcancel hp]
      simp [trail, hp]

/-- The log of a machine on the trail of some steps is the log of the steps before it. -/
theorem log_stepTrail {log entry : Machine → List α}
    (hstep : ∀ m, log m.step.2 = log m ++ entry m) {before later : List Machine} {mid : Machine}
    (h : m.stepTrail fuel = before ++ mid :: later) :
    log mid = log m ++ before.flatMap entry := by
  induction fuel generalizing m before with
  | zero => simp [stepTrail] at h
  | succ fuel ih =>
    have hlog := hstep m
    cases before with
    | nil =>
      -- the trail begins with the machine itself
      have hhead : (m.stepTrail (fuel + 1)).head? = some m := by
        simp only [stepTrail]
        split <;> rfl
      rw [h] at hhead
      cases hhead
      simp
    | cons first before =>
      simp only [stepTrail] at h
      split at h
      · rename_i after hs
        simp only [List.cons_append, List.cons.injEq] at h
        obtain ⟨rfl, hrest⟩ := h
        rw [hs] at hlog
        simp [ih hrest, hlog]
      · simp at h

theorem log_actionTrail {log entry : Machine → List α}
    (hstep : ∀ m, log m.step.2 = log m ++ entry m) {action : Action} {before later : List Machine}
    {mid : Machine} (h : m.actionTrail fuel action = before ++ mid :: later) :
    log mid = log m ++ before.flatMap entry := by
  cases action with
  | step =>
    cases before with
    | nil =>
      cases h
      simp
    | cons first before => simp [actionTrail] at h
  | run => exact log_stepTrail hstep h
  | cancel => simp [actionTrail] at h

/-- **The log of a machine on the trail of a session** is the log of the steps before it. -/
theorem log_trail (log entry : Machine → List α)
    (hstep : ∀ m, log m.step.2 = log m ++ entry m)
    (hflush : ∀ m : Machine, log m.flush.2 = log m) (hcancel : ∀ m : Machine, log m.cancel = log m)
    {actions : List Action} {before later : List Machine} {mid : Machine}
    (h : m.trail fuel actions = before ++ mid :: later) :
    log mid = log m ++ before.flatMap entry := by
  induction actions generalizing m before with
  | nil => simp [trail] at h
  | cons action rest ih =>
    -- the machine stands after the first action, or on its trail
    have hafter : ∀ before', (match m.perform fuel action with
        | none => []
        | some (_, after) => after.trail fuel rest) = before' ++ mid :: later →
        log mid = log m ++ (m.actionTrail fuel action ++ before').flatMap entry := by
      intro before' hrest
      split at hrest
      · simp at hrest
      · rename_i answer after hp
        rw [ih hrest, log_perform hstep hflush hcancel hp]
        simp
    rw [trail] at h
    rcases List.append_eq_append_iff.1 h with ⟨before', rfl, hrest⟩ | ⟨there, hthere, hrest⟩
    · exact hafter before' hrest
    · cases there with
      | nil =>
        rw [List.append_nil] at hthere
        subst hthere
        simpa using hafter [] hrest.symm
      | cons mid' later' =>
        cases hrest
        exact log_actionTrail hstep hthere

/-- A property of machines that steps, flushes and cancellations keep. -/
structure Invariant (P : Machine → Prop) : Prop where
  step : ∀ m, P m → P m.step.2
  flush : ∀ m : Machine, P m → P m.flush.2
  cancel : ∀ m : Machine, P m → P m.cancel

namespace Invariant

variable {P : Machine → Prop}

theorem stepTrail (hP : Invariant P) (h : P m) : ∀ mid ∈ m.stepTrail fuel, P mid := by
  induction fuel generalizing m with
  | zero => simp [Machine.stepTrail]
  | succ fuel ih =>
    intro mid hmid
    simp only [Machine.stepTrail] at hmid
    split at hmid
    · rename_i after hs
      have hafter : P after := by
        have := hP.step m h
        rwa [hs] at this
      rcases List.mem_cons.1 hmid with rfl | hmid
      · exact h
      · exact ih hafter mid hmid
    · rw [List.mem_singleton.1 hmid]
      exact h

theorem steps (hP : Invariant P) (h : P m) {result : Except RunError Unit}
    (hs : m.steps fuel = some (result, last)) : P last := by
  induction fuel generalizing m with
  | zero => simp [Machine.steps] at hs
  | succ fuel ih =>
    have hafter := hP.step m h
    rcases heq : m.step with ⟨_ | (_ | _), after⟩ <;> rw [heq] at hafter
    · rw [steps_of_error heq] at hs
      cases hs
      exact hafter
    · rw [steps_of_next heq] at hs
      exact ih hafter hs
    · rw [steps_of_halted heq] at hs
      cases hs
      exact hafter

theorem perform (hP : Invariant P) (h : P m) {action : Action} {answer : Answer}
    (hp : m.perform fuel action = some (answer, last)) : P last := by
  cases action with
  | step =>
    cases hp
    exact hP.step m h
  | cancel =>
    cases hp
    exact hP.cancel m h
  | run =>
    obtain ⟨⟨result, after⟩, hr, heq⟩ := Option.map_eq_some_iff.1 hp
    cases heq
    obtain ⟨result', mid, hs, hf⟩ := run_eq_some_iff.1 hr
    have hlast : last = mid.flush.2 := by rw [← finish_snd result' mid, hf]
    rw [hlast]
    exact hP.flush mid (hP.steps h hs)

/-- An invariant holds before each step of a session, also of one that does not end. -/
theorem trail (hP : Invariant P) (h : P m) {actions : List Action} :
    ∀ mid ∈ m.trail fuel actions, P mid := by
  induction actions generalizing m with
  | nil => simp [Machine.trail]
  | cons action rest ih =>
    intro mid hmid
    rcases List.mem_append.1 hmid with hmid | hmid
    · cases action with
      | step =>
        rw [List.mem_singleton.1 hmid]
        exact h
      | run => exact hP.stepTrail h mid hmid
      | cancel => simp [actionTrail] at hmid
    · split at hmid
      · simp at hmid
      · rename_i answer after hp
        exact ih (hP.perform h hp) mid hmid

/-- **An invariant holds at the end of a session**, and so after each of its actions. -/
theorem performAll (hP : Invariant P) (h : P m) {actions : List Action} {answers : List Answer}
    (hp : m.performAll fuel actions = some (answers, last)) : P last := by
  induction actions generalizing m answers with
  | nil =>
    cases hp
    exact h
  | cons action rest ih =>
    simp only [Machine.performAll] at hp
    split at hp
    · cases hp
    · rename_i answer after hfirst
      obtain ⟨⟨answers', last'⟩, hrest, heq⟩ := Option.map_eq_some_iff.1 hp
      cases heq
      exact ih (hP.perform h hfirst) hrest

/-- An instruction keeps what output keeps, and what a read keeps that a machine makes which has
not been asked to stop. -/
theorem execute_of_console {P : Console → Prop} (houtput : Console.OutputInvariant P)
    (hread : ∀ c, P c → (m.heeds && c.flag.cancelled) = false → P (awaitRead c m.heeds).2)
    (h : P m.console) (op : Opcode) : P (m.execute op).2.console := by
  by_cases ho : op = .output
  · subst ho
    rw [execute, outputCell_eq]
    exact houtput.put m.tape.read h
  by_cases hi : op = .input
  · subst hi
    have hflush := houtput.flush h
    rcases inputCell_cases m with
      ⟨e, c, hf, heq⟩ | ⟨c, hf, -, heq⟩ | ⟨c, answer, d, hf, hq, hr, heq⟩ <;>
      rw [hf] at hflush <;> rw [execute, heq]
    · exact hflush
    · exact hflush
    · have hd := hread c hflush hq
      rwa [hr] at hd
  · rw [console_execute ho hi]
    exact h

/-- **What the calls on a console keep** holds of the console wherever a session comes. -/
theorem of_console {heeds : Bool} {P : Console → Prop} (houtput : Console.OutputInvariant P)
    (hread : ∀ c, P c → (heeds && c.flag.cancelled) = false → P (awaitRead c heeds).2)
    (hcancel : ∀ c : Console, P c → P c.cancel) :
    Invariant fun m => m.heeds = heeds ∧ P m.console where
  step m h := by
    obtain ⟨rfl, hp⟩ := h
    refine ⟨heeds_step m, ?_⟩
    rcases step_cases m with ⟨-, hs⟩ | ⟨-, -, hs⟩ | ⟨b, -, -, hs⟩ <;> rw [hs]
    · exact hp
    · exact hp
    · exact execute_of_console houtput hread hp _
  flush m h := by
    obtain ⟨rfl, hp⟩ := h
    have hflush := houtput.flush hp
    unfold Machine.flush
    rcases hf : m.console.flush with ⟨_ | _, c⟩ <;> rw [hf] at hflush <;> exact ⟨rfl, hflush⟩
  cancel m h := ⟨h.1, hcancel m.console h.2⟩

end Invariant

theorem invariant_capacity (capacity : Nat) : Invariant fun m => m.tape.capacity = capacity where
  step m h := (capacity_step m).trans h
  flush m h := by
    obtain ⟨c, hc⟩ := flush_eq_withConsole m
    rw [hc]
    exact h
  cancel _ h := h

theorem invariant_heeds (heeds : Bool) : Invariant fun m => m.heeds = heeds where
  step m h := (heeds_step m).trans h
  flush m h := by
    obtain ⟨c, hc⟩ := flush_eq_withConsole m
    rw [hc]
    exact h
  cancel _ h := h

/-- The machine with its console changed. -/
def mapConsole (f : Console → Console) (m : Machine) : Machine := m.withConsole (f m.console)

section mapConsole

variable {f : Console → Console}

/-- What calls on the output commute with, every instruction but `,` commutes with. -/
theorem execute_mapConsole (hf : Console.OutputMap f) {op : Opcode} (hi : op ≠ .input)
    (m : Machine) :
    (m.mapConsole f).execute op = ((m.execute op).1, (m.execute op).2.mapConsole f) := by
  by_cases ho : op = .output
  · subst ho
    rw [execute, execute, outputCell_eq, outputCell_eq,
      show (m.mapConsole f).console = f m.console from rfl,
      show (m.mapConsole f).tape = m.tape from rfl, hf.put]
    rfl
  · rw [mapConsole, execute_withConsole ho hi, mapConsole, console_execute ho hi]

/-- So does the flush at the end of a run. -/
theorem flush_mapConsole (hf : Console.OutputMap f) (m : Machine) :
    (m.mapConsole f).flush = (m.flush.1, m.flush.2.mapConsole f) := by
  rw [flush, flush, show (m.mapConsole f).console = f m.console from rfl, hf.flush]
  rcases m.console.flush with ⟨_ | _, c⟩ <;> rfl

end mapConsole

section map

/-- The answer with its error changed. -/
def Answer.mapError (g : RunError → RunError) : Answer → Answer
  | .stepped result => .stepped (result.mapError g)
  | .ran result => .ran (result.mapError g)
  | .cancelled => .cancelled

theorem Answer.mapError_id : Answer.mapError id = id := by
  funext answer
  cases answer <;> simp [Answer.mapError, Brainfuck.mapError_id]

variable {f : Machine → Machine} {g : RunError → RunError} {action : Action}
  {actions : List Action}

theorem after_mem_stepTrail {j : Nat} (hj : j < fuel) (h : m.Proceeds j) :
    m.after j ∈ m.stepTrail fuel := by
  induction fuel generalizing m j with
  | zero => exact absurd hj (Nat.not_lt_zero j)
  | succ fuel ih =>
    cases j with
    | zero =>
      rw [stepTrail]
      split <;> simp [after]
    | succ j =>
      -- the first step completes, so the trail goes on behind it
      have hs : m.step = (.ok .next, m.step.2) := Prod.ext (h 0 (by omega)) rfl
      have hrest : m.step.2.Proceeds j := by
        intro i hi
        rw [← after_succ_left]
        exact h (i + 1) (by omega)
      rw [stepTrail, hs, after_succ_left]
      exact List.mem_cons_of_mem _ (ih (by omega) hrest)

theorem stepTrail_map (hstep : ∀ mid ∈ m.stepTrail fuel,
      (f mid).step = (mid.step.1.mapError g, f mid.step.2)) :
    (f m).stepTrail fuel = (m.stepTrail fuel).map f := by
  induction fuel generalizing m with
  | zero => rfl
  | succ fuel ih =>
    have hfirst := hstep m (after_mem_stepTrail (Nat.succ_pos fuel) (proceeds_zero m))
    rcases hs : m.step with ⟨e | (_ | _), mid⟩ <;> rw [hs] at hfirst
    · simp [stepTrail, hs, hfirst, Except.mapError]
    · have hrest : (f mid).stepTrail fuel = (mid.stepTrail fuel).map f := by
        apply ih
        intro mid' hmid'
        apply hstep
        rw [stepTrail, hs]
        exact List.mem_cons_of_mem _ hmid'
      simp [stepTrail, hs, hfirst, Except.mapError, hrest]
    · simp [stepTrail, hs, hfirst, Except.mapError]

theorem actionTrail_map (hstep : ∀ mid ∈ m.actionTrail fuel action,
      (f mid).step = (mid.step.1.mapError g, f mid.step.2)) :
    (f m).actionTrail fuel action = (m.actionTrail fuel action).map f := by
  cases action with
  | step => rfl
  | run => exact stepTrail_map hstep
  | cancel => rfl

section flush

variable (hflush : ∀ m, (f m).flush = (m.flush.1.mapError g, f m.flush.2))
  (hcancel : ∀ m, (f m).cancel = f m.cancel)

include hflush hcancel

theorem perform_map (hstep : ∀ mid ∈ m.actionTrail fuel action,
      (f mid).step = (mid.step.1.mapError g, f mid.step.2)) :
    (f m).perform fuel action =
      (m.perform fuel action).map fun r => (r.1.mapError g, f r.2) := by
  cases action with
  | step =>
    have hfirst := hstep m (List.mem_singleton_self m)
    simp [perform, hfirst, Answer.mapError]
  | run =>
    have hsteps : (f m).steps fuel = (m.steps fuel).map fun r => (r.1.mapError g, f r.2) :=
      steps_mapError fun j hj h => hstep _ (after_mem_stepTrail hj h)
    have hrun : (f m).run fuel = (m.run fuel).map fun r => (r.1.mapError g, f r.2) :=
      run_mapError hsteps fun result m => finish_map (hflush m) result
    rw [perform, perform, hrun, Option.map_map, Option.map_map]
    rfl
  | cancel => simp [perform, hcancel, Answer.mapError]

/-- **Two sessions stay in step** as long as each step does the same on both. -/
theorem performAll_map (hstep : ∀ mid ∈ m.trail fuel actions,
      (f mid).step = (mid.step.1.mapError g, f mid.step.2)) :
    (f m).performAll fuel actions =
      (m.performAll fuel actions).map fun r => (r.1.map (.mapError g), f r.2) := by
  induction actions generalizing m with
  | nil => rfl
  | cons action rest ih =>
    have hfirst := perform_map hflush hcancel fun mid hmid =>
      hstep mid (List.mem_append_left _ hmid)
    rw [performAll, performAll, hfirst]
    cases hp : m.perform fuel action with
    | none => rfl
    | some r =>
      have hrest : (f r.2).performAll fuel rest =
          (r.2.performAll fuel rest).map fun r => (r.1.map (.mapError g), f r.2) := by
        apply ih
        intro mid hmid
        refine hstep mid (List.mem_append_right _ ?_)
        rwa [hp]
      simp only [Option.map_some, hrest, Option.map_map]
      rfl

/-- So do their trails. -/
theorem trail_map (hstep : ∀ mid ∈ m.trail fuel actions,
      (f mid).step = (mid.step.1.mapError g, f mid.step.2)) :
    (f m).trail fuel actions = (m.trail fuel actions).map f := by
  induction actions generalizing m with
  | nil => rfl
  | cons action rest ih =>
    have hhere : ∀ mid ∈ m.actionTrail fuel action,
        (f mid).step = (mid.step.1.mapError g, f mid.step.2) := fun mid hmid =>
      hstep mid (List.mem_append_left _ hmid)
    have hfirst := perform_map hflush hcancel hhere
    rw [trail, trail, hfirst, actionTrail_map hhere, List.map_append]
    congr 1
    cases hp : m.perform fuel action with
    | none => rfl
    | some r =>
      apply ih
      intro mid hmid
      refine hstep mid (List.mem_append_right _ ?_)
      rwa [hp]

end flush

section same

variable (hflush : ∀ m, (f m).flush = (m.flush.1, f m.flush.2))
  (hcancel : ∀ m, (f m).cancel = f m.cancel)
  (hstep : ∀ mid ∈ m.trail fuel actions, (f mid).step = (mid.step.1, f mid.step.2))

include hflush hcancel hstep

/-- The errors may also be the same. -/
theorem performAll_map_of_eq :
    (f m).performAll fuel actions = (m.performAll fuel actions).map fun r => (r.1, f r.2) := by
  have hsame := performAll_map (f := f) (g := id) (fun m => by rw [mapError_id, hflush]) hcancel
    fun mid hmid => by rw [mapError_id, hstep mid hmid]
  rw [hsame, Answer.mapError_id]
  simp only [List.map_id]

theorem trail_map_of_eq : (f m).trail fuel actions = (m.trail fuel actions).map f :=
  trail_map (g := id) (fun m => by rw [mapError_id, hflush]) hcancel
    fun mid hmid => by rw [mapError_id, hstep mid hmid]

end same

end map

end Machine

end Brainfuck
