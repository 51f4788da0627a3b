import Brainfuck.Proofs.Cancellation
import Brainfuck.Proofs.Failure
import Brainfuck.Proofs.Invocation
import Brainfuck.Proofs.Layers
import Brainfuck.Proofs.Loops
import Brainfuck.Proofs.Unhindered

/-!
# The exit code

What an invocation leaves behind is read off the run of its machine: the exit code from the
result, standard output from the sink.

* `Machine.watchedSteps_eq`: steps that are watched are the same steps.
* `Preparation.run_eq`: exit code and standard output, from the run of the machine.
* `Machine.run_ne_interrupted`: without signals no run is interrupted.
* `Invocation.exit_code_tells_of_the_run`: the exit code is zero where there is nothing to run, or
  where the run ends well and all that it printed has reached standard output.
-/

namespace Brainfuck

/-- The exit code that a result comes to. -/
def exitCodeOf : Except RunError Unit → Nat
  | .ok _ => 0
  | .error e => if e.isFatal then 1 else 0

/-- Without interruptions, only a good end is no failure. -/
theorem exitCodeOf_eq {result : Except RunError Unit} (hne : result ≠ .error .interrupted) :
    exitCodeOf result = if result = .ok () then 0 else 1 := by
  cases result with
  | ok _ => rfl
  | error e => cases e <;> first | rfl | exact absurd rfl hne

/-! ### Signals -/

namespace Console

/-- No call raises the cancel flag, and nobody has. -/
structure Unsignalled (c : Console) : Prop where
  source : .cancel ∉ c.source.items
  sink : c.sink.NeverCancels
  flag : c.flag.cancelled = false

variable {c : Console}

theorem outputInvariant_unsignalled : OutputInvariant Unsignalled where
  buffer _ _ h := ⟨h.source, h.sink, h.flag⟩
  offer c bytes h := by
    obtain ⟨hsink, hflag⟩ := (onlyOutput_offer c bytes).quiet h.sink
    exact ⟨by rw [(onlyOutput_offer c bytes).source]; exact h.source, hsink, hflag ▸ h.flag⟩
  flushSink c h := by
    obtain ⟨hsink, hflag⟩ := (onlyOutput_flushSink c).quiet h.sink
    exact ⟨by rw [(onlyOutput_flushSink c).source]; exact h.source, hsink, hflag ▸ h.flag⟩

theorem readItems_unsignalled (broken : Option IoError) {items : List InputItem}
    (h : .cancel ∉ items) :
    (Source.readItems broken items).2.1 = false ∧
      .cancel ∉ (Source.readItems broken items).2.2 := by
  cases items with
  | nil => simp [Source.readItems]
  | cons item rest =>
    have hrest : .cancel ∉ rest := fun hm => h (List.mem_cons_of_mem _ hm)
    cases item with
    | cancel => exact absurd List.mem_cons_self h
    | byte b => exact ⟨rfl, hrest⟩
    | endOfInput => exact ⟨rfl, hrest⟩
    | fail e => exact ⟨rfl, hrest⟩

theorem Unsignalled.read (h : c.Unsignalled) : c.read.2.Unsignalled := by
  obtain ⟨hcancels, hitems⟩ := readItems_unsignalled c.source.broken h.source
  simp only [Console.read, Source.read, hcancels, cancelIf]
  exact ⟨hitems, h.sink, h.flag⟩

theorem Unsignalled.await (h : c.Unsignalled) (waits : Bool) : (c.await waits).Unsignalled :=
  ⟨h.source, h.sink, h.flag⟩

theorem Unsignalled.awaitRead (h : c.Unsignalled) (heeds : Bool) :
    (Machine.awaitRead c heeds).2.Unsignalled := by
  cases heeds with
  | true => exact (h.await true).read.await false
  | false => exact h.read

end Console

namespace Machine

variable {m last after : Machine} {fuel : Nat} {result : Except RunError Unit}

theorem unsignalled_step (h : m.console.Unsignalled) : m.step.2.console.Unsignalled := by
  rcases step_cases m with ⟨-, hs⟩ | ⟨-, -, hs⟩ | ⟨b, -, -, hs⟩ <;> rw [hs]
  · exact h
  · exact h
  · exact Invariant.execute_of_console Console.outputInvariant_unsignalled
      (fun c hc _ => hc.awaitRead m.heeds) h _

theorem unsignalled_after (h : m.console.Unsignalled) (n : Nat) :
    (m.after n).console.Unsignalled := by
  induction n with
  | zero => exact h
  | succ n ih => exact unsignalled_step ih

/-- **Without signals no run is interrupted.** -/
theorem run_ne_interrupted (h : m.console.Unsignalled) (hrun : m.run fuel = some (result, after)) :
    result ≠ .error .interrupted := by
  obtain ⟨result', last, hs, hf⟩ := run_eq_some_iff.1 hrun
  have hresult : (last.finish result').1 = .error .interrupted ↔ result' = .error .interrupted :=
    finish_eq_interrupted_iff
  rw [hf] at hresult
  rw [Ne, hresult]
  rintro rfl
  obtain ⟨k, -, -, hlast⟩ := exists_last_step hs
  have hdown : (m.after k).isCancelled = false := by
    rw [isCancelled, (unsignalled_after h k).flag, Bool.and_false]
  exact step_ne_interrupted hdown (congrArg Prod.fst (step_of_last_error hlast))

/-- **A run that fails in some place** does so at the end of the text at most. -/
theorem ip_of_run_error {e : RunError} {ip : Nat} (hip : m.ip ≤ m.program.bytes.size)
    (hrun : m.run fuel = some (.error e, after)) (h : e.ip? = some ip) :
    ip ≤ m.program.bytes.size := by
  obtain ⟨k, -, -, hends⟩ := ends_of_run hrun
  have hk := ip_after_le hip k
  rcases hends.raises with hs | ⟨-, hf, -⟩
  · have hwhere := ip_of_step_error hs h
    omega
  · obtain ⟨cause, -, rfl⟩ := flush_eq_error_iff.1 hf
    cases h
    exact hk

/-- Steps that are watched are the same steps. -/
theorem watchedSteps_eq (fuel : Nat) (m : Machine) (events : List Event) :
    (m.watchedSteps fuel events).map (fun r => (r.1, r.2.1)) = m.steps fuel := by
  induction fuel generalizing m events with
  | zero => rfl
  | succ fuel ih =>
    unfold watchedSteps steps
    dsimp only
    rcases m.step with ⟨e | (_ | _), next⟩
    · rfl
    · exact ih next _
    · rfl

end Machine

namespace Preparation

/-- **What an invocation leaves behind, from the run of its machine**: the exit code is that of
the result, and standard output holds what the sink has accepted when the buffer is given up. -/
theorem run_eq (p : Preparation) (fuel : Nat) :
    (p.run fuel).map (fun o => (o.exitCode, o.output)) =
      (p.machine.run fuel).map fun r =>
        (exitCodeOf r.1, r.2.console.drain.2.sink.accepted) := by
  have hconclude (result : Except RunError Unit) (last : Machine) (events : List Event) :
      ((p.conclude result last events).exitCode, (p.conclude result last events).output) =
        (exitCodeOf (last.finish result).1,
          (last.finish result).2.console.drain.2.sink.accepted) := by
    unfold conclude
    rcases last.finish result with ⟨_ | _, after⟩ <;> rfl
  have hwatched := p.machine.watchedSteps_eq fuel []
  unfold run Machine.run
  rw [← hwatched]
  simp only [Option.map_map, Function.comp_def, hconclude]

end Preparation

/-- A report is there where the window around its place ends at an index. -/
theorem isSome_report? {reporter : Option String} {code : Program} {e : RunError}
    (h : ∀ ip, e.ip? = some ip → Excerpt.stop ip < indexBound) :
    (report? reporter code e).isSome = true := by
  unfold report?
  dsimp only
  cases hip : e.ip? with
  | none => rfl
  | some ip => simp [locatedReport?, Excerpt.around?, h ip hip]

namespace Invocation

variable {i : Invocation} {options : Options}

/-- Where there is nothing to run, the invocation is over, and none of that is a failure. -/
theorem run_of_nothing (hread : i.conventions.readArguments i.arguments = .ok options)
    (h : options.help = true ∨ options.file = none ∨
      ∃ path e, options.file = some path ∧ i.files path = .error e) (fuel : Nat) :
    ∃ outcome, i.run fuel = some outcome ∧ outcome.exitCode = 0 ∧ outcome.output = #[] := by
  unfold run
  rw [prepare_eq hread]
  rcases h with hhelp | hfile | ⟨path, e, hfile, he⟩
  · rw [hhelp]
    exact ⟨_, rfl, rfl, rfl⟩
  · rw [hfile]
    cases options.help <;> exact ⟨_, rfl, rfl, rfl⟩
  · have hload : Program.load i.files path = .error ⟨path, e⟩ := by rw [Program.load, he]
    rw [hfile]
    cases options.help with
    | true => exact ⟨_, rfl, rfl, rfl⟩
    | false =>
      dsimp only
      rw [hload]
      exact ⟨_, rfl, rfl, rfl⟩

/-- Where there is a program, the invocation is its run. -/
theorem run_of_program (hread : i.conventions.readArguments i.arguments = .ok options)
    {path : Path} {bytes : Array UInt8} (hhelp : options.help = false)
    (hfile : options.file = some path) (hbytes : i.files path = .ok bytes) (fuel : Nat) :
    i.run fuel = (i.preparation options path ⟨bytes⟩).run fuel := by
  have hload : Program.load i.files path = .ok ⟨bytes⟩ := by rw [Program.load, hbytes]
  unfold run
  rw [prepare_eq hread, hhelp, hfile]
  dsimp only
  rw [hload]

/-- The exit code and standard output of an invocation that has a program, from the run of its
machine. -/
theorem outcome_of_program (hread : i.conventions.readArguments i.arguments = .ok options)
    {path : Path} {bytes : Array UInt8} (hhelp : options.help = false)
    (hfile : options.file = some path) (hbytes : i.files path = .ok bytes) (fuel : Nat) :
    (i.run fuel).map (fun o => (o.exitCode, o.output)) =
      ((i.machine options ⟨bytes⟩).run fuel).map fun r =>
        (exitCodeOf r.1, r.2.console.drain.2.sink.accepted) := by
  rw [run_of_program hread hhelp hfile hbytes]
  exact (i.preparation options path ⟨bytes⟩).run_eq fuel

/-- **The exit code tells the truth about the run.** Let the arguments be accepted, standard output
be fresh, and no signal come. Where help is asked for, no file is given or the file cannot be read,
the exit code is zero and standard output stays empty. Otherwise the invocation ends where the run
of the file's bytes does, on a tape of just as many cells as the settings say, behind a buffer of
8192 bytes. The exit code is zero if that run ends well, and one if not, and then there is a report,
unless the text is so long that the window of the report passes the last index.

What standard output holds at the end is all that the run has printed, if it works or if the exit
code is zero. If it refuses every write, it holds nothing, and the exit code is one just where the
run carried out a `.`, or failed at an edge of the tape or at a bracket. -/
theorem exit_code_tells_of_the_run
    (hread : i.conventions.readArguments i.arguments = .ok options) (hfresh : i.sink.accepted = #[])
    (hsource : .cancel ∉ i.source.items) (hsink : i.sink.NeverCancels) :
    let settings := Settings.resolve options.tapeSize options.quiet i.environment i.files
      (i.conventions.settingsDirectory? i.environment)
    ((options.help = true ∨ options.file = none ∨
        ∃ path e, options.file = some path ∧ i.files path = .error e) →
      ∀ fuel, ∃ outcome, i.run fuel = some outcome ∧
        outcome.exitCode = 0 ∧ outcome.output = #[]) ∧
    ∀ path bytes, options.help = false → options.file = some path → i.files path = .ok bytes →
      let m := Machine.start ⟨bytes⟩ (.blank settings.tapeSize)
        (.make i.source i.sink (some 8192)) true
      m.tape.capacity = settings.tapeSize ∧
      (∀ fuel, (i.run fuel).isSome = (m.run fuel).isSome) ∧
      ∀ fuel outcome result after, i.run fuel = some outcome → m.run fuel = some (result, after) →
        (outcome.exitCode = 0 ↔ result = .ok ()) ∧
        (outcome.exitCode = 1 ↔ result ≠ .ok ()) ∧
        (bytes.size + 33 < indexBound → ∀ e, result = .error e →
          (report? (some i.name) ⟨bytes⟩ e).isSome = true) ∧
        (i.sink.Works ∨ outcome.exitCode = 0 →
          outcome.output = after.console.sink.accepted ∧
            outcome.output.toList = m.printed fuel) ∧
        (i.sink.RefusesWrites → outcome.output = #[] ∧
          (outcome.exitCode = 1 ↔ m.printed fuel ≠ [] ∨
            (∃ ip cursor op, result = .error (.outOfBounds ip cursor op)) ∨
            ∃ ip side, result = .error (.unmatchedBracket ip side))) := by
  intro settings
  refine ⟨run_of_nothing hread, ?_⟩
  intro path bytes hhelp hfile hbytes m
  refine ⟨?_, ?_, ?_⟩
  · have hpos : 0 < settings.tapeSize := Settings.tapeSize_resolve_pos ..
    have hcapacity : m.tape.capacity = max settings.tapeSize 1 := Tape.capacity_blank _
    omega
  · intro fuel
    have heq := congrArg Option.isSome (outcome_of_program hread hhelp hfile hbytes fuel)
    rwa [Option.isSome_map, Option.isSome_map] at heq
  intro fuel outcome result after hi hm
  have hsent : m.console.sent = #[] := by
    rw [← hfresh]
    exact Machine.sent_make ..
  have heq := outcome_of_program hread hhelp hfile hbytes fuel
  rw [hi, show i.machine options ⟨bytes⟩ = m from rfl, hm] at heq
  obtain ⟨hcode, hout⟩ := Prod.mk.inj (Option.some.inj heq)
  have hne : result ≠ .error .interrupted :=
    Machine.run_ne_interrupted ⟨hsource, hsink, rfl⟩ hm
  rw [exitCodeOf_eq hne] at hcode
  have hzero : outcome.exitCode = 0 ↔ result = .ok () := by
    rw [hcode]
    by_cases hok : result = .ok () <;> simp [hok]
  have hone : outcome.exitCode = 1 ↔ result ≠ .ok () := by
    rw [hcode]
    by_cases hok : result = .ok () <;> simp [hok]
  refine ⟨hzero, hone, ?_, ?_, ?_⟩
  · rintro hsize e rfl
    refine isSome_report? fun ip hip => ?_
    have hle : ip ≤ bytes.size := Machine.ip_of_run_error (Nat.zero_le _) hm hip
    unfold Excerpt.stop Excerpt.radius
    omega
  · intro h
    have hall : after.console.pending = #[] ∧
        after.console.sink.accepted.toList = m.console.sent.toList ++ m.printed fuel := by
      rcases h with hworks | hcode
      · exact (Machine.run_of_works hworks hm).2
      · rw [hzero.1 hcode] at hm
        exact Machine.run_of_ok hm
    rw [Console.drain_of_pending hall.1] at hout
    rw [hsent] at hall
    exact ⟨hout, by rw [hout]; exact hall.2⟩
  · intro hrefuses
    obtain ⟨hafter, haccepted⟩ := (Machine.run_of_refuses hrefuses rfl hm).1
    have hdrained := (Console.outputInvariant_refuses #[]).drain ⟨hafter, haccepted.trans hfresh⟩
    exact ⟨hout.trans hdrained.2, hone.trans (Machine.fails_iff_of_refuses hrefuses hsent hm hne)⟩

/-- A program that prints one byte, and a full disk. -/
def printingToFullDisk : Invocation where
  name := "bf"
  arguments := [Path.ofString "p.bf"]
  environment := { tapeSize := some (Path.ofString "2") }
  files := fun _ => .ok "+.".toUTF8.data
  source := ⟨[], none⟩
  sink := .refusing ⟨.system 28, by decide⟩

/-- The byte fits the buffer, and the last flush tells that it was not accepted. -/
theorem exit_code_tells_of_full_disk :
    (printingToFullDisk.sink.accepted = #[] ∧ .cancel ∉ printingToFullDisk.source.items ∧
      printingToFullDisk.sink.NeverCancels) ∧
    ∃ outcome, printingToFullDisk.run 3 = some outcome ∧
      outcome.exitCode = 1 ∧ outcome.output = #[] := by
  have hsink : printingToFullDisk.sink.NeverCancels := by decide
  have hread : printingToFullDisk.conventions.readArguments printingToFullDisk.arguments =
      .ok { file := some (Path.ofString "p.bf") } := by decide +kernel
  have hrefuses : printingToFullDisk.sink.RefusesWrites := by
    constructor <;> simp [printingToFullDisk, Sink.refusing, Sink.NeverFailsFlush]
  have hsource : .cancel ∉ printingToFullDisk.source.items := by decide
  obtain ⟨-, hprogram⟩ := exit_code_tells_of_the_run hread rfl hsource hsink
  obtain ⟨-, hends, hruns⟩ := hprogram _ _ rfl rfl rfl
  obtain ⟨outcome, hi⟩ : ∃ outcome, printingToFullDisk.run 3 = some outcome :=
    Option.isSome_iff_exists.1 (by decide +kernel)
  obtain ⟨⟨result, after⟩, hm⟩ := Option.isSome_iff_exists.1 (by rw [← hends 3, hi]; rfl)
  obtain ⟨-, -, -, -, hfull⟩ := hruns 3 outcome result after hi hm
  obtain ⟨hempty, hcode⟩ := hfull hrefuses
  exact ⟨⟨rfl, hsource, hsink⟩, outcome, hi, hcode.2 (.inl (by decide +kernel)), hempty⟩

end Invocation

end Brainfuck
