import Brainfuck.Proofs.Invocation

/-!
# Quiet invocations

An invocation with the quiet switch in front of its arguments, beside the same one without it.

* `Conventions.ReadsQuietSwitch`: the switch in front changes nothing else in what the arguments ask
  for; `Conventions.readsQuietSwitch_plain` has it of plain conventions.
* `Invocation.prepare_quietly`, `Preparation.run_quietly`: what comes before the run, and the run
  with what comes after it.
* `Invocation.quiet_removes_information`: the switch takes the pieces that only inform from
  standard error, and changes nothing else.
-/

namespace Brainfuck

/-- The quiet switch as an argument. -/
def quietArgument : Bytes := Path.ofString "--quiet"

namespace Options

/-- The options with the quiet switch as well. -/
def quieted (o : Options) : Options := { o with quiet := true }

@[simp] theorem help_quieted (o : Options) : o.quieted.help = o.help := rfl

@[simp] theorem file_quieted (o : Options) : o.quieted.file = o.file := rfl

namespace Reader

/-- The reader that has been given the quiet switch as well. -/
def quieted (r : Reader) : Reader := { r with options := r.options.quieted }

/-- A part of the reading that ends without quiet began without it, and does the same behind the
quiet switch. -/
def Tolerates (f : Reader → Except ArgumentError Reader) : Prop :=
  ∀ ⦃r r' : Reader⦄, f r = .ok r' → r'.options.quiet = false →
    r.options.quiet = false ∧ f r.quieted = .ok r'.quieted

theorem tolerates_ok {f : Reader → Reader} (hquiet : ∀ r, (f r).options.quiet = r.options.quiet)
    (hcomm : ∀ r, f r.quieted = (f r).quieted) : Tolerates fun r => .ok (f r) := by
  intro r r' h hq
  cases h
  exact ⟨hquiet r ▸ hq, congrArg _ (hcomm r)⟩

theorem tolerates_error (e : Reader → ArgumentError) : Tolerates fun r => .error (e r) :=
  fun _ _ h => nomatch h

theorem Tolerates.bind {f g : Reader → Except ArgumentError Reader} (hf : Tolerates f)
    (hg : Tolerates g) : Tolerates fun r => f r >>= g := by
  intro r r' h hq
  dsimp only at h ⊢
  cases hfr : f r with
  | error e => rw [hfr] at h; cases h
  | ok s =>
    rw [hfr] at h
    obtain ⟨hs, hgs⟩ := hg h hq
    obtain ⟨hr, hfs⟩ := hf hfr hs
    exact ⟨hr, by rw [hfs]; exact hgs⟩

/-- A choice that quiet has no part in. -/
theorem Tolerates.ite {c : Reader → Prop} [DecidablePred c] (hc : ∀ r, c r.quieted ↔ c r)
    {f g : Reader → Except ArgumentError Reader} (hf : Tolerates f) (hg : Tolerates g) :
    Tolerates fun r => if c r then f r else g r := by
  intro r r' h hq
  dsimp only at h ⊢
  by_cases hcr : c r
  · rw [if_pos hcr] at h
    rw [if_pos ((hc r).2 hcr)]
    exact hf h hq
  · rw [if_neg hcr] at h
    rw [if_neg (mt (hc r).1 hcr)]
    exact hg h hq

theorem tolerates_takeSize (value : Bytes) : Tolerates (·.takeSize value) := by
  refine Tolerates.ite (fun _ => Iff.rfl) (tolerates_error _) ?_
  cases Utf8.decode? value with
  | none => exact tolerates_error _
  | some text =>
    dsimp only
    cases Numeral.read text with
    | ok n =>
      exact tolerates_ok
        (f := fun r => { r with options := { r.options with tapeSize := some n } })
        (fun _ => rfl) fun _ => rfl
    | error cause => exact tolerates_error _

theorem tolerates_settle : Tolerates settle := by
  intro r r' h hq
  obtain ⟨options, pending, literal⟩ := r
  cases pending with
  | nothing => cases h; exact ⟨hq, rfl⟩
  | size value =>
    cases value with
    | none => cases h
    | some value => exact tolerates_takeSize value h hq
  | file path =>
    unfold settle at h ⊢
    dsimp only [quieted] at h ⊢
    split at h
    · cases h
    · rename_i hpath
      cases h
      exact ⟨hq, if_neg hpath⟩

/-- The quiet switch asks for quiet. -/
theorem quiet_of_takeQuiet {r r' : Reader} (h : r.takeQuiet = .ok r') :
    r'.options.quiet = true := by
  unfold takeQuiet at h
  cases hs : r.settle with
  | error e => rw [hs] at h; cases h
  | ok s =>
    rw [hs] at h
    simp only [bind, Except.bind] at h
    split at h
    · cases h
    · cases h; rfl

theorem tolerates_takeQuiet : Tolerates takeQuiet := by
  intro r r' h hq
  -- a reader that takes the switch does not end without quiet
  rw [quiet_of_takeQuiet h] at hq
  cases hq

theorem tolerates_takeHelp : Tolerates takeHelp :=
  tolerates_settle.bind <| Tolerates.ite (fun _ => Iff.rfl) (tolerates_error _)
    (tolerates_ok (fun _ => rfl) fun _ => rfl)

theorem tolerates_readFile (argument : Bytes) : Tolerates (·.readFile argument) :=
  Tolerates.ite (fun _ => Iff.rfl) (tolerates_error _)
    (tolerates_settle.bind (tolerates_ok (fun _ => rfl) fun _ => rfl))

theorem tolerates_readLetters (letters : List (Option Char)) :
    Tolerates (·.readLetters letters) := by
  induction letters with
  | nil => exact tolerates_ok (fun _ => rfl) fun _ => rfl
  | cons letter rest ih =>
    cases letter with
    | none => exact tolerates_error _
    | some c =>
      by_cases hq : c = 'q'
      · subst hq
        exact tolerates_takeQuiet.bind ih
      · by_cases hh : c = 'h'
        · subst hh
          exact tolerates_takeHelp.bind ih
        · simp only [readLetters]
          exact tolerates_error _

theorem tolerates_readLong (argument : Bytes) : Tolerates (·.readLong argument) := by
  unfold readLong
  dsimp only
  split
  · refine tolerates_settle.bind ?_
    split
    · exact tolerates_takeSize _
    · exact tolerates_ok (fun _ => rfl) fun _ => rfl
  · split
    · split
      · exact tolerates_error _
      · exact tolerates_takeQuiet
    · split
      · split
        · exact tolerates_error _
        · exact tolerates_takeHelp
      · exact tolerates_error _

theorem tolerates_readPlain (argument : Bytes) : Tolerates (·.readPlain argument) := by
  -- the match on what is pending, as a choice
  have heq (r : Reader) : r.readPlain argument =
      if r.pending = .size none then .ok { r with pending := .size (some argument) }
      else r.readFile argument := by
    unfold readPlain
    split <;> simp_all
  simp only [heq]
  exact Tolerates.ite (fun _ => Iff.rfl) (tolerates_ok (fun _ => rfl) fun _ => rfl)
    (tolerates_readFile argument)

theorem tolerates_read (argument : Bytes) : Tolerates (·.read argument) := by
  refine Tolerates.ite (fun _ => Iff.rfl) (tolerates_readFile argument) ?_
  split
  · split
    · split
      · split
        · exact tolerates_ok (fun _ => rfl) fun _ => rfl
        · exact tolerates_readLong _
      · exact tolerates_readLetters _
    · exact tolerates_readPlain _
  · exact tolerates_readPlain argument

theorem tolerates_foldlM_read (arguments : List Bytes) :
    Tolerates fun r => arguments.foldlM read r := by
  induction arguments with
  | nil => exact tolerates_ok (fun _ => rfl) fun _ => rfl
  | cons argument rest ih =>
    simp only [List.foldlM_cons]
    exact (tolerates_read argument).bind ih

/-- The quiet switch, as the first argument. -/
theorem read_quietArgument : read {} quietArgument = .ok (quieted {}) := by
  decide +kernel

end Reader

/-- The options are those of the reader that has settled after the last argument. -/
theorem read_eq_ok_iff {arguments : List Bytes} {options : Options} :
    Options.read arguments = .ok options ↔
      ∃ r, (arguments.foldlM Reader.read {} >>= Reader.settle) = .ok r ∧ r.options = options := by
  unfold Options.read
  cases arguments.foldlM Reader.read {} with
  | error e => simp [bind, Except.bind]
  | ok r =>
    cases h : r.settle with
    | error e => simp [bind, Except.bind, h]
    | ok s => simp [bind, Except.bind, h, pure, Except.pure]

/-- The quiet switch in front changes nothing else in what the arguments ask for. -/
theorem read_quiet_cons {arguments : List Bytes} {options : Options}
    (h : Options.read arguments = .ok options) (hq : options.quiet = false) :
    Options.read (quietArgument :: arguments) = .ok options.quieted := by
  obtain ⟨r, hr, rfl⟩ := read_eq_ok_iff.1 h
  have hwhole := (Reader.tolerates_foldlM_read arguments).bind Reader.tolerates_settle
  obtain ⟨-, hquieted⟩ := hwhole hr hq
  refine read_eq_ok_iff.2 ⟨r.quieted, ?_, rfl⟩
  rw [List.foldlM_cons, Reader.read_quietArgument]
  exact hquieted

end Options

/-- A quiet switch in front of arguments that are accepted, and ask for no quiet, is accepted too,
and asks for quiet and nothing else. -/
def Conventions.ReadsQuietSwitch (c : Conventions) : Prop :=
  ∀ arguments options, c.readArguments arguments = .ok options → options.quiet = false →
    c.readArguments (quietArgument :: arguments) = .ok options.quieted

theorem Conventions.readArguments_plain_iff {arguments : List Bytes} {options : Options} :
    plain.readArguments arguments = .ok options ↔ Options.read arguments = .ok options := by
  unfold plain
  dsimp only
  cases Options.read arguments with
  | error e =>
    constructor <;> intro h <;> cases h
  | ok read =>
    constructor <;> intro h <;> cases h <;> rfl

theorem Conventions.readsQuietSwitch_plain : plain.ReadsQuietSwitch := by
  intro arguments options h hq
  rw [readArguments_plain_iff] at h ⊢
  exact Options.read_quiet_cons h hq

/-- The one level that a log of plain conventions has. -/
def Level.ofEnvironment (env : Environment) : Level :=
  (((Environment.text? env.log).bind ofName?).or
    ((Environment.text? env.commonLog).bind ofName?)).getD .warn

theorem Conventions.shows_plain (env : Environment) :
    plain.shows env = fun e => e.isShown (Level.ofEnvironment env) := by
  have hfilter (text : Option (List Char)) : text.bind plain.filter? =
      (text.bind Level.ofName?).map fun log e => e.isShown log := by
    cases text <;> rfl
  unfold shows Level.ofEnvironment
  rw [hfilter, hfilter]
  cases (Environment.text? env.log).bind Level.ofName? with
  | some log => rfl
  | none => cases (Environment.text? env.commonLog).bind Level.ofName? <;> rfl

namespace Settings

/-- Settings that are not quiet come from options that do not ask for it. -/
theorem quietOption_of_resolve {size : Option Nat} {quiet : Bool} {env : Environment}
    {files : Files} {directory? : Option Path}
    (h : (resolve size quiet env files directory?).quiet = false) : quiet = false :=
  (Bool.or_eq_false_iff.1 h).1

end Settings

/-! ### Notices -/

/-- The pieces of standard error that quiet leaves. -/
def remaining (notices : List Notice) : List Notice := notices.filter (!·.isInformation)

@[simp] theorem remaining_append (notices more : List Notice) :
    remaining (notices ++ more) = remaining notices ++ remaining more :=
  List.filter_append ..

/-- The log informs of nothing that quiet leaves out. -/
@[simp] theorem remaining_shownEvents (shows : Event → Bool) (events : List Event) :
    remaining (shownEvents shows events) = shownEvents shows events := by
  refine List.filter_eq_self.2 fun n hn => ?_
  obtain ⟨e, -, rfl⟩ := List.mem_map.1 hn
  rfl

/-- Pieces that inform are left out in either way. -/
theorem remaining_informing {settings quiet : Settings} (hquiet : quiet.quiet = true)
    {notices : List Notice} (h : ∀ n ∈ notices, n.isInformation = true) :
    remaining (informing settings notices) = informing quiet notices := by
  rw [informing, informing, if_pos hquiet]
  split
  · rfl
  · exact List.filter_eq_nil_iff.2 fun n hn => by simp [h n hn]

theorem shownEvents_append_hidden {shows : Event → Bool} {e : Event} (h : shows e = false)
    (events : List Event) : shownEvents shows (events ++ [e]) = shownEvents shows events := by
  simp [shownEvents, h]

/-- What an invocation leaves behind, without the pieces that only inform. -/
def Outcome.withoutInformation (o : Outcome) : Outcome :=
  { o with notices := remaining o.notices }

/-- The pieces that only inform. -/
theorem Notice.isInformation_iff (n : Notice) :
    n.isInformation = true ↔ (∃ size, n = .loaded size) ∨ n = .running ∨ n = .done := by
  cases n <;> simp [isInformation]

/-- Only the piece that tells of the duration depends on it. -/
theorem Notice.text_congr {n : Notice} (h : n.isInformation = false)
    (time duration duration' : String) (line : Event → String → String) :
    n.text time duration line = n.text time duration' line := by
  cases n <;> first | rfl | cases h

/-- Standard error without the pieces that inform is standard error with each of them erased. -/
theorem Outcome.errorText_withoutInformation (o : Outcome) (time duration duration' : String)
    (line : Event → String → String) :
    o.withoutInformation.errorText time duration' line =
      String.join (o.notices.map fun n =>
        if n.isInformation then "" else n.text time duration line) := by
  obtain ⟨exitCode, output, notices⟩ := o
  unfold withoutInformation errorText remaining
  dsimp only
  induction notices with
  | nil => rfl
  | cons n rest ih =>
    cases h : n.isInformation with
    | true => simp [h, ih]
    | false => simp [h, ih, Notice.text_congr h time duration duration' line]

namespace Preparation

/-- The same program about to be run, with the quiet setting. -/
def quietly (p : Preparation) : Preparation :=
  { p with settings := { p.settings with quiet := true }, notices := remaining p.notices }

theorem conclude_quietly (p : Preparation) (result : Except RunError Unit) (after : Machine)
    (events : List Event) :
    p.quietly.conclude result after events =
      (p.conclude result after events).withoutInformation := by
  have hopening : remaining p.opening = p.opening := remaining_shownEvents ..
  have hdone : remaining (informing p.settings [.done]) = informing p.quietly.settings [.done] :=
    remaining_informing rfl (by simp [Notice.isInformation])
  unfold conclude Outcome.withoutInformation
  dsimp only
  cases (after.finish result).1 with
  | ok _ =>
    simp only [remaining_append, remaining_shownEvents, hopening, hdone]
    rfl
  | error e =>
    simp only [remaining_append, remaining_shownEvents, hopening]
    rfl

/-- The run and what comes after it, with the quiet setting and without. -/
theorem run_quietly (p : Preparation) (fuel : Nat) :
    p.quietly.run fuel = (p.run fuel).map Outcome.withoutInformation := by
  have hmachine : p.quietly.machine = p.machine := rfl
  unfold run
  rw [hmachine]
  simp only [conclude_quietly, Option.map_map, Function.comp_def]

end Preparation

namespace Invocation

/-- The same invocation with the quiet switch in front of its arguments. -/
def quietly (i : Invocation) : Invocation :=
  { i with arguments := quietArgument :: i.arguments }

/-- The log shows no event of the level debug. -/
def HidesDebug (i : Invocation) : Prop := ∀ e : Event, e.level = .debug → i.shows e = false

variable {i : Invocation} {options : Options}

theorem hidesDebug_of_plain (h : i.conventions = .plain)
    (hlevel : (Level.ofEnvironment i.environment).rank < Level.debug.rank) : i.HidesDebug := by
  intro e he
  rw [shows, h, Conventions.shows_plain]
  dsimp only [Event.isShown]
  rw [he]
  exact decide_eq_false (Nat.not_le.2 hlevel)

/-- Such a log shows nothing of the settings that were resolved, quiet or not. -/
theorem resolved_quietly (hlog : i.HidesDebug) (options : Options) :
    i.quietly.resolved options.quieted = remaining (i.resolved options) := by
  have hhidden (settings : Settings) := shownEvents_append_hidden
    (hlog (.settingsResolved settings) rfl) (settingsEvents i.environment i.files i.directory?)
  rw [resolved, resolved, remaining_shownEvents]
  exact (hhidden _).trans (hhidden _).symm

theorem preparation_quietly (hlog : i.HidesDebug) (options : Options) (path : Path)
    (program : Program) :
    i.quietly.preparation options.quieted path program =
      (i.preparation options path program).quietly := by
  have hinforming : remaining (informing (i.settings options) [.loaded program.size, .running]) =
      informing (i.quietly.settings options.quieted)
        [.loaded program.size, .running] :=
    remaining_informing rfl (by simp [Notice.isInformation])
  have hnotices : (i.quietly.preparation options.quieted path program).notices =
      remaining (i.preparation options path program).notices := by
    simp only [preparation, remaining_append, remaining_shownEvents, hinforming,
      resolved_quietly hlog options]
    rfl
  exact congrArg (fun notices =>
    { i.quietly.preparation options.quieted path program with notices }) hnotices

/-- What comes before the run, with the quiet switch and without. -/
theorem prepare_quietly (hswitch : i.conventions.ReadsQuietSwitch) (hlog : i.HidesDebug)
    (hread : i.conventions.readArguments i.arguments = .ok options)
    (hquiet : options.quiet = false) :
    i.quietly.prepare = i.prepare.map Outcome.withoutInformation Preparation.quietly := by
  have hboth : i.quietly.conventions.readArguments i.quietly.arguments = .ok options.quieted :=
    hswitch i.arguments options hread hquiet
  rw [prepare_eq hread, prepare_eq hboth, Options.help_quieted, Options.file_quieted]
  cases options.help with
  | true => rfl
  | false =>
    cases options.file with
    | none => rfl
    | some path =>
      have hfiles : i.quietly.files = i.files := rfl
      rw [hfiles]
      dsimp only
      cases Program.load i.files path with
      | error e =>
        simp only [Sum.map_inl, Outcome.withoutInformation, remaining_append,
          resolved_quietly hlog options]
        rfl
      | ok program => exact congrArg Sum.inr (preparation_quietly hlog options path program)

/-- The whole invocation, with the quiet switch and without. -/
theorem run_quietly (hswitch : i.conventions.ReadsQuietSwitch) (hlog : i.HidesDebug)
    (hread : i.conventions.readArguments i.arguments = .ok options)
    (hquiet : options.quiet = false) (fuel : Nat) :
    i.quietly.run fuel = (i.run fuel).map Outcome.withoutInformation := by
  unfold run
  rw [prepare_quietly hswitch hlog hread hquiet]
  cases i.prepare with
  | inl outcome => rfl
  | inr p => exact p.run_quietly fuel

/-- **Quiet only removes information.** Let the arguments be read in any way that takes a quiet
switch in front of them for no more than that, and the log show any events but those of the level
debug. Where the arguments are accepted and come to a setting that is not quiet, the quiet switch in
front of them changes neither whether the run ends, nor the exit code, nor standard output. On
standard error the three pieces that inform are erased where they stand, and every other piece
stays, whatever the duration of the two runs and the look of a log line. -/
theorem quiet_removes_information (hswitch : i.conventions.ReadsQuietSwitch) (hlog : i.HidesDebug)
    (hread : i.conventions.readArguments i.arguments = .ok options)
    (hquiet : (Settings.resolve options.tapeSize options.quiet i.environment i.files
      (i.conventions.settingsDirectory? i.environment)).quiet = false) :
    (∀ fuel, i.quietly.run fuel = none ↔ i.run fuel = none) ∧
    (∀ fuel outcome, i.run fuel = some outcome → ∃ quiet, i.quietly.run fuel = some quiet ∧
      quiet.exitCode = outcome.exitCode ∧ quiet.output = outcome.output ∧
      quiet.notices = outcome.notices.filter (!·.isInformation) ∧
      ∀ time duration duration' line, quiet.errorText time duration' line =
        String.join (outcome.notices.map fun n =>
          if n.isInformation then "" else n.text time duration line)) ∧
    (∀ n : Notice, n.isInformation = true ↔ (∃ size, n = .loaded size) ∨ n = .running ∨ n = .done) ∧
    ∀ (size : Nat) (time duration : String) (line : Event → String → String),
      (Notice.loaded size).text time duration line =
        "loaded program, size: " ++ toString size ++ "\n" ∧
      Notice.running.text time duration line =
        "running, press ctrl+c to abort, press ctrl+d for EOF\n" ∧
      Notice.done.text time duration line = "\ndone, took: " ++ duration ++ "s\n" := by
  have hrun := run_quietly hswitch hlog hread (Settings.quietOption_of_resolve hquiet)
  refine ⟨fun fuel => ?_, fun fuel outcome h => ?_, Notice.isInformation_iff,
    fun size time duration line => ⟨rfl, rfl, rfl⟩⟩
  · rw [hrun, Option.map_eq_none_iff]
  · refine ⟨outcome.withoutInformation, ?_, rfl, rfl, rfl, fun time duration duration' line => ?_⟩
    · rw [hrun, h, Option.map_some]
    · exact outcome.errorText_withoutInformation time duration duration' line

/-- A tape size in the settings file that cannot be read, and a program that runs off its tape. What
the tool's own variable asks of the log cannot be understood, and the common variable asks for
information. -/
def warnedAndFailing : Invocation where
  name := "bf"
  arguments := [Path.ofString "p.bf"]
  environment := {
    config := some (Path.ofString "bf.toml")
    tapeSize := some (Path.ofString "2")
    log := some (Path.ofString "!!")
    commonLog := some (Path.ofString "info") }
  files := fun path =>
    if path = Path.ofString "bf.toml" then .ok "[interpreter]\ntape_size = x\n".toUTF8.data
    else .ok "+.<".toUTF8.data
  source := ⟨[], none⟩
  sink := .accepting

/-- The warning and the report stay. -/
theorem quiet_removes_information_of_failure :
    (warnedAndFailing.run 3).map (·.errorText "T" "D") =
      some ("T  WARN ignoring invalid tape_size in config file value=x\n" ++
        "loaded program, size: 3\n" ++
        "running, press ctrl+c to abort, press ctrl+d for EOF\n" ++
        "\nbf: Runtime error: pointer out of bounds (ptr=0, op=<) at instruction 2\n" ++
        "  +.<\n    ^\n") ∧
    ∃ quiet, warnedAndFailing.quietly.run 3 = some quiet ∧
      quiet.exitCode = 1 ∧ quiet.output = #[1] ∧
      quiet.errorText "T" "D" =
        "T  WARN ignoring invalid tape_size in config file value=x\n" ++
        "\nbf: Runtime error: pointer out of bounds (ptr=0, op=<) at instruction 2\n" ++
        "  +.<\n    ^\n" := by
  refine ⟨by decide +kernel, ?_⟩
  obtain ⟨outcome, h⟩ : ∃ outcome, warnedAndFailing.run 3 = some outcome :=
    Option.isSome_iff_exists.1 (by decide +kernel)
  have hread : warnedAndFailing.conventions.readArguments warnedAndFailing.arguments =
      .ok { file := some (Path.ofString "p.bf") } := by decide +kernel
  have hlog : warnedAndFailing.HidesDebug := hidesDebug_of_plain rfl (by decide +kernel)
  obtain ⟨quiet, hrun, hcode, hout, -, htext⟩ := (quiet_removes_information
    (i := warnedAndFailing) Conventions.readsQuietSwitch_plain hlog hread (by decide +kernel)).2.1
      3 outcome h
  have hsees : (warnedAndFailing.run 3).map (fun o => (o.exitCode, o.output,
      String.join (o.notices.map fun n => if n.isInformation then "" else n.text "T" "D"))) =
      some (1, #[1], "T  WARN ignoring invalid tape_size in config file value=x\n" ++
        "\nbf: Runtime error: pointer out of bounds (ptr=0, op=<) at instruction 2\n" ++
        "  +.<\n    ^\n") := by decide +kernel
  rw [h, Option.map_some, Option.some.injEq, Prod.mk.injEq, Prod.mk.injEq] at hsees
  obtain ⟨hcode', hout', htext'⟩ := hsees
  exact ⟨quiet, hrun, hcode.trans hcode', hout.trans hout', (htext _ _ _ _).trans htext'⟩

end Invocation

end Brainfuck
