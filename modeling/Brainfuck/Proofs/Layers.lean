import Brainfuck.Proofs.Assignments
import Brainfuck.Settings

/-!
# Layers of settings

The options, the environment and the settings file are layers, one below the other. A layer gives
a setting only if what stands there can be read, and then the layers below do not matter. So a
value that cannot be read is as good as none, and what gives one setting does not matter to the
other.

* `Settings.FirstGives`: what the first layer gives that gives something.
* `Settings.sizeLayers`, `Settings.quietLayers`: the layers of each setting.
* `Settings.tapeSize_resolve_iff`, `Settings.quiet_resolve_iff`: the settings of a run, from what
  the layers give.
* `Settings.tapeSize_resolve_congr`, `Settings.quiet_resolve_congr`: nothing else matters.
* `Settings.first_valid_layer_counts`: all of it.
-/

namespace Brainfuck

namespace Settings

open FileSettings

/-! ### What layers give -/

section

variable {α : Type} {default a : α} {layer : α → Prop} {layers lower : List (α → Prop)}

/-- What the first layer gives that gives something, or the default if none does. -/
def FirstGives (default : α) : List (α → Prop) → α → Prop
  | [], a => a = default
  | layer :: lower, a => layer a ∨ ((∀ b, ¬layer b) ∧ FirstGives default lower a)

/-- One layer more, on top of others that come to what `rest` has. -/
theorem firstGives_cons_iff {o rest : Option α} (ho : ∀ b, o = some b ↔ layer b)
    (hrest : rest.getD default = a ↔ FirstGives default lower a) :
    (o.or rest).getD default = a ↔ FirstGives default (layer :: lower) a := by
  unfold FirstGives
  cases o with
  | some b =>
    have hb : layer b := (ho b).1 rfl
    rw [Option.some_or, Option.getD_some]
    constructor
    · rintro rfl
      exact .inl hb
    · rintro (ha | ⟨hnone, -⟩)
      · exact Option.some.inj ((ho a).2 ha)
      · exact absurd hb (hnone b)
  | none =>
    have hnone : ∀ b, ¬layer b := by
      intro b hb
      cases (ho b).2 hb
    rw [Option.none_or, hrest]
    constructor
    · intro hlower
      exact .inr ⟨hnone, hlower⟩
    · rintro (ha | ⟨-, hlower⟩)
      · exact absurd ha (hnone a)
      · exact hlower

/-- Three layers, as settings have them. -/
theorem firstGives_three_iff {o₁ o₂ o₃ : Option α} {layer₁ layer₂ layer₃ : α → Prop}
    (h₁ : ∀ b, o₁ = some b ↔ layer₁ b) (h₂ : ∀ b, o₂ = some b ↔ layer₂ b)
    (h₃ : ∀ b, o₃ = some b ↔ layer₃ b) :
    (o₁.or (o₂.or o₃)).getD default = a ↔ FirstGives default [layer₁, layer₂, layer₃] a := by
  have hdefault : (none : Option α).getD default = a ↔ FirstGives default [] a := eq_comm
  have hlast := firstGives_cons_iff h₃ hdefault
  rw [Option.or_none] at hlast
  exact firstGives_cons_iff h₁ (firstGives_cons_iff h₂ hlast)

/-- What holds of all that the layers give, and of the default, holds of what comes first. -/
theorem FirstGives.of_forall {P : α → Prop} (h : FirstGives default layers a)
    (hlayers : ∀ layer ∈ layers, ∀ b, layer b → P b) (hdefault : P default) : P a := by
  induction layers with
  | nil =>
    have ha : a = default := h
    rw [ha]
    exact hdefault
  | cons layer lower ih =>
    rcases h with h | ⟨-, h⟩
    · exact hlayers layer List.mem_cons_self a h
    · exact ih h fun layer' hmem => hlayers layer' (List.mem_cons_of_mem layer hmem)

end

variable {sizeOption sizeOption' : Option Nat} {quietOption quietOption' : Bool}
  {env env' : Environment} {files files' : Files} {dir? dir?' : Option Path}

/-- The option gives a tape size, unless it is zero. -/
def OptionGives (sizeOption : Option Nat) (n : Nat) : Prop := sizeOption = some n ∧ 0 < n

/-- The flag turns quiet on, and gives nothing where it is left out. -/
def FlagGives (quietOption b : Bool) : Prop := quietOption = true ∧ b = true

/-- A variable gives what the text in it reads as. -/
def VariableGives {α : Type} (read? : List Char → Option α) (raw : Option Bytes) (a : α) :
    Prop :=
  ∃ bytes text, raw = some bytes ∧ Utf8.decode? bytes = some text ∧ read? text = some a

/-- The settings file is the one that the environment names, and if it names none, the one of the
usual name in the directory of settings files. -/
def IsSettingsPath (env : Environment) (dir? : Option Path) (path : Path) : Prop :=
  env.config = some path ∨
    (env.config = none ∧
      ∃ dir, dir? = some dir ∧ path = Path.join dir (Path.ofString "bf.toml"))

/-- There is a settings file, it can be read, and its content is the text. -/
def HasFileText (env : Environment) (files : Files) (dir? : Option Path)
    (text : List Char) : Prop :=
  ∃ path content, IsSettingsPath env dir? path ∧ files path = .ok content ∧
    Utf8.decode? content.toList = some text

/-- The settings file gives what the last value of a key in it reads as. -/
def FileGives {α : Type} (read? : List Char → Option α) (key : List Char) (env : Environment)
    (files : Files) (dir? : Option Path) (a : α) : Prop :=
  ∃ text value, HasFileText env files dir? text ∧ LastAssigned (entries text) key value ∧
    read? value = some a

/-- The layers of the tape size. -/
def sizeLayers (sizeOption : Option Nat) (env : Environment) (files : Files)
    (dir? : Option Path) : List (Nat → Prop) :=
  [OptionGives sizeOption, VariableGives readTapeSize? env.tapeSize,
    FileGives readTapeSize? tapeSizeKey env files dir?]

/-- The layers of the quiet switch. -/
def quietLayers (quietOption : Bool) (env : Environment) (files : Files)
    (dir? : Option Path) : List (Bool → Prop) :=
  [FlagGives quietOption, VariableGives readSwitch? env.quiet,
    FileGives readSwitch? quietKey env files dir?]

/-! ### Each layer, as the settings have it -/

theorem filter_eq_some_iff (n : Nat) :
    sizeOption.filter (0 < ·) = some n ↔ OptionGives sizeOption n := by
  rw [Option.filter_eq_some_iff, decide_eq_true_iff]
  rfl

theorem flag_eq_some_iff (b : Bool) :
    (if quietOption then some true else none) = some b ↔ FlagGives quietOption b := by
  unfold FlagGives
  cases quietOption with
  | true => simp [eq_comm]
  | false => simp

theorem bind_text?_eq_some_iff {α : Type} {read? : List Char → Option α} (raw : Option Bytes)
    (a : α) : (Environment.text? raw).bind read? = some a ↔ VariableGives read? raw a := by
  unfold Environment.text? VariableGives
  constructor
  · intro h
    obtain ⟨text, htext, hread⟩ := Option.bind_eq_some_iff.1 h
    obtain ⟨bytes, hbytes, hdecode⟩ := Option.bind_eq_some_iff.1 htext
    exact ⟨bytes, text, hbytes, hdecode, hread⟩
  · rintro ⟨bytes, text, rfl, hdecode, hread⟩
    rw [Option.bind_some, hdecode, Option.bind_some, hread]

/-- The path of the settings file is the one that is named, or the usual one. -/
theorem configPath?_eq_some_iff {path : Path} :
    env.configPath? dir? = some path ↔ IsSettingsPath env dir? path := by
  unfold Environment.configPath? IsSettingsPath
  cases env.config with
  | some named => simp
  | none =>
    dsimp only
    rw [Option.map_eq_some_iff]
    simp [eq_comm]

/-- The settings of the file are those of its text. -/
theorem ofFile_of_hasFileText {text : List Char} (h : HasFileText env files dir? text) :
    ofFile env files dir? = .ofText text := by
  obtain ⟨path, content, hpath, hfile, hdecode⟩ := h
  have htext : fileText? env files dir? = some (path, text) := by
    unfold fileText?
    rw [configPath?_eq_some_iff.2 hpath, Option.bind_some, hfile]
    dsimp only
    rw [hdecode, Option.map_some]
  rw [ofFile, htext]

theorem ofFile_of_not_hasFileText (h : ∀ text, ¬HasFileText env files dir? text) :
    ofFile env files dir? = {} := by
  have hnone : fileText? env files dir? = none := by
    rw [Option.eq_none_iff_forall_ne_some]
    rintro ⟨path, text⟩ htext
    obtain ⟨path', hpath, htext⟩ := Option.bind_eq_some_iff.1 htext
    split at htext
    · rename_i content hfile
      obtain ⟨text', hdecode, -⟩ := Option.map_eq_some_iff.1 htext
      exact h text' ⟨path', content, configPath?_eq_some_iff.1 hpath, hfile, hdecode⟩
    · cases htext
  rw [ofFile, hnone]

/-- A setting of the settings file, from what it is in a text. -/
theorem ofFile_eq_some_iff {α : Type} {read? : List Char → Option α} {key : List Char}
    (field : FileSettings → Option α) (hnone : field {} = none)
    (htext : ∀ text a, field (.ofText text) = some a ↔
      ∃ value, LastAssigned (entries text) key value ∧ read? value = some a) (a : α) :
    field (ofFile env files dir?) = some a ↔ FileGives read? key env files dir? a := by
  by_cases hfile : ∃ text, HasFileText env files dir? text
  · obtain ⟨text, hfile⟩ := hfile
    rw [ofFile_of_hasFileText hfile, htext]
    constructor
    · rintro ⟨value, hlast, hread⟩
      exact ⟨text, value, hfile, hlast, hread⟩
    · rintro ⟨text', value, hfile', hlast, hread⟩
      have hsame : field (.ofText text) = some a := by
        rw [← ofFile_of_hasFileText hfile, ofFile_of_hasFileText hfile', htext]
        exact ⟨value, hlast, hread⟩
      exact (htext text a).1 hsame
  · rw [ofFile_of_not_hasFileText fun text h => hfile ⟨text, h⟩, hnone]
    constructor
    · intro h
      cases h
    · rintro ⟨text, -, h, -⟩
      exact absurd ⟨text, h⟩ hfile

theorem tapeSize_ofFile_eq_some_iff (n : Nat) :
    (ofFile env files dir?).tapeSize = some n ↔
      FileGives readTapeSize? tapeSizeKey env files dir? n :=
  ofFile_eq_some_iff FileSettings.tapeSize rfl (fun _ _ => tapeSize_ofText_eq_some_iff) n

theorem quiet_ofFile_eq_some_iff (b : Bool) :
    (ofFile env files dir?).quiet = some b ↔
      FileGives readSwitch? quietKey env files dir? b :=
  ofFile_eq_some_iff FileSettings.quiet rfl (fun _ _ => quiet_ofText_eq_some_iff) b

/-! ### The settings of a run -/

/-- **The tape size of a run** is the one that the first layer gives, or the default. -/
theorem tapeSize_resolve_iff {n : Nat} :
    (resolve sizeOption quietOption env files dir?).tapeSize = n ↔
      FirstGives 30000 (sizeLayers sizeOption env files dir?) n := by
  have hlayers : (resolve sizeOption quietOption env files dir?).tapeSize =
      ((sizeOption.filter (0 < ·)).or
        (((Environment.text? env.tapeSize).bind readTapeSize?).or
          (ofFile env files dir?).tapeSize)).getD 30000 := by
    rw [← Option.or_assoc]
    rfl
  rw [hlayers]
  exact firstGives_three_iff filter_eq_some_iff (bind_text?_eq_some_iff env.tapeSize)
    tapeSize_ofFile_eq_some_iff

/-- **The quiet switch of a run** is as the first layer gives it, or off. -/
theorem quiet_resolve_iff {b : Bool} :
    (resolve sizeOption quietOption env files dir?).quiet = b ↔
      FirstGives false (quietLayers quietOption env files dir?) b := by
  have hlayers : (resolve sizeOption quietOption env files dir?).quiet =
      ((if quietOption then some true else none).or
        (((Environment.text? env.quiet).bind readSwitch?).or
          (ofFile env files dir?).quiet)).getD false := by
    cases quietOption with
    | true => rfl
    | false => rfl
  rw [hlayers]
  exact firstGives_three_iff flag_eq_some_iff (bind_text?_eq_some_iff env.quiet)
    quiet_ofFile_eq_some_iff

/-- No layer gives a tape of no cells. -/
theorem tapeSize_resolve_pos (size : Option Nat) (quiet : Bool) (env : Environment)
    (files : Files) (dir? : Option Path) :
    0 < (resolve size quiet env files dir?).tapeSize := by
  have hfirst : FirstGives 30000 (sizeLayers size env files dir?)
      (resolve size quiet env files dir?).tapeSize := tapeSize_resolve_iff.1 rfl
  refine hfirst.of_forall (fun layer hlayer n hn => ?_) (by decide)
  simp only [sizeLayers, List.mem_cons, List.not_mem_nil, or_false] at hlayer
  rcases hlayer with rfl | rfl | rfl
  · exact hn.2
  · obtain ⟨bytes, text, -, -, hread⟩ := hn
    exact pos_of_readTapeSize? hread
  · obtain ⟨text, value, -, -, hread⟩ := hn
    exact pos_of_readTapeSize? hread

/-- Nothing but what the layers give matters to the tape size. -/
theorem tapeSize_resolve_congr (hoption : ∀ n, OptionGives sizeOption n ↔ OptionGives sizeOption' n)
    (hvariable : ∀ n, VariableGives readTapeSize? env.tapeSize n ↔
      VariableGives readTapeSize? env'.tapeSize n)
    (hfile : ∀ n, FileGives readTapeSize? tapeSizeKey env files dir? n ↔
      FileGives readTapeSize? tapeSizeKey env' files' dir?' n) :
    (resolve sizeOption quietOption env files dir?).tapeSize =
      (resolve sizeOption' quietOption' env' files' dir?').tapeSize := by
  have hlayers : sizeLayers sizeOption env files dir? =
      sizeLayers sizeOption' env' files' dir?' := by
    unfold sizeLayers
    rw [funext fun n => propext (hoption n), funext fun n => propext (hvariable n),
      funext fun n => propext (hfile n)]
  rw [tapeSize_resolve_iff, hlayers, ← tapeSize_resolve_iff]

/-- Nothing but what the layers give matters to the quiet switch. -/
theorem quiet_resolve_congr (hflag : ∀ b, FlagGives quietOption b ↔ FlagGives quietOption' b)
    (hvariable : ∀ b, VariableGives readSwitch? env.quiet b ↔
      VariableGives readSwitch? env'.quiet b)
    (hfile : ∀ b, FileGives readSwitch? quietKey env files dir? b ↔
      FileGives readSwitch? quietKey env' files' dir?' b) :
    (resolve sizeOption quietOption env files dir?).quiet =
      (resolve sizeOption' quietOption' env' files' dir?').quiet := by
  have hlayers : quietLayers quietOption env files dir? =
      quietLayers quietOption' env' files' dir?' := by
    unfold quietLayers
    rw [funext fun b => propext (hflag b), funext fun b => propext (hvariable b),
      funext fun b => propext (hfile b)]
  rw [quiet_resolve_iff, hlayers, ← quiet_resolve_iff]

/-- Options and variables that give the same make the same settings, with the same file. -/
theorem resolve_congr (hoption : ∀ n, OptionGives sizeOption n ↔ OptionGives sizeOption' n)
    (hsize : ∀ n, VariableGives readTapeSize? env.tapeSize n ↔
      VariableGives readTapeSize? env'.tapeSize n)
    (hquiet : ∀ b, VariableGives readSwitch? env.quiet b ↔
      VariableGives readSwitch? env'.quiet b)
    (hconfig : env.config = env'.config) :
    resolve sizeOption quietOption env files dir? =
      resolve sizeOption' quietOption env' files dir? := by
  have hfile {α : Type} (read? : List Char → Option α) (key : List Char) (a : α) :
      FileGives read? key env files dir? a ↔ FileGives read? key env' files dir? a := by
    unfold FileGives HasFileText IsSettingsPath
    rw [hconfig]
  have hsameSize : (resolve sizeOption quietOption env files dir?).tapeSize =
      (resolve sizeOption' quietOption env' files dir?).tapeSize :=
    tapeSize_resolve_congr hoption hsize (hfile readTapeSize? tapeSizeKey)
  have hsameQuiet : (resolve sizeOption quietOption env files dir?).quiet =
      (resolve sizeOption' quietOption env' files dir?).quiet :=
    quiet_resolve_congr (fun _ => Iff.rfl) hquiet (hfile readSwitch? quietKey)
  exact congrArg₂ Settings.mk hsameSize hsameQuiet

/-! ### Layers that give nothing -/

/-- A tape size of zero is as good as none. -/
theorem resolve_of_not_optionGives (h : ∀ n, ¬OptionGives sizeOption n) :
    resolve sizeOption quietOption env files dir? =
      resolve none quietOption env files dir? := by
  have hnone : ∀ n, ¬OptionGives none n := by
    rintro n ⟨hoption, -⟩
    cases hoption
  exact resolve_congr (fun n => iff_of_false (h n) (hnone n)) (fun _ => Iff.rfl)
    (fun _ => Iff.rfl) rfl

theorem not_variableGives_none {α : Type} {read? : List Char → Option α} (a : α) :
    ¬VariableGives read? none a := by
  rintro ⟨bytes, -, hraw, -⟩
  cases hraw

/-- A variable that does not read as a tape size is as good as none. -/
theorem resolve_of_unreadable_size (h : ∀ n, ¬VariableGives readTapeSize? env.tapeSize n) :
    resolve sizeOption quietOption env files dir? =
      resolve sizeOption quietOption { env with tapeSize := none } files dir? :=
  resolve_congr (fun _ => Iff.rfl) (fun n => iff_of_false (h n) (not_variableGives_none n))
    (fun _ => Iff.rfl) rfl

/-- A variable that does not read as a switch is as good as none. -/
theorem resolve_of_unreadable_quiet (h : ∀ b, ¬VariableGives readSwitch? env.quiet b) :
    resolve sizeOption quietOption env files dir? =
      resolve sizeOption quietOption { env with quiet := none } files dir? :=
  resolve_congr (fun _ => Iff.rfl) (fun _ => Iff.rfl)
    (fun b => iff_of_false (h b) (not_variableGives_none b)) rfl

/-- A file that cannot be had gives nothing. -/
theorem not_fileGives_of_error {α : Type} {read? : List Char → Option α} {key : List Char}
    (error : IoError) (a : α) : ¬FileGives read? key env (fun _ => .error error) dir? a := by
  rintro ⟨text, value, ⟨path, content, hpath, hcontent, hdecode⟩, hlast, hread⟩
  cases hcontent

/-- To the tape size, a file that does not give one is as good as none. -/
theorem tapeSize_of_not_fileGives (error : IoError)
    (h : ∀ n, ¬FileGives readTapeSize? tapeSizeKey env files dir? n) :
    (resolve sizeOption quietOption env files dir?).tapeSize =
      (resolve sizeOption quietOption env (fun _ => .error error) dir?).tapeSize :=
  tapeSize_resolve_congr (fun _ => Iff.rfl) (fun _ => Iff.rfl)
    fun n => iff_of_false (h n) (not_fileGives_of_error error n)

/-- To the quiet switch, a file that does not give one is as good as none. -/
theorem quiet_of_not_fileGives (error : IoError)
    (h : ∀ b, ¬FileGives readSwitch? quietKey env files dir? b) :
    (resolve sizeOption quietOption env files dir?).quiet =
      (resolve sizeOption quietOption env (fun _ => .error error) dir?).quiet :=
  quiet_resolve_congr (fun _ => Iff.rfl) (fun _ => Iff.rfl)
    fun b => iff_of_false (h b) (not_fileGives_of_error error b)

/-! ### Layers that hide others -/

/-- A tape size that the option gives hides all others. -/
theorem tapeSize_of_optionGives {n : Nat} (h : OptionGives sizeOption n) :
    (resolve sizeOption quietOption env files dir?).tapeSize = n :=
  tapeSize_resolve_iff.2 (.inl h)

/-- A tape size that the variable gives hides the file, where the option gives none. -/
theorem tapeSize_of_variableGives {n : Nat} (hoption : ∀ m, ¬OptionGives sizeOption m)
    (h : VariableGives readTapeSize? env.tapeSize n) :
    (resolve sizeOption quietOption env files dir?).tapeSize = n :=
  tapeSize_resolve_iff.2 (.inr ⟨hoption, .inl h⟩)

/-- The flag hides all else that is said of quiet. -/
theorem quiet_of_flag : (resolve sizeOption true env files dir?).quiet = true :=
  quiet_resolve_iff.2 (.inl ⟨rfl, rfl⟩)

/-- A switch that the variable gives hides the file, where the flag is left out. -/
theorem quiet_of_variableGives {b : Bool} (h : VariableGives readSwitch? env.quiet b) :
    (resolve sizeOption false env files dir?).quiet = b := by
  have hflag : ∀ b, ¬FlagGives false b := by
    rintro b ⟨h, -⟩
    cases h
  exact quiet_resolve_iff.2 (.inr ⟨hflag, .inl h⟩)

/-- **The first layer with a value that can be read counts**, for the tape size and for the quiet
switch, and if there is none, the default does. So there is no tape of no cells.

A zero, or a value that cannot be read, does what leaving it out does. A value that can be read
hides whatever is in the layers below. Neither setting depends on what the layers have for the
other one. -/
theorem first_valid_layer_counts (sizeOption : Option Nat) (quietOption : Bool)
    (env : Environment) (files : Files) (dir? : Option Path) :
    let settings := resolve sizeOption quietOption env files dir?
    ((∀ n, settings.tapeSize = n ↔
        FirstGives 30000 (sizeLayers sizeOption env files dir?) n) ∧
      (∀ b, settings.quiet = b ↔
        FirstGives false (quietLayers quietOption env files dir?) b) ∧
      0 < settings.tapeSize ∧ (Tape.blank settings.tapeSize).capacity = settings.tapeSize) ∧
    -- what cannot be read is as good as left out
    (((∀ n, ¬OptionGives sizeOption n) →
        settings = resolve none quietOption env files dir?) ∧
      ((∀ n, ¬VariableGives readTapeSize? env.tapeSize n) →
        settings = resolve sizeOption quietOption { env with tapeSize := none } files dir?) ∧
      ((∀ b, ¬VariableGives readSwitch? env.quiet b) →
        settings = resolve sizeOption quietOption { env with quiet := none } files dir?) ∧
      ∀ error, ((∀ n, ¬FileGives readTapeSize? tapeSizeKey env files dir? n) →
          settings.tapeSize =
            (resolve sizeOption quietOption env (fun _ => .error error) dir?).tapeSize) ∧
        ((∀ b, ¬FileGives readSwitch? quietKey env files dir? b) →
          settings.quiet =
            (resolve sizeOption quietOption env (fun _ => .error error) dir?).quiet)) ∧
    -- what can be read hides the layers below
    ((∀ n, OptionGives sizeOption n → ∀ quietOption' env' files' dir?',
        (resolve sizeOption quietOption' env' files' dir?').tapeSize = n) ∧
      (∀ n, (∀ m, ¬OptionGives sizeOption m) → VariableGives readTapeSize? env.tapeSize n →
        ∀ quietOption' env' files' dir?', env'.tapeSize = env.tapeSize →
          (resolve sizeOption quietOption' env' files' dir?').tapeSize = n) ∧
      (quietOption = true → ∀ sizeOption' env' files' dir?',
        (resolve sizeOption' quietOption env' files' dir?').quiet = true) ∧
      ∀ b, quietOption = false → VariableGives readSwitch? env.quiet b →
        ∀ sizeOption' env' files' dir?', env'.quiet = env.quiet →
          (resolve sizeOption' quietOption env' files' dir?').quiet = b) ∧
    -- neither setting matters to the other
    (∀ quietOption' env' files' dir?', env'.tapeSize = env.tapeSize →
      (∀ n, FileGives readTapeSize? tapeSizeKey env' files' dir?' n ↔
        FileGives readTapeSize? tapeSizeKey env files dir? n) →
      (resolve sizeOption quietOption' env' files' dir?').tapeSize = settings.tapeSize) ∧
    ∀ sizeOption' env' files' dir?', env'.quiet = env.quiet →
      (∀ b, FileGives readSwitch? quietKey env' files' dir?' b ↔
        FileGives readSwitch? quietKey env files dir? b) →
      (resolve sizeOption' quietOption env' files' dir?').quiet = settings.quiet := by
  intro settings
  have hpos : 0 < settings.tapeSize := tapeSize_resolve_pos ..
  have hcapacity : (Tape.blank settings.tapeSize).capacity = settings.tapeSize := by
    unfold Tape.capacity Tape.blank
    rw [Array.size_replicate]
    omega
  refine ⟨⟨fun _ => tapeSize_resolve_iff, fun _ => quiet_resolve_iff, hpos, hcapacity⟩,
    ⟨resolve_of_not_optionGives, resolve_of_unreadable_size, resolve_of_unreadable_quiet,
      fun error => ⟨tapeSize_of_not_fileGives error, quiet_of_not_fileGives error⟩⟩,
    ⟨?_, ?_, ?_, ?_⟩, ?_, ?_⟩
  · intro n h quietOption' env' files' dir?'
    exact tapeSize_of_optionGives h
  · intro n hoption h quietOption' env' files' dir?' henv
    rw [← henv] at h
    exact tapeSize_of_variableGives hoption h
  · rintro rfl sizeOption' env' files' dir?'
    exact quiet_of_flag
  · rintro b rfl h sizeOption' env' files' dir?' henv
    rw [← henv] at h
    exact quiet_of_variableGives h
  · intro quietOption' env' files' dir?' henv hfile
    exact tapeSize_resolve_congr (fun _ => Iff.rfl) (fun _ => by rw [henv]) hfile
  · intro sizeOption' env' files' dir?' henv hfile
    exact quiet_resolve_congr (fun _ => Iff.rfl) (fun _ => by rw [henv]) hfile

/-- Zeros, bytes that are no text and words that cannot be read are left out. What the options give
hides the variables, and what the variables give hides a file. Where the options and the variables
give nothing, the file does, unless another file is named. -/
theorem first_valid_layer_counts_of_junk_and_of_values :
    let junk : Environment :=
      { config := some [98], tapeSize := some [0xFF], quiet := some (Path.ofString "maybe") }
    let words : Environment :=
      { config := some [98], tapeSize := some (Path.ofString " 6_4"),
        quiet := some (Path.ofString "Off") }
    let poor : Files := fun _ => .ok "[interpreter]\ntape_size = 0\nquiet = 2".toUTF8.data
    let rich : Files := fun _ => .ok "[interpreter]\ntape_size = 9\nquiet = on".toUTF8.data
    let missing : Files := fun _ => .error (.bare .notFound)
    let kept : Files := fun path =>
      if path = Path.ofString "c/bf.toml" then rich path else missing path
    let left := resolve (some 0) false junk poor none
    ((∀ n, ¬OptionGives (some 0) n) ∧ (∀ n, ¬VariableGives readTapeSize? junk.tapeSize n) ∧
      (∀ b, ¬VariableGives readSwitch? junk.quiet b) ∧
      (∀ n, ¬FileGives readTapeSize? tapeSizeKey junk poor none n) ∧
      (∀ b, ¬FileGives readSwitch? quietKey junk poor none b) ∧
      left = resolve none false junk poor none ∧
      left = resolve (some 0) false { junk with tapeSize := none } poor none ∧
      left = resolve (some 0) false { junk with quiet := none } poor none ∧
      left.tapeSize = (resolve (some 0) false junk missing none).tapeSize ∧
      left.quiet = (resolve (some 0) false junk missing none).quiet) ∧
    (OptionGives (some 7) 7 ∧ VariableGives readTapeSize? words.tapeSize 64 ∧
      VariableGives readSwitch? words.quiet false ∧
      resolve (some 7) true words rich none = ⟨7, true⟩ ∧
      resolve (some 0) false words rich none = ⟨64, false⟩) ∧
    ((resolve (some 0) true { words with quiet := none } rich none).tapeSize =
        (resolve (some 0) false words rich none).tapeSize ∧
      (resolve (some 7) false { words with tapeSize := none } rich none).quiet =
        (resolve (some 0) false words rich none).quiet) ∧
    FileGives readTapeSize? tapeSizeKey {} kept (some [99]) 9 ∧
      FileGives readSwitch? quietKey {} kept (some [99]) true ∧
      resolve none false {} kept (some [99]) = ⟨9, true⟩ ∧
      resolve none false { config := some [98] } kept (some [99]) = ⟨30000, false⟩ := by
  intro junk words poor rich missing kept left
  have hoption : ∀ n, ¬OptionGives (some 0) n := by
    rintro n ⟨h, hpos⟩
    cases h
    exact Nat.lt_irrefl 0 hpos
  have hnone : ∀ n, ¬OptionGives none n := by
    rintro n ⟨h, -⟩
    cases h
  have hflag : ∀ b, ¬FlagGives false b := by
    rintro b ⟨h, -⟩
    cases h
  have hsize : ∀ n, ¬VariableGives readTapeSize? junk.tapeSize n := by
    intro n
    rw [← bind_text?_eq_some_iff]
    exact ne_of_eq_of_ne (by decide +kernel) (Option.some_ne_none n).symm
  have hquiet : ∀ b, ¬VariableGives readSwitch? junk.quiet b := by
    intro b
    rw [← bind_text?_eq_some_iff]
    exact ne_of_eq_of_ne (by decide +kernel) (Option.some_ne_none b).symm
  have hfileSize : ∀ n, ¬FileGives readTapeSize? tapeSizeKey junk poor none n := by
    intro n
    rw [← tapeSize_ofFile_eq_some_iff]
    exact ne_of_eq_of_ne (by decide +kernel) (Option.some_ne_none n).symm
  have hfileQuiet : ∀ b, ¬FileGives readSwitch? quietKey junk poor none b := by
    intro b
    rw [← quiet_ofFile_eq_some_iff]
    exact ne_of_eq_of_ne (by decide +kernel) (Option.some_ne_none b).symm
  have hseven : OptionGives (some 7) 7 := ⟨rfl, by decide⟩
  have hwordsSize : VariableGives readTapeSize? words.tapeSize 64 := by
    rw [← bind_text?_eq_some_iff]
    decide +kernel
  have hwordsQuiet : VariableGives readSwitch? words.quiet false := by
    rw [← bind_text?_eq_some_iff]
    decide +kernel
  have hkeptSize : FileGives readTapeSize? tapeSizeKey {} kept (some [99]) 9 := by
    rw [← tapeSize_ofFile_eq_some_iff]
    decide +kernel
  have hkeptQuiet : FileGives readSwitch? quietKey {} kept (some [99]) true := by
    rw [← quiet_ofFile_eq_some_iff]
    decide +kernel
  have hno {α : Type} (read? : List Char → Option α) (key : List Char) (a : α) :
      ¬FileGives read? key { config := some [98] } kept (some [99]) a := by
    rintro ⟨text, value, ⟨path, content, hpath, hcontent, -⟩, -⟩
    -- the file that is named is another one
    rw [← configPath?_eq_some_iff] at hpath
    cases hpath
    have hmissing : kept [98] = .error (.bare .notFound) := if_neg (by decide +kernel)
    rw [hmissing] at hcontent
    cases hcontent
  obtain ⟨-, ⟨hleftOption, hleftSize, hleftQuiet, hleftFile⟩, -, -, -⟩ :=
    first_valid_layer_counts (some 0) false junk poor none
  obtain ⟨-, -, ⟨hhidesOption, -, hhidesFlag, -⟩, -, -⟩ :=
    first_valid_layer_counts (some 7) true words rich none
  obtain ⟨-, -, ⟨-, hhidesSize, -, hhidesQuiet⟩, hapartSize, hapartQuiet⟩ :=
    first_valid_layer_counts (some 0) false words rich none
  obtain ⟨⟨hsizes, hswitches, -⟩, -⟩ := first_valid_layer_counts none false {} kept (some [99])
  obtain ⟨⟨hsizes', hswitches', -⟩, -⟩ :=
    first_valid_layer_counts none false { config := some [98] } kept (some [99])
  refine ⟨⟨hoption, hsize, hquiet, hfileSize, hfileQuiet, hleftOption hoption, hleftSize hsize,
    hleftQuiet hquiet, (hleftFile _).1 hfileSize, (hleftFile _).2 hfileQuiet⟩,
    ⟨hseven, hwordsSize, hwordsQuiet, ?_, ?_⟩, ⟨?_, ?_⟩, hkeptSize, hkeptQuiet, ?_, ?_⟩
  · exact congrArg₂ Settings.mk (hhidesOption 7 hseven true words rich none)
      (hhidesFlag rfl (some 7) words rich none)
  · exact congrArg₂ Settings.mk (hhidesSize 64 hoption hwordsSize false words rich none rfl)
      (hhidesQuiet false rfl hwordsQuiet (some 0) words rich none rfl)
  · exact hapartSize true _ rich none rfl fun _ => Iff.rfl
  · exact hapartQuiet (some 7) _ rich none rfl fun _ => Iff.rfl
  · exact congrArg₂ Settings.mk
      ((hsizes 9).2 (.inr ⟨hnone, .inr ⟨not_variableGives_none, .inl hkeptSize⟩⟩))
      ((hswitches true).2 (.inr ⟨hflag, .inr ⟨not_variableGives_none, .inl hkeptQuiet⟩⟩))
  · exact congrArg₂ Settings.mk
      ((hsizes' 30000).2 (.inr ⟨hnone, .inr ⟨not_variableGives_none, .inr ⟨hno _ _, rfl⟩⟩⟩))
      ((hswitches' false).2 (.inr ⟨hflag, .inr ⟨not_variableGives_none, .inr ⟨hno _ _, rfl⟩⟩⟩))

end Settings

end Brainfuck
