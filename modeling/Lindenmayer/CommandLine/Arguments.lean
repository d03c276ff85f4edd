import Lindenmayer.CommandLine.Refusal
import Lindenmayer.Number.Entry

/-!
# Arguments

A program takes options and at most one operand. Each option has long names, with two dashes, and
short ones, with one dash and a single character. A long name may be cut short as long as no other
option is meant; its value stands after an equals sign or in the next argument. Short names may
share an argument; the value of the last one may follow it directly, and an equals sign after the
first one does not count. Two dashes attached to an option leave its value blank. After two dashes
alone all arguments belong to the operand. What an argument means is settled first, for all
arguments; then they are gone through from left to right, and each one changes the settings.
-/

namespace Lindenmayer.CommandLine

open Text

/-! ## Programs -/

/-- What stands for the value of an option. -/
inductive Given (α : Type) where
  | value (a : α)
  | blank
deriving DecidableEq, Repr

/-- What an option does to the settings. -/
inductive Effect (σ : Type) where
  | flag (set : σ → σ)
  | text (set : Given String → σ → σ)
  | integer (set : Given Int → σ → σ)
  | help

/-- An option. -/
structure Switch (σ : Type) where
  names : List String
  effect : Effect σ

/-- What a program takes besides options. -/
inductive Operand (σ : Type) where
  | optional (set : String → σ → σ)
  | required (name : String) (set : String → σ → σ)
  /-- One of several commands, which takes all further arguments; those that mean nothing to it are
  handed back. -/
  | command (name : String)
    (choices : List (String × (List String → σ → Except Halt (σ × List String))))

/-- A program. -/
structure Program (σ : Type) where
  name : String
  switches : List (Switch σ)
  operand : Operand σ

/-- An option that asks for help, which every program has. -/
def Switch.help {σ : Type} : Switch σ :=
  ⟨["-h", "--help"], .help⟩

/-! ## What arguments mean -/

/-- A reading of an argument as an option, with what else stands in the argument. -/
structure Reading (σ : Type) where
  name : String
  switch : Switch σ
  attached : Option (List Char)

/-- What an argument means. -/
inductive Token (σ : Type) where
  /-- Two dashes, after which there are no options. -/
  | separator
  /-- An argument for the operand or the value of an option. -/
  | word (text : String)
  /-- An option, known or not. -/
  | option (text : String) (reading : Option (Reading σ))

namespace Program

variable {σ : Type}

/-- All names of options with their options, in the order of declaration. -/
def names (program : Program σ) : List (String × Switch σ) :=
  program.switches.flatMap fun switch => switch.names.map (·, switch)

/-- Splits a text at its first equals sign. -/
def splitSign (text : List Char) : List Char × Option (List Char) :=
  match text.dropWhile (· != '=') with
  | [] => (text, none)
  | _ :: value => (text.takeWhile (· != '='), some value)

/-- Whether a text is a negative number without an exponent, possibly before a line feed. -/
def isNegativeNumber (text : List Char) : Bool :=
  match text with
  | '-' :: rest =>
    let number := if rest.getLast? == some '\n' then rest.dropLast else rest
    match number.dropWhile isDigit with
    | [] => !number.isEmpty
    | '.' :: fraction => !fraction.isEmpty && fraction.all isDigit
    | _ => false
  | _ => false

/-- The readings of an argument as an abbreviation, or as a short option with something attached. -/
def abbreviations (program : Program σ) (text : List Char) : List (Reading σ) :=
  match text with
  | '-' :: '-' :: _ =>
    let (front, value) := splitSign text
    program.names.filterMap fun (name, switch) =>
      if front.isPrefixOf name.toList then some ⟨name, switch, value⟩ else none
  | '-' :: c :: value =>
    program.names.filterMap fun (name, switch) =>
      if name.toList == ['-', c] then some ⟨name, switch, some value⟩ else none
  | _ => []

/-- What an argument means where options may stand. -/
def readArgument (program : Program σ) (argument : String) : Except Refusal (Token σ) :=
  let text := argument.toList
  match text with
  | '-' :: _ :: _ =>
    match program.names.lookup argument with
    | some switch => .ok (.option argument (some ⟨argument, switch, none⟩))
    | none =>
      let (front, value) := splitSign text
      let name := String.ofList front
      match value, program.names.lookup name with
      | some value, some switch => .ok (.option argument (some ⟨name, switch, some value⟩))
      | _, _ =>
        match program.abbreviations text with
        | [reading] => .ok (.option argument (some reading))
        | [] =>
          if isNegativeNumber text || text.contains ' ' then .ok (.word argument)
          else .ok (.option argument none)
        | readings => .error (.ambiguous argument (readings.map (·.name)))
  | _ => .ok (.word argument)

/-- What all arguments mean. -/
def readArguments (program : Program σ) : List String → Except Refusal (List (Token σ))
  | [] => .ok []
  | "--" :: rest => .ok (.separator :: rest.map .word)
  | argument :: rest => do
    let token ← program.readArgument argument
    return token :: (← program.readArguments rest)

end Program

/-- The argument behind a token. -/
def Token.text {σ : Type} : Token σ → String
  | separator => "--"
  | word text => text
  | option text _ => text

/-! ## Options -/

/-- What an argument with options asks for. -/
structure Cluster (σ : Type) where
  /-- The options, each with its value, which is empty if it takes none. -/
  settled : List (Switch σ × String) := []
  /-- A last option whose value is the next argument. -/
  awaiting : Option (Switch σ) := none

/-- Puts an option without a value in front. -/
def Cluster.push {σ : Type} (switch : Switch σ) (cluster : Cluster σ) : Cluster σ :=
  { cluster with settled := (switch, "") :: cluster.settled }

/-- Whether an option takes a value. -/
def Switch.takesValue {σ : Type} (switch : Switch σ) : Bool :=
  match switch.effect with
  | .text _ | .integer _ => true
  | .flag _ | .help => false

/-- An option with nothing attached. -/
def Cluster.single {σ : Type} (switch : Switch σ) : Cluster σ :=
  if switch.takesValue then { awaiting := some switch } else { settled := [(switch, "")] }

namespace Program

variable {σ : Type}

/-- What an option asks for with a text attached, which is its value if it takes one. Otherwise what
is attached to a short name begins with a further short name. -/
def attach (program : Program σ) (short : Bool) (switch : Switch σ) (text : List Char) :
    Except Refusal (Cluster σ) :=
  let needless := Refusal.needlessValue switch.names (String.ofList text)
  if switch.takesValue then .ok { settled := [(switch, String.ofList text)] }
  else
    match short, text with
    | true, c :: rest =>
      match program.names.lookup (String.ofList ['-', c]) with
      | none => .error needless
      | some next =>
        if rest.isEmpty then .ok ((Cluster.single next).push switch)
        else (·.push switch) <$> attach program true next rest
    | _, _ => .error needless
termination_by text.length

/-- What a reading asks for. -/
def clusterOf (program : Program σ) (reading : Reading σ) : Except Refusal (Cluster σ) :=
  match reading.attached with
  | none => .ok (Cluster.single reading.switch)
  | some text => program.attach (!reading.name.startsWith "--") reading.switch text

/-- What a text stands for as the value of an option. -/
def given (text : String) : Given String :=
  if text == "--" then .blank else .value text

/-- Changes the settings by an option. -/
def apply (program : Program σ) (settings : σ) (switch : Switch σ) (value : String) :
    Except Halt σ :=
  match switch.effect with
  | .flag set => .ok (set settings)
  | .text set => .ok (set (given value) settings)
  | .integer set =>
    match given value with
    | .blank => .ok (set .blank settings)
    | .value text =>
      match Entry.int? text.toList with
      | some i => .ok (set (.value i) settings)
      | none => .error (.refused program.name (.notInteger switch.names text))
  | .help => .error (.help program.name)

/-- Changes the settings by options, in order. -/
def applyAll (program : Program σ) (settings : σ) (options : List (Switch σ × String)) :
    Except Halt σ :=
  options.foldlM (fun settings (switch, value) => program.apply settings switch value) settings

end Program

/-! ## Going through the arguments -/

/-- How far a program has come with its arguments. -/
structure Progress (σ : Type) where
  settings : σ
  /-- Whether the operand is still to come. -/
  awaitsOperand : Bool := true
  /-- Arguments that mean nothing. -/
  leftover : List String := []

/-- Leaves arguments over. -/
def Progress.leave {σ : Type} (progress : Progress σ) (arguments : List String) : Progress σ :=
  { progress with leftover := progress.leftover ++ arguments }

namespace Program

variable {σ : Type}

/-- Fails with a refusal by the program. -/
def orRefuse {α : Type} (program : Program σ) (result : Except Refusal α) : Except Halt α :=
  result.mapError (.refused program.name)

/-- The word that tokens begin with. -/
def firstWord? : List (Token σ) → Option String
  | .word value :: _ => some value
  | _ => none

/-- Drops two dashes that tokens begin with. -/
def skipSeparator : List (Token σ) → List (Token σ)
  | .separator :: rest => rest
  | tokens => tokens

theorem length_skipSeparator_le (tokens : List (Token σ)) :
    (skipSeparator tokens).length ≤ tokens.length := by
  unfold skipSeparator
  split <;> simp

/-- Goes through tokens. Two dashes next to the operand do no more than set it off. -/
def walk (program : Program σ) (progress : Progress σ) (tokens : List (Token σ)) :
    Except Halt (Progress σ) :=
  match tokens with
  | [] => .ok progress
  | .option text none :: rest => program.walk (progress.leave [text]) rest
  | .option _ (some reading) :: rest => do
    let cluster ← program.orRefuse (program.clusterOf reading)
    match cluster.awaiting with
    | none =>
      let settings ← program.applyAll progress.settings cluster.settled
      program.walk { progress with settings } rest
    | some switch =>
      match firstWord? rest with
      | none => throw (.refused program.name (.missingValue switch.names))
      | some value =>
        let settings ← program.applyAll progress.settings (cluster.settled ++ [(switch, value)])
        program.walk { progress with settings } rest.tail
  | .separator :: rest =>
    match progress.awaitsOperand, program.operand, rest.isEmpty with
    | true, .optional _, _ | true, .required .., false => program.walk progress rest
    | true, .command name choices, false =>
      .error (.refused program.name (.notChoice name "--" (choices.map (·.1))))
    | _, _, _ => program.walk (progress.leave ["--"]) rest
  | .word value :: rest =>
    if progress.awaitsOperand then
      match program.operand with
      | .optional set | .required _ set =>
        let progress :=
          { progress with settings := set value progress.settings, awaitsOperand := false }
        program.walk progress (skipSeparator rest)
      | .command name choices => do
        match choices.lookup value with
        | none => throw (.refused program.name (.notChoice name value (choices.map (·.1))))
        | some run =>
          let (settings, leftover) ← run (rest.map Token.text) progress.settings
          return Progress.leave { progress with settings, awaitsOperand := false } leftover
    else program.walk (progress.leave [value]) rest
termination_by tokens.length
decreasing_by
  all_goals
    have := length_skipSeparator_le rest
    simp only [List.length_cons, List.length_tail]
    omega

/-- Changes settings by arguments. Answers also the arguments that mean nothing. -/
def run (program : Program σ) (arguments : List String) (settings : σ) :
    Except Halt (σ × List String) := do
  let tokens ← program.orRefuse (program.readArguments arguments)
  let progress ← program.walk { settings } tokens
  match progress.awaitsOperand, program.operand with
  | true, .required name _ | true, .command name _ =>
    throw (.refused program.name (.missingOperand name))
  | _, _ => return (progress.settings, progress.leftover)

/-- Changes settings by arguments, all of which must mean something. -/
def parse (program : Program σ) (arguments : List String) (settings : σ) : Except Halt σ := do
  match ← program.run arguments settings with
  | (settings, []) => return settings
  | (_, leftover) => throw (.refused program.name (.unrecognized leftover))

end Program

end Lindenmayer.CommandLine
