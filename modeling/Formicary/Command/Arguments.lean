/-!
# Command line arguments

Options start with two dashes and a name, or with one dash and letters. A value follows its option,
after an equals sign or as the next argument; that argument may not look like an option itself. All
other arguments are operands, and after two dashes alone every argument is. Arguments count from the
left: the first one that cannot stand where it does, or asks for help, ends the reading.
-/

namespace Formicary

/-- An option that a command knows. -/
structure OptionForm where
  name : String
  /-- The letter that stands for the option after a single dash. -/
  letter : Option Char
  takesValue : Bool

/-- One thing that was given to a command. -/
inductive Given where
  | flag (name : String)
  | value (name : String) (text : String)
  | operand (text : String)
  deriving DecidableEq

/-- Why a command does not run. -/
inductive Refusal where
  /-- Somebody asked how the command is used. -/
  | help
  /-- The command cannot be used like this. -/
  | misuse
  deriving DecidableEq

/-- The option that every command has. -/
def helpForm : OptionForm := ⟨"help", some 'h', false⟩

/-- What a single argument looks like. -/
inductive ArgumentForm where
  /-- Two dashes alone. -/
  | divider
  /-- A name after two dashes, and what follows an equals sign. -/
  | long (name : String) (value : Option String)
  /-- Letters after one dash. -/
  | letters (cs : List Char)
  | operand
  deriving DecidableEq

/-- What an argument looks like. A single dash alone is an operand. -/
def argumentForm (arg : String) : ArgumentForm :=
  match arg.toList with
  | ['-', '-'] => .divider
  | '-' :: '-' :: cs =>
    match cs.span (· != '=') with
    | (name, _ :: value) => .long (String.ofList name) (some (String.ofList value))
    | (name, []) => .long (String.ofList name) none
  | '-' :: c :: cs => .letters (c :: cs)
  | _ => .operand

/-- Reads the arguments of a command with a step that takes in one thing at a time. -/
structure ArgumentReader (σ : Type) where
  forms : List OptionForm
  /-- Takes in what was given, unless the command cannot be used like this. -/
  accept : σ → Given → Option σ

namespace ArgumentReader

variable {σ : Type} (r : ArgumentReader σ)

/-- Takes in what was given. -/
def take (s : σ) (g : Given) : Except Refusal σ :=
  match r.accept s g with
  | some s => .ok s
  | none => .error .misuse

/-- Takes in operands only. -/
def takeOperands (s : σ) (args : List String) : Except Refusal σ :=
  args.foldlM (fun s arg => r.take s (.operand arg)) s

/-- Takes in an option without a value. No option may be given twice. -/
def takeFlag (seen : List String) (s : σ) (form : OptionForm) : Except Refusal (List String × σ) :=
  if form.name = helpForm.name then .error .help
  else if form.takesValue || seen.contains form.name then .error .misuse
  else (r.take s (.flag form.name)).map (form.name :: seen, ·)

/-- Takes in an option with a value. No option may be given twice. -/
def takeValue (seen : List String) (s : σ) (form : OptionForm) (text : String) :
    Except Refusal (List String × σ) :=
  if !form.takesValue || seen.contains form.name then .error .misuse
  else (r.take s (.value form.name text)).map (form.name :: seen, ·)

/-- Takes in options given by their letters. -/
def takeLetters (seen : List String) (s : σ) : List Char → Except Refusal (List String × σ)
  | [] => .ok (seen, s)
  | c :: cs =>
    match (helpForm :: r.forms).find? (·.letter = some c) with
    | none => .error .misuse
    | some form =>
      match r.takeFlag seen s form with
      | .error refusal => .error refusal
      | .ok (seen, s) => takeLetters seen s cs

/-- Takes in all arguments from the left to the right. -/
def takeAll (seen : List String) (s : σ) : List String → Except Refusal σ
  | [] => .ok s
  | arg :: args =>
    match argumentForm arg with
    | .divider => r.takeOperands s args
    | .operand => do takeAll seen (← r.take s (.operand arg)) args
    | .letters cs => do
      let (seen, s) ← r.takeLetters seen s cs
      takeAll seen s args
    | .long name value =>
      match (helpForm :: r.forms).find? (·.name = name), value with
      | none, _ => .error .misuse
      | some form, some text => do
        let (seen, s) ← r.takeValue seen s form text
        takeAll seen s args
      | some form, none =>
        if form.takesValue then
          match args with
          | [] => .error .misuse
          | text :: args =>
            if argumentForm text = .operand then do
              let (seen, s) ← r.takeValue seen s form text
              takeAll seen s args
            else .error .misuse
        else do
          let (seen, s) ← r.takeFlag seen s form
          takeAll seen s args

/-- Reads arguments, starting from what holds when there are none. -/
def read (initial : σ) (args : List String) : Except Refusal σ :=
  r.takeAll [] initial args

end ArgumentReader

end Formicary
