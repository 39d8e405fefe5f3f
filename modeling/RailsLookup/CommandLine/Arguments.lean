import RailsLookup.Text.Digits

/-! # Command-line arguments

Arguments are read from left to right, and the first that is wrong or that asks for help or for
the version decides. Options may stand before and between values; after a double dash
everything is a value.
-/

namespace RailsLookup.CommandLine

structure LocateArguments where
  file : Text
  line : Nat
  column : Nat
  workspace? : Option Text := none
  deriving DecidableEq, Repr

inductive Invocation where
  | serve
  | locate (a : LocateArguments)
  | version
  | help
  | misuse
  deriving DecidableEq, Repr

inductive Flag where
  | verbose
  | workspace
  | help
  | version
  deriving DecidableEq, Repr

structure Level where
  flags : List Flag
  takesValues : Bool := false

def Level.general : Level := ⟨[.verbose, .help, .version], false⟩

def Level.serve : Level := ⟨[.verbose, .help], false⟩

def Level.locate : Level := ⟨[.verbose, .help, .workspace], true⟩

/-- An argument with a dash in front: its flags, where unknown ones are `none`, and the value that
is written in it. -/
structure Switches where
  flags : List (Option Flag)
  value? : Option Text := none

namespace Switches

def long (t : Text) : Switches :=
  let flag? : Option Flag :=
    match String.ofList (t.takeWhile (· != '=')) with
    | "verbose" => some .verbose
    | "workspace" => some .workspace
    | "help" => some .help
    | "version" => some .version
    | _ => none
  { flags := [flag?]
    value? := if t.contains '=' then some ((t.dropWhile (· != '=')).drop 1) else none }

/-- Flags of one letter. What follows the letter of the workspace is its value, perhaps after an
equals sign. -/
def short : Text → Switches
  | [] => ⟨[], none⟩
  | 'w' :: rest =>
    { flags := [some .workspace]
      value? :=
        match rest with
        | [] => none
        | '=' :: value => some value
        | value => some value }
  | c :: rest =>
    let flag? : Option Flag :=
      match c with
      | 'v' => some .verbose
      | 'h' => some .help
      | 'V' => some .version
      | _ => none
    let later := short rest
    { later with flags := flag? :: later.flags }

def ofArgument? : Text → Option Switches
  | '-' :: '-' :: c :: rest => some (long (c :: rest))
  | ['-', '-'] => none
  | '-' :: c :: rest => some (short (c :: rest))
  | _ => none

end Switches

structure Draft where
  verbose : Bool := false
  workspace? : Option Text := none
  file? : Option Text := none
  line? : Option Nat := none
  column? : Option Nat := none

namespace Draft

/-- A number of 32 bits. Zero may have a minus sign. -/
def number? (t : Text) : Option Nat :=
  match t with
  | '-' :: d :: ds => (Digits.number? 10 (d :: ds)).filter (· == 0)
  | _ => (Digits.natural? t).filter (· < 0x100000000)

def addValue (level : Level) (d : Draft) (t : Text) : Except Invocation Draft :=
  if !level.takesValues then .error .misuse
  else
    match d.file?, d.line?, d.column?, number? t with
    | none, _, _, _ => if t.isEmpty then .error .misuse else .ok { d with file? := some t }
    | _, none, _, some n => .ok { d with line? := some n }
    | _, some _, none, some n => .ok { d with column? := some n }
    | _, _, _, _ => .error .misuse

def setWorkspace (d : Draft) (t : Text) : Except Invocation Draft :=
  if t.isEmpty || d.workspace?.isSome then .error .misuse
  else .ok { d with workspace? := some t }

def takeFlags (level : Level) (d : Draft) : List (Option Flag) → Except Invocation Draft
  | [] => .ok d
  | none :: _ => .error .misuse
  | some flag :: rest =>
    if !level.flags.contains flag then .error .misuse
    else
      match flag with
      | .help => .error .help
      | .version => .error .version
      | .verbose =>
        if d.verbose then .error .misuse else { d with verbose := true }.takeFlags level rest
      | .workspace => d.takeFlags level rest

def takeSwitches (level : Level) (d : Draft) (s : Switches) : Except Invocation Draft :=
  if s.value?.isSome && s.flags.getLast? != some (some .workspace) then .error .misuse
  else d.takeFlags level s.flags

def read (level : Level) (d : Draft) : List Text → Except Invocation Draft
  | [] => .ok d
  | arg :: rest =>
    match Switches.ofArgument? arg with
    | none =>
      if arg = ['-', '-'] then rest.foldlM (addValue level) d
      else do (← d.addValue level arg).read level rest
    | some s => do
      let d ← d.takeSwitches level s
      if s.flags.getLast? = some (some .workspace) then
        match s.value?, rest with
        | some value, rest => (← d.setWorkspace value).read level rest
        | none, value :: rest =>
          if value = ['-', '-'] || (Switches.ofArgument? value).isSome then .error .misuse
          else (← d.setWorkspace value).read level rest
        | none, [] => .error .misuse
      else d.read level rest

def toLocate (d : Draft) : Invocation :=
  match d.file?, d.line?, d.column? with
  | some file, some line, some column =>
    .locate { file, line, column, workspace? := d.workspace? }
  | _, _, _ => .misuse

end Draft

namespace Invocation

def ofLevel (level : Level) (args : List Text) (f : Draft → Invocation) : Invocation :=
  match Draft.read level {} args with
  | .ok d => f d
  | .error i => i

def ofSubcommand (name : Text) (args : List Text) : Invocation :=
  match String.ofList name with
  | "serve" => ofLevel .serve args fun _ => .serve
  | "locate" => ofLevel .locate args Draft.toLocate
  | "help" =>
    if args.length ≤ 1 && args.all fun a => ["serve", "locate", "help"].contains (String.ofList a)
    then .help else .misuse
  | _ => .misuse

/-- Reads the options before the subcommand. Without a subcommand the server is run. -/
def read (d : Draft) : List Text → Invocation
  | [] => .serve
  | arg :: rest =>
    match Switches.ofArgument? arg with
    | some s =>
      match d.takeSwitches .general s with
      | .ok d => read d rest
      | .error i => i
    | none =>
      if arg = ['-', '-'] then if rest.isEmpty then .serve else .misuse
      else ofSubcommand arg rest

def ofArguments (args : List Text) : Invocation := read {} args

end Invocation

end RailsLookup.CommandLine
