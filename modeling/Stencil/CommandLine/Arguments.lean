import Stencil.Site.Load
import Stencil.Text.Digit
/-! The arguments of the command line: what they ask for, or what is wrong with them. -/
namespace Stencil.CommandLine

/-- What an argument can switch on or set. -/
inductive Switch where
  | help
  | data
  | templates
  | partials
  | workers
  | dryRun
  | verbose
deriving DecidableEq

def Switch.takesValue : Switch → Bool
  | .data | .templates | .partials | .workers => true
  | .help | .dryRun | .verbose => false

/-- Spellings of switches. -/
abbrev Spellings := List (Text × Switch)

/-- The spellings in front of the command. -/
def programSpellings : Spellings := [("-h", .help), ("--help", .help)]

/-- The spellings after the command. -/
def buildSpellings : Spellings :=
  [("-h", .help), ("--help", .help), ("--data", .data), ("--templates", .templates),
    ("--partials", .partials), ("--workers", .workers), ("--dry-run", .dryRun), ("-v", .verbose),
    ("--verbose", .verbose)]

/-- The spellings of a switch, as it is called in messages. -/
def Switch.label (s : Switch) : Text :=
  Text.join "/" ((buildSpellings.filter fun e => e.2 = s).map Prod.fst)

/-- What is wrong with the arguments. -/
inductive UsageProblem where
  | ambiguous (argument : Text) (candidates : List Text)
  | valueMissing (switch : Switch)
  | valueUnexpected (switch : Switch) (value : Text)
  | workersInvalid (value : Text)
  | commandUnknown (name : Text)
  | commandMissing
  | unrecognized (arguments : List Text)
deriving DecidableEq

def UsageProblem.message : UsageProblem → Text
  | .ambiguous argument candidates =>
    "ambiguous option: " ++ argument ++ " could match " ++ Text.join ", " candidates
  | .valueMissing switch => "argument " ++ switch.label ++ ": expected one argument"
  | .valueUnexpected switch value =>
    "argument " ++ switch.label ++ ": ignored explicit argument " ++ value.quoted
  | .workersInvalid value =>
    "argument " ++ Switch.label .workers ++ ": invalid int value: " ++ value.quoted
  | .commandUnknown name =>
    "argument command: invalid choice: " ++ name.quoted ++ " (choose from 'build')"
  | .commandMissing => "the following arguments are required: command"
  | .unrecognized arguments => "unrecognized arguments: " ++ Text.join " " arguments

/-- Why the arguments do not lead to a build: help was asked for, or they are wrong. The program in
front of a message names the command where the problem is with its arguments. -/
inductive Stop where
  | help
  | usage (program : Text) (problem : UsageProblem)

def programName : Text := "plantilla"
def buildName : Text := "build"

/-- What an argument looks like. A switch has the text that is attached to it in the same argument, if
there is one. All arguments after the separator are plain. -/
inductive Reading where
  | plain
  | separator
  | switch (switch : Switch) (spelling : Text) (attached : Option Text)
  | unknown
deriving DecidableEq

def separatorText : Text := "--"

/-- Text before and after the first equals sign, if there is one. -/
def splitValue? (argument : Text) : Option (Text × Text) :=
  match Text.splitWhile (· ≠ '=') argument with
  | (name, _ :: value) => some (name, value)
  | (_, []) => none

/-- The switches that an argument may abbreviate. One that starts with two dashes may be cut short
before its value; of others, the first letter may be a switch and the rest more of them. -/
def candidates (spellings : Spellings) (argument : Text) : List (Switch × Text × Option Text) :=
  match argument with
  | '-' :: '-' :: _ =>
    let (name, attached) := match splitValue? argument with
      | some (name, value) => (name, some value)
      | none => (argument, none)
    (spellings.filter fun e => name.isPrefixOf e.1).map fun e => (e.2, e.1, attached)
  | _ =>
    spellings.filterMap fun e =>
      if e.1 = argument.take 2 then some (e.2, e.1, some (argument.drop 2))
      else if argument.isPrefixOf e.1 then some (e.2, e.1, none)
      else none

/-- A minus sign and digits, perhaps with a point before some of them. -/
def looksNegative (argument : Text) : Bool :=
  let isDigit (c : CodePoint) := (Text.digitValue? c).isSome
  match argument with
  | '-' :: body =>
    let body := if body.getLast? = some ↑ '\n' then body.dropLast else body
    match Text.splitWhile isDigit body with
    | (whole, []) => !whole.isEmpty
    | (_, '.' :: fraction) => !fraction.isEmpty && fraction.all isDigit
    | _ => false
  | _ => false

/-- What an argument in front of the separator looks like. -/
def readArgument (spellings : Spellings) (argument : Text) : Except UsageProblem Reading :=
  let named (name : Text) := (spellings.find? fun e => e.1 = name).map Prod.snd
  if argument.head? ≠ some ↑ '-' then .ok .plain
  else match named argument with
  | some switch => .ok (.switch switch argument none)
  | none =>
    if argument.length = 1 then .ok .plain
    else match (splitValue? argument).bind fun (name, value) =>
      (named name).map fun switch => Reading.switch switch name (some value) with
    | some reading => .ok reading
    | none => match candidates spellings argument with
      | [] =>
        if looksNegative argument || argument.contains ' ' then .ok .plain else .ok .unknown
      | [(switch, spelling, attached)] => .ok (.switch switch spelling attached)
      | several => .error (.ambiguous argument (several.map fun c => c.2.1))

/-- What all arguments look like. -/
def readArguments (spellings : Spellings) : List Text → Except UsageProblem (List (Text × Reading))
  | [] => .ok []
  | argument :: rest =>
    if argument = separatorText then
      .ok ((argument, .separator) :: rest.map fun plain => (plain, .plain))
    else match readArgument spellings argument with
      | .error problem => .error problem
      | .ok reading => (readArguments spellings rest).map fun others => (argument, reading) :: others

/-- The switches without values that a text of letters joins to the one before it. Each letter has to
name a switch; `text` is what is left behind `switch`. -/
def joinedSwitches (spellings : Spellings) (switch : Switch) (text : Text) :
    Except UsageProblem (List Switch) :=
  match text with
  | [] => .ok [switch]
  | c :: rest =>
    match spellings.find? fun e => e.1 = [↑ '-', c] with
    | none => .error (.valueUnexpected switch text)
    | some (_, next) => (joinedSwitches spellings next rest).map (switch :: ·)

/-- The switches that an argument for one without a value turns on. Only a single dash may have more
letters attached. -/
def switchesOf (spellings : Spellings) (switch : Switch) (spelling : Text)
    (attached : Option Text) : Except UsageProblem (List Switch) :=
  match attached with
  | none => .ok [switch]
  | some text =>
    if separatorText.isPrefixOf spelling || text.isEmpty then .error (.valueUnexpected switch text)
    else joinedSwitches spellings switch text

/-- What the arguments of a build have set so far, the switches whose value was the separator, which is
none, and the arguments that nobody asked for. -/
structure BuildArguments where
  config : SiteConfig
  verbose : Bool
  rootGiven : Bool
  notGiven : List Switch
  extras : List Text

namespace BuildArguments

def start : BuildArguments := ⟨{}, false, false, [], []⟩

def addExtra (b : BuildArguments) (argument : Text) : BuildArguments :=
  { b with extras := b.extras ++ [argument] }

def setRoot (b : BuildArguments) (root : Text) : BuildArguments :=
  { b with config := { b.config with root := .ofText root }, rootGiven := true }

/-- A switch with its value. A build has at least one worker. Their number may not have more digits than
an integer is read with. -/
def setGiven (b : BuildArguments) (switch : Switch) (value : Text) :
    Except UsageProblem BuildArguments :=
  match switch with
  | .data => .ok { b with config := { b.config with data := .ofText value } }
  | .templates => .ok { b with config := { b.config with templates := .ofText value } }
  | .partials => .ok { b with config := { b.config with partials := .ofText value } }
  | .workers => match (Text.readInt? value).filter fun _ => value.digitCount ≤ Text.digitLimit with
    | some n => .ok { b with config := { b.config with workers := max 1 n } }
    | none => .error (.workersInvalid value)
  | .help | .dryRun | .verbose => .error (.valueUnexpected switch value)

/-- A switch with what stands for its value. The last one of a switch counts. -/
def setValue (b : BuildArguments) (switch : Switch) (value : Text) :
    Except UsageProblem BuildArguments :=
  let others := b.notGiven.filter (· ≠ switch)
  if value = separatorText then .ok { b with notGiven := switch :: others }
  else { b with notGiven := others }.setGiven switch value

/-- Switches without values in order; nothing is set when help is asked for. -/
def turnOn (b : BuildArguments) : List Switch → Option BuildArguments
  | [] => some b
  | .help :: _ => none
  | .dryRun :: rest => { b with config := { b.config with dryRun := true } }.turnOn rest
  | .verbose :: rest => { b with verbose := true }.turnOn rest
  | _ :: rest => b.turnOn rest

end BuildArguments

def buildStop (problem : UsageProblem) : Stop := .usage (programName ++ " " ++ buildName) problem

/-- Reads the arguments of a build from left to right. The first plain one is the root; a separator
next to it, or in its place, says nothing. -/
def consume (b : BuildArguments) : List (Text × Reading) → Except Stop BuildArguments
  | [] => .ok b
  | (argument, .unknown) :: rest => consume (b.addExtra argument) rest
  | (_, .switch switch spelling attached) :: rest =>
    if switch.takesValue then
      match attached, rest with
      | some value, rest => match b.setValue switch value with
        | .error problem => .error (buildStop problem)
        | .ok b => consume b rest
      | none, (value, .plain) :: rest => match b.setValue switch value with
        | .error problem => .error (buildStop problem)
        | .ok b => consume b rest
      | none, _ => .error (buildStop (.valueMissing switch))
    else match switchesOf buildSpellings switch spelling attached with
      | .error problem => .error (buildStop problem)
      | .ok switches => match b.turnOn switches with
        | none => .error .help
        | some b => consume b rest
  | (argument, .separator) :: rest =>
    if b.rootGiven then consume (b.addExtra argument) rest
    else match rest with
      | (root, .plain) :: rest => consume (b.setRoot root) rest
      | rest => consume { b with rootGiven := true } rest
  | (argument, .plain) :: rest =>
    if b.rootGiven then consume (b.addExtra argument) rest
    else match rest with
      | (_, .separator) :: rest => consume (b.setRoot argument) rest
      | rest => consume (b.setRoot argument) rest

/-- Reads the arguments after the command. -/
def parseBuild (arguments : List Text) : Except Stop BuildArguments :=
  match readArguments buildSpellings arguments with
  | .error problem => .error (buildStop problem)
  | .ok readings => consume .start readings

/-- Reads the arguments up to the command, and those after it as the command asks. `extras` are those
in front of the command that nobody asked for. -/
def findCommand (extras : List Text) : List (Text × Reading) → Except Stop BuildArguments
  | [] | [(_, .separator)] => .error (.usage programName .commandMissing)
  | (argument, .unknown) :: rest => findCommand (extras ++ [argument]) rest
  | (_, .switch switch spelling attached) :: _ =>
    match switchesOf programSpellings switch spelling attached with
    | .error problem => .error (.usage programName problem)
    | .ok _ => .error .help
  | (command, _) :: rest =>
    if command = buildName then (parseBuild (rest.map Prod.fst)).map fun b =>
      { b with extras := extras ++ b.extras }
    else .error (.usage programName (.commandUnknown command))

/-- What the arguments ask for. -/
def parse (arguments : List Text) : Except Stop BuildArguments :=
  match readArguments programSpellings arguments with
  | .error problem => .error (.usage programName problem)
  | .ok readings => match findCommand [] readings with
    | .error stop => .error stop
    | .ok b =>
      if b.extras.isEmpty then .ok b else .error (.usage programName (.unrecognized b.extras))

end Stencil.CommandLine
