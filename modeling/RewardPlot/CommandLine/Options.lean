import RewardPlot.Run
/-!
# Command line options

The arguments of the program, which may be any bytes, are taken from left to right.  The
first one that does not fit, or that asks for help or the version, decides.
-/

namespace RewardPlot.CommandLine

structure Options where
  directory : Option Path := none
  output : Option Path := none
  manifest : Option Path := none
  title : Option String := none
  width : Option UInt32 := none
  height : Option UInt32 := none
  summary : Bool := false
  verbose : Bool := false
deriving DecidableEq

/-- What the arguments come to. -/
inductive Reading where
  | options (o : Options)
  | help
  | version
  | misuse
deriving DecidableEq

/-- An option that takes a value. -/
inductive Setting where
  | output
  | manifest
  | title
  | width
  | height
deriving DecidableEq, Repr

/-- An option without a value. -/
inductive Switch where
  | summary
  | verbose
  | help
  | version
deriving DecidableEq, Repr

/-- An option of either kind. -/
inductive Choice where
  | setting (s : Setting)
  | switch (s : Switch)
deriving DecidableEq, Repr

@[match_pattern]
def dash : UInt8 := 0x2D

@[match_pattern]
def equals : UInt8 := 0x3D

/-- What a table has for a name, if the name is in it. -/
private def lookUp (table : List (String × Choice)) (name : List UInt8) : Option Choice :=
  (table.find? fun (text, _) => Utf8.ofString text = name).map Prod.snd

def longChoice? (name : List UInt8) : Option Choice :=
  lookUp [("output", .setting .output), ("manifest", .setting .manifest),
    ("title", .setting .title), ("width", .setting .width), ("height", .setting .height),
    ("summary", .switch .summary), ("verbose", .switch .verbose), ("help", .switch .help),
    ("version", .switch .version)] name

def shortChoice? (letter : UInt8) : Option Choice :=
  lookUp [("o", .setting .output), ("v", .switch .verbose), ("h", .switch .help),
    ("V", .switch .version)] [letter]

/-- The digits of a whole number after an optional sign. -/
private def wholeNumber? (text : List Char) : Option Int :=
  let (negative, digits) := Numeral.takeSign text
  if digits ≠ [] ∧ digits.all Char.isDigit then
    let size : Int := Nat.ofDigitChars 10 digits 0
    some (if negative then -size else size)
  else none

def pixels? (value : List UInt8) : Option UInt32 :=
  ((Utf8.decode? value).bind wholeNumber?).bind fun n =>
    if 0 ≤ n ∧ n < 2 ^ 32 then some (.ofNat n.toNat) else none

def title? (value : List UInt8) : Option String := (Utf8.decode? value).map String.ofList

/-- A path, which may be any bytes but not empty. -/
def path? (value : List UInt8) : Option Path := if value = [] then none else some ⟨value⟩

private def once {α : Type} (old new : Option α) : Option (Option α) :=
  if old.isSome then none else new.map some

/-- Gives an option its value, once. -/
def Options.set? (o : Options) (s : Setting) (value : List UInt8) : Option Options :=
  match s with
  | .output => (once o.output (path? value)).map ({ o with output := · })
  | .manifest => (once o.manifest (path? value)).map ({ o with manifest := · })
  | .title => (once o.title (title? value)).map ({ o with title := · })
  | .width => (once o.width (pixels? value)).map ({ o with width := · })
  | .height => (once o.height (pixels? value)).map ({ o with height := · })

def Options.place? (o : Options) (value : List UInt8) : Option Options :=
  (once o.directory (path? value)).map ({ o with directory := · })

/-- Turns a switch on, once; help and the version end the reading. -/
def Options.switch? (o : Options) : Switch → Except Reading Options
  | .summary => if o.summary then .error .misuse else .ok { o with summary := true }
  | .verbose => if o.verbose then .error .misuse else .ok { o with verbose := true }
  | .help => .error .help
  | .version => .error .version

/-- What an argument leaves to be done. -/
inductive Step where
  | done (o : Options)
  /-- The next argument is the value of an option. -/
  | value (s : Setting) (o : Options)
  | stop (r : Reading)
deriving DecidableEq

private def Step.ofOption : Option Options → Step
  | some o => .done o
  | none => .stop .misuse

def takeLetters (o : Options) : List UInt8 → Step
  | [] => .done o
  | letter :: rest =>
    match shortChoice? letter with
    | none => .stop .misuse
    | some (.switch s) =>
      match o.switch? s with
      | .ok o => takeLetters o rest
      | .error r => .stop r
    | some (.setting s) =>
      match rest with
      | [] => .value s o
      | equals :: value => .ofOption (o.set? s value)
      | value => .ofOption (o.set? s value)

/-- Takes an argument after its two dashes: a name, and a value after an equals sign. -/
def takeLong (o : Options) (text : List UInt8) : Step :=
  let name := text.takeWhile (· != equals)
  match longChoice? name, text.dropWhile (· != equals) with
  | none, _ => .stop .misuse
  | some (.setting s), [] => .value s o
  | some (.setting s), _ :: value => .ofOption (o.set? s value)
  | some (.switch s), [] =>
    match o.switch? s with
    | .ok o => .done o
    | .error r => .stop r
  | some (.switch _), _ :: _ => .stop .misuse

def takeArgument (o : Options) : List UInt8 → Step
  | dash :: dash :: text => takeLong o text
  | dash :: letter :: text => takeLetters o (letter :: text)
  | text => .ofOption (o.place? text)

/-- Whether an argument is an option and no value. -/
def isOption : List UInt8 → Bool
  | dash :: _ :: _ => true
  | _ => false

def takePlain (o : Options) : List (List UInt8) → Reading
  | [] => .options o
  | text :: rest =>
    match o.place? text with
    | some o => takePlain o rest
    | none => .misuse

/-- Takes all arguments.  After two dashes alone there are no more options. -/
def takeArguments (o : Options) : List (List UInt8) → Reading
  | [] => .options o
  | text :: rest =>
    if text = [dash, dash] then takePlain o rest
    else
      match takeArgument o text with
      | .stop r => r
      | .done o => takeArguments o rest
      | .value s o =>
        match rest with
        | [] => .misuse
        | value :: rest =>
          if isOption value then .misuse
          else
            match o.set? s value with
            | some o => takeArguments o rest
            | none => .misuse

def read (arguments : List (List UInt8)) : Reading := takeArguments {} arguments

end RewardPlot.CommandLine
