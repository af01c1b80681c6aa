import ElementBridge.Config
import ElementBridge.Text.Letter

namespace ElementBridge

namespace CommandLine

inductive Flag where
  | force
  | silence
  | check
  | json
deriving DecidableEq, Repr

inductive Setting where
  | config
  | jobs
deriving DecidableEq, Repr

inductive Misuse where
  | unknownOption (word : String)
  | repeated (word : String)
  | valueMissing (word : String)
  | valueUnneeded (word : String)
  | badValue (word : String)
  | noPaths
deriving DecidableEq, Repr

def Misuse.message : Misuse → String
  | .unknownOption word => "unexpected argument '" ++ word ++ "'"
  | .repeated word => "'" ++ word ++ "' cannot be used multiple times"
  | .valueMissing word => "'" ++ word ++ "' requires a value"
  | .valueUnneeded word => "'" ++ word ++ "' takes no value"
  | .badValue word => "invalid value '" ++ word ++ "'"
  | .noPaths => "no paths are given"

inductive Word where
  | path
  | endOfOptions
  | flag (f : Flag)
  | setting (s : Setting) (value : Option String)
  | help
  | version
  | misuse (m : Misuse)
deriving DecidableEq, Repr

def bare (word : String) (value : Option String) (w : Word) : Word :=
  match value with
  | none => w
  | some _ => .misuse (.valueUnneeded word)

def longWord (word name : String) (value : Option String) : Word :=
  match name with
  | "force-rewriting" => bare word value (.flag .force)
  | "silence-output" | "silent" => bare word value (.flag .silence)
  | "check" => bare word value (.flag .check)
  | "json" => bare word value (.flag .json)
  | "config" => .setting .config value
  | "jobs" => .setting .jobs value
  | "help" => bare word value .help
  | "version" => bare word value .version
  | _ => .misuse (.unknownOption word)

def splitValue (text : List Char) : String × Option String :=
  (String.ofList (text.takeWhile (· != '=')),
    match text.dropWhile (· != '=') with
    | [] => none
    | _ :: value => some (String.ofList value))

def wordOf (word : String) : Word :=
  match word.toList with
  | ['-', '-'] => .endOfOptions
  | '-' :: '-' :: text => longWord word (splitValue text).1 (splitValue text).2
  | ['-'] => .path
  | '-' :: 'h' :: _ => .help
  | '-' :: 'V' :: _ => .version
  | ['-', 'j'] => .setting .jobs none
  | '-' :: 'j' :: '=' :: value => .setting .jobs (some (String.ofList value))
  | '-' :: 'j' :: value => .setting .jobs (some (String.ofList value))
  | '-' :: _ => .misuse (.unknownOption word)
  | _ => .path

structure Request where
  paths : List Path
  options : WriteOptions
  json : Bool
  config? : Option Path
  jobs? : Option Nat
deriving DecidableEq, Repr

namespace Request

def empty : Request := ⟨[], .standard, false, none, none⟩

def hasFlag (r : Request) : Flag → Bool
  | .force => r.options.forceRewriting
  | .silence => r.options.silenceOutput
  | .check => r.options.check
  | .json => r.json

def raise (r : Request) : Flag → Request
  | .force => { r with options := { r.options with forceRewriting := true } }
  | .silence => { r with options := { r.options with silenceOutput := true } }
  | .check => { r with options := { r.options with check := true } }
  | .json => { r with json := true }

def setFlag (r : Request) (word : String) (f : Flag) : Except Misuse Request :=
  if r.hasFlag f then .error (.repeated word) else .ok (r.raise f)

def addPath (r : Request) (word : String) : Except Misuse Request :=
  if word == "" then .error (.badValue word) else .ok { r with paths := r.paths ++ [⟨word⟩] }

def count? (word : String) : Option Nat :=
  let digits := match word.toList with
    | '+' :: rest => rest
    | text => text
  if digits.isEmpty || !digits.all Text.isDigit then none
  else
    let n := digits.foldl (fun n c => 10 * n + (c.toNat - '0'.toNat)) 0
    if n ≤ 0xFFFFFFFFFFFFFFFF then some n else none

def set (r : Request) (word : String) : Setting → String → Except Misuse Request
  | .config, value =>
      if r.config?.isSome then .error (.repeated word)
      else if value == "" then .error (.badValue value)
      else .ok { r with config? := some ⟨value⟩ }
  | .jobs, value =>
      if r.jobs?.isSome then .error (.repeated word)
      else match count? value with
        | some n => .ok { r with jobs? := some n }
        | none => .error (.badValue value)

end Request

inductive Invocation where
  | help
  | version
  | batch (r : Request)
deriving DecidableEq, Repr

def conclude (r : Request) : Except Misuse Invocation :=
  if r.paths.isEmpty then .error .noPaths else .ok (.batch r)

/-- A word that opens with a dash is no value, unless it is the dash alone. -/
def isValue (word : String) : Bool := word == "-" || word.toList.head? != some '-'

/-- Reads words from left to right. The first that is a mistake or asks for information decides. -/
def read : List String → Request → Except Misuse Invocation
  | [], r => conclude r
  | word :: rest, r =>
      match wordOf word with
      | .path => do read rest (← r.addPath word)
      | .endOfOptions => do conclude (← rest.foldlM Request.addPath r)
      | .flag f => do read rest (← r.setFlag word f)
      | .setting s (some value) => do read rest (← r.set word s value)
      | .setting s none =>
          match rest with
          | value :: rest =>
              if isValue value then do read rest (← r.set word s value)
              else .error (.valueMissing word)
          | [] => .error (.valueMissing word)
      | .help => .ok .help
      | .version => .ok .version
      | .misuse m => .error m

def Invocation.ofWords (words : List String) : Except Misuse Invocation := read words .empty

end CommandLine

end ElementBridge
