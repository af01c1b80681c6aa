import ElementBridge.Config
import ElementBridge.Disk
import ElementBridge.Text.Letter

namespace ElementBridge

namespace HostClass

open Text

def strip? : List Char → List Char → Option (List Char)
  | [], text => some text
  | _ :: _, [] => none
  | a :: rest, b :: text => if a == b then strip? rest text else none

theorem eq_of_strip? {word text rest : List Char} (h : strip? word text = some rest) :
    text = word ++ rest := by
  induction word generalizing text with
  | nil => simpa [strip?] using h
  | cons a word ih =>
      cases text with
      | nil => simp [strip?] at h
      | cons b text =>
          simp only [strip?] at h
          split at h
          · next hab => rw [ih h, eq_of_beq hab]; rfl
          · simp at h

def skipBlanks? : List Char → Option (List Char)
  | c :: text => if isWhiteSpace c then some (text.dropWhile isWhiteSpace) else none
  | [] => none

def isWordAt : Option Char → Bool
  | some c => isWordLetter c
  | none => false

def startsWithBase (bases : List String) (before : Char) (text : List Char) : Bool :=
  bases.any fun base =>
    match strip? base.toList text with
    | some rest => isWordAt ((base.toList.getLast?).getD before) != isWordAt rest.head?
    | none => false

/-- A base behind at least one blank. A base may start with blanks of its own. -/
def baseFollows (bases : List String) : List Char → Bool
  | c :: text => isWhiteSpace c && (startsWithBase bases c text || baseFollows bases text)
  | [] => false

def skipName? : List Char → Option (List Char)
  | c :: text =>
      if isNameStart c then some (text.dropWhile fun d => isWordLetter d || d == '$') else none
  | [] => none

def startsAt (bases : List String) (text : List Char) : Bool :=
  match strip? "class".toList text with
  | none => false
  | some text =>
      match (((skipBlanks? text).bind skipName?).bind skipBlanks?).bind
          (strip? "extends".toList) with
      | some text => baseFollows bases text
      | none => false

/-- Whether the head of a class that extends one of the bases stands anywhere, be it in a comment or
behind other letters. -/
def occurs (bases : List String) : List Char → Bool
  | [] => false
  | c :: text => startsAt bases (c :: text) || occurs bases text

end HostClass

def isCandidateName (p : Path) : Bool :=
  let name := p.fileName?.getD ""
  Path.hasSuffix ".ts" name && !Path.hasSuffix ".d.ts" name && !Path.hasSuffix "_test.ts" name

/-- A file that cannot be read counts, so that the failure is reported. -/
def declaresComponent (config : Config) (disk : Disk) (p : Path) : Bool :=
  match disk.readText p with
  | .ok text => HostClass.occurs config.hostElementBases text.toList
  | .error _ => true

def sourcesBelow (config : Config) (disk : Disk) (directory : Path) : List Path :=
  (disk.walk directory).filter fun p => isCandidateName p && declaresComponent config disk p

def collectSources (config : Config) (disk : Disk) (paths : List Path) : List Path :=
  paths.flatMap fun p => if disk.isDirectory p then sourcesBelow config disk p else [p]

end ElementBridge
