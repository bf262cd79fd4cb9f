import StaticSite.Files.Tree
import StaticSite.Text.Quoted
import StaticSite.Text.Similarity

/-!
# Faults

Everything that can go wrong while a site is compiled or built, by cause. `Fault.kind` names the
cause and `Fault.message` words it; nothing else in the library words a fault.
-/

namespace StaticSite

/-- Codes by which faults of the engine can be looked up. -/
inductive ErrorCode
  | componentNotFound
  | producerError
  | componentDepth
  | assetNotFound
  deriving DecidableEq, Repr

namespace ErrorCode

def all : List ErrorCode := [componentNotFound, producerError, componentDepth, assetNotFound]

def name : ErrorCode → Text
  | componentNotFound => "COMPONENT_NOT_FOUND"
  | producerError => "PRODUCER_ERROR"
  | componentDepth => "COMPONENT_DEPTH"
  | assetNotFound => "ASSET_NOT_FOUND"

def value : ErrorCode → Text
  | componentNotFound => "H-CMP-001"
  | producerError => "H-CMP-002"
  | componentDepth => "H-CMP-003"
  | assetNotFound => "H-AST-001"

def docsBase : Text := "https://html-component-engine.dev/docs/errors"

def docsUrl (code : ErrorCode) : Text := docsBase ++ "/#" ++ code.value.map Char.toLower

def category : ErrorCode → Text
  | assetNotFound => "asset"
  | _ => "component"

def ofValue? (value : Text) : Option ErrorCode := all.find? (·.value = value)

end ErrorCode

namespace FileCause

def number : FileCause → Nat
  | missing => 2
  | ioError => 5
  | denied => 13
  | alreadyThere => 17
  | notFolder => 20
  | isFolder => 21
  | nameTooLong => 36

def kind : FileCause → Text
  | missing => "FileNotFoundError"
  | ioError => "OSError"
  | denied => "PermissionError"
  | alreadyThere => "FileExistsError"
  | notFolder => "NotADirectoryError"
  | isFolder => "IsADirectoryError"
  | nameTooLong => "OSError"

def description : FileCause → Text
  | missing => "No such file or directory"
  | ioError => "Input/output error"
  | denied => "Permission denied"
  | alreadyThere => "File exists"
  | notFolder => "Not a directory"
  | isFolder => "Is a directory"
  | nameTooLong => "File name too long"

end FileCause

inductive Fault
  | componentNotFound (identifier : Text) (searched available : List Text)
  | producerFailed (identifier : Text) (location : Option Text) (cause : Fault)
  | depthExceeded (identifier : Text) (maxDepth : Int) (stack : List Text)
  | assetNotFound (reference : Text) (candidates : List Text)
  | file (cause : FileCause) (path : Path)
  /-- A file was to be copied onto itself, or into the folder that holds it. -/
  | sameFile (source target : Path) (intoFolder : Bool)
  /-- A path holds the character that ends paths. -/
  | nullInPath
  | undecodable (fault : Text.DecodeFault)
  | missingKey (key : Text)
  | unknownCode (value : Text)
  /-- A pattern of file names with two stars that do not stand alone. -/
  | badPattern
  | namelessPath (path : Path)
  /-- Compiles nested in compiles beyond the limit. -/
  | nestedTooDeep
  | raised (kind message : Text)
  /-- A fault of a site's code that cannot be worded: wording it fails in turn. -/
  | unworded (kind : Text) (fault : Fault)
  /-- A request to stop the whole program, which nothing holds up. -/
  | stopped (kind message : Text)

namespace Fault

def kind : Fault → Text
  | componentNotFound .. => "ComponentNotFoundError"
  | producerFailed .. => "ComponentProducerError"
  | depthExceeded .. => "ComponentDepthError"
  | assetNotFound .. => "AssetNotFoundError"
  | file cause _ => cause.kind
  | sameFile .. => "SameFileError"
  | nullInPath => "ValueError"
  | undecodable _ => "UnicodeDecodeError"
  | missingKey _ => "KeyError"
  | unknownCode _ => "ValueError"
  | badPattern => "ValueError"
  | namelessPath _ => "ValueError"
  | nestedTooDeep => "RecursionError"
  | raised kind _ => kind
  | unworded kind _ => kind
  | stopped kind _ => kind

/-- The chain of components shown for a depth fault is cut to its last links. -/
def shownLinks : Nat := 5

def lastOf (n : Nat) (ts : List Text) : List Text := ts.drop (ts.length - n)

/-- A list after a lead, or nothing at all for an empty list. -/
def listing (lead mark : Text) (items : List Text) : Text :=
  if items.isEmpty then [] else lead ++ Text.join mark items

def suggestion : Option Text → Text
  | some candidate => ". Did you mean '" ++ candidate ++ "'?"
  | none => []

def placeNote : Option Text → Text
  | some place => if place.isEmpty then [] else " (" ++ place ++ ")"
  | none => []

def triedNote (candidates : List Text) : Text :=
  if candidates.isEmpty then [] else " (tried: " ++ Text.join ", " candidates ++ ")"

def quotedPath (p : Path) : Text := "PosixPath(" ++ Text.quoted p.text ++ ")"

def message : Fault → Text
  | componentNotFound identifier searched available =>
      "Component \"" ++ identifier ++ "\" not found" ++ listing " in: " ", " searched ++
        suggestion (Text.nearest? identifier available)
  | producerFailed identifier location cause =>
      "Component \"" ++ identifier ++ "\" producer failed" ++ placeNote location ++ ": " ++
        cause.kind ++ ": " ++ message cause
  | depthExceeded identifier maxDepth stack =>
      "Maximum component depth exceeded (" ++ Text.ofInt maxDepth ++ ") when expanding \"" ++
        identifier ++ "\"" ++
        listing "\n  Hint: Check for circular components: " " → " (lastOf shownLinks stack)
  | assetNotFound reference candidates =>
      "Could not find asset file for " ++ reference ++
        triedNote candidates
  | file cause path =>
      "[Errno " ++ Text.ofNat cause.number ++ "] " ++ cause.description ++ ": " ++
        Text.quoted path.text
  | sameFile source target intoFolder =>
      quotedPath source ++ " and " ++
        (if intoFolder then Text.quoted target.text else quotedPath target) ++ " are the same file"
  | nullInPath => "embedded null byte"
  | undecodable fault => fault.message
  | missingKey key => Text.quoted key
  | unknownCode value => Text.quoted value ++ " is not a valid ErrorCode"
  | badPattern => "Invalid pattern: '**' can only be an entire path component"
  | namelessPath path => quotedPath path ++ " has an empty name"
  | nestedTooDeep => "maximum recursion depth exceeded"
  | raised _ message => message
  | unworded _ fault => message fault
  | stopped _ message => message

/-- The code of a fault of the engine; other faults have none. -/
def code? : Fault → Option ErrorCode
  | componentNotFound .. => some .componentNotFound
  | producerFailed .. => some .producerError
  | depthExceeded .. => some .componentDepth
  | assetNotFound .. => some .assetNotFound
  | _ => none

/-- Whether a fault is a request to stop and so passes everything that holds faults. -/
def stops : Fault → Bool
  | stopped .. => true
  | _ => false

/-- Whether a fault says that a component has no content. -/
def isMissing : Fault → Bool
  | componentNotFound .. => true
  | producerFailed .. => true
  | _ => false

/-- Whether a page shows a comment for a fault. -/
def isShown : Fault → Bool
  | depthExceeded .. => true
  | fault => fault.isMissing

theorem isShown_of_isMissing {fault : Fault} (h : fault.isMissing) : fault.isShown := by
  cases fault <;> first | rfl | cases h

theorem stops_of_isMissing {fault : Fault} (h : fault.isMissing) : fault.stops = false := by
  cases fault <;> first | rfl | cases h

/-- The fault of a decoding that failed. -/
def ofCodec : Text.CodecFault → Fault
  | .undecodable fault => undecodable fault
  | .broken kind message => raised kind message

/-- The fault of a producer that failed. It is worded at once, so that of a fault that cannot be
worded it is what the wording fails with. -/
def inProducer (identifier : Text) (location : Option Text) : Fault → Fault
  | unworded _ fault => fault
  | cause => producerFailed identifier location cause

/-- Whether a fault can be worded. -/
def isWorded : Fault → Bool
  | unworded .. => false
  | _ => true

theorem inProducer_of_isWorded {cause : Fault} (h : cause.isWorded) (identifier : Text)
    (location : Option Text) :
    cause.inProducer identifier location = producerFailed identifier location cause := by
  cases cause with
  | unworded kind fault => cases h
  | _ => rfl

def isFileFault : Fault → Bool
  | file .. => true
  | sameFile .. => true
  | undecodable _ => true
  | _ => false

end Fault

end StaticSite
