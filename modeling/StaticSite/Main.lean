import StaticSite.Command.Program

/-!
# The program

Reads the folders that a run can touch into memory, runs the command line, and writes back what
has changed. All decisions are made on the tree in memory.
-/

namespace StaticSite.Main

open Command

/-- The node of a folder entry; what is neither a file nor a folder is left out. -/
partial def loadEntry (entry : IO.FS.DirEntry) : IO (Option (Node Content)) := do
  match (← entry.path.metadata).type with
  | .dir =>
      let mut entries := #[]
      for child in ← entry.path.readDir do
        if let some n ← loadEntry child then
          entries := entries.push (child.fileName.toList, n)
      return some (.folder (entries.toList.mergeSort fun a b => Text.le a.1 b.1))
  | .file => return some (.file (.bytes (← IO.FS.readBinFile entry.path).toList))
  | _ => return none

def placeText (place : List Text) : String := String.ofList ('/' :: Text.join ['/'] place)

/-- Puts the folder at a place of the machine into the tree, if there is one. -/
def loadPlace (tree : SiteTree) (place : List Text) : IO SiteTree := do
  let entry : IO.FS.DirEntry := ⟨placeText place, ""⟩
  if ← entry.root.isDir then
    match ← loadEntry ⟨entry.root, "."⟩ with
    | some n => return tree.putAt place n
    | none => return tree
  else return tree

/-- What a word of the command line may say about a path: the word, or what it gives an option. -/
def pathWord (word : Text) : Text := ((Text.cut? '=' word).map (·.2)).getD word

/-- The tree of the current folder and of all folders that the command line names. -/
def loadTree (words : List Text) : IO SiteTree := do
  let here := (Path.ofText (← IO.currentDir).toString.toList).parts
  let empty : SiteTree := ⟨.folder [], here⟩
  let named := words.map fun word => (empty.resolve (Path.ofText (pathWord word))).parts
  let places := here :: named.filter fun place => !place.isEmpty && !here.isPrefixOf place
  places.foldlM loadPlace (empty.putAt here (.folder []))

def sameContent (content : Content) : Option (Node Content) → Bool
  | some (.file old) => content.toBytes == old.toBytes
  | _ => false

def saveChanges (old new : SiteTree) : IO Unit := do
  for (place, n) in new.root.descendants do
    match n with
    | .folder _ =>
        if (old.root.get? place).isNone then IO.FS.createDirAll (placeText place)
    | .file content =>
        if !sameContent content (old.root.get? place) then
          IO.FS.writeBinFile (placeText place) ⟨content.toBytes.toArray⟩

def wantsStyling : IO Bool := do
  let setting (name : String) : IO (Option Text) := return (← IO.getEnv name).map String.toList
  return Terminal.stylingWanted (← setting "FORCE_COLOR") (← setting "NO_COLOR")
    (← (← IO.getStdout).isTty)

def runWords (words : List Text) : IO UInt32 := do
  let tree ← loadTree words
  let (outcome, world) := run (← wantsStyling) words ⟨tree, Session.start⟩
  saveChanges tree world.tree
  match outcome with
  | .finished output =>
      IO.print (String.ofList output.stdout)
      IO.eprint (String.ofList output.stderr)
      return UInt32.ofNat output.exit
  | .stopped .help => return 0
  | .stopped stop =>
      IO.eprintln (String.ofList stop.usage)
      return 2
  | .failed fault =>
      IO.eprintln (String.ofList (fault.kind ++ ": " ++ fault.message))
      return 1

end StaticSite.Main

def main (args : List String) : IO UInt32 :=
  StaticSite.Main.runWords (args.map String.toList)
