import StaticSite.Files.Path
import StaticSite.Text.Encoding

/-!
# File trees

A tree of folders and files in memory, seen from a current folder. Looking a path up walks it part
by part and says why it fails; a name of more than 255 bytes is refused where it is looked up.

A machine may refuse to show what is in a file or a folder. What it refuses is a `Guard`, which a
tree brings along and no change of the tree changes. That a machine may also refuse to write is left
out.
-/

namespace StaticSite

inductive FileCause
  | missing
  | ioError
  | denied
  | alreadyThere
  | notFolder
  | isFolder
  | nameTooLong
  deriving DecidableEq, Repr

inductive Node (α : Type)
  | file (content : α)
  | folder (entries : List (Text × Node α))

namespace Node

variable {α : Type}

def entry? (name : Text) (entries : List (Text × Node α)) : Option (Node α) :=
  (entries.find? (·.1 = name)).map (·.2)

def get? : Node α → List Text → Option (Node α)
  | n, [] => some n
  | .file _, _ :: _ => none
  | .folder entries, name :: place =>
      match entry? name entries with
      | some n => get? n place
      | none => none
termination_by structural _ place => place

def isFolder : Node α → Bool
  | .file _ => false
  | .folder _ => true

/-- Entries with `name` given the node that `change` makes of the old one; a new name goes to its
place in code point order. -/
def changeEntry (name : Text) (change : Option (Node α) → Node α) :
    List (Text × Node α) → List (Text × Node α)
  | [] => [(name, change none)]
  | e :: es =>
      if e.1 = name then (name, change (some e.2)) :: es
      else if Text.le name e.1 then (name, change none) :: e :: es
      else e :: changeEntry name change es

/-- Puts a node at a place, making folders on the way. A file on the way is replaced. -/
def put : List Text → Node α → Option (Node α) → Node α
  | [], new, _ => new
  | name :: place, new, some (.folder entries) =>
      .folder (changeEntry name (put place new) entries)
  | name :: place, new, _ => .folder [(name, put place new none)]

def remove : List Text → Node α → Node α
  | _, .file content => .file content
  | [], n => n
  | [name], .folder entries => .folder (entries.filter (·.1 ≠ name))
  | name :: place, .folder entries =>
      .folder (entries.map fun e => if e.1 = name then (e.1, remove place e.2) else e)
termination_by structural place => place

mutual

/-- All nodes below this one with their places, each folder before what it holds. -/
def descendants : Node α → List (List Text × Node α)
  | .file _ => []
  | .folder entries => entryDescendants entries

def entryDescendants : List (Text × Node α) → List (List Text × Node α)
  | [] => []
  | (name, n) :: es =>
      ([name], n) :: (descendants n).map (fun d => (name :: d.1, d.2)) ++ entryDescendants es

end

theorem mem_entryDescendants {name : Text} {n : Node α} {entries : List (Text × Node α)}
    (h : (name, n) ∈ entries) :
    ([name], n) ∈ entryDescendants entries ∧
      ∀ d ∈ n.descendants, (name :: d.1, d.2) ∈ entryDescendants entries := by
  induction entries with
  | nil => cases h
  | cons e es ih =>
      obtain ⟨other, m⟩ := e
      rw [entryDescendants]
      rcases List.mem_cons.mp h with heq | h
      · cases heq
        refine ⟨by simp, fun d hd => List.mem_append_left _ (List.mem_cons_of_mem _ ?_)⟩
        exact List.mem_map.mpr ⟨d, hd, rfl⟩
      · obtain ⟨hself, hbelow⟩ := ih h
        exact ⟨List.mem_append_right _ hself, fun d hd => List.mem_append_right _ (hbelow d hd)⟩

theorem mem_descendants {n m : Node α} {place : List Text} (h : n.get? place = some m)
    (hne : place ≠ []) : (place, m) ∈ n.descendants := by
  induction place generalizing n with
  | nil => exact absurd rfl hne
  | cons name place ih =>
      cases n with
      | file content => cases h
      | folder entries =>
          rw [get?] at h
          cases hentry : entry? name entries with
          | none => simp [hentry] at h
          | some k =>
              simp only [hentry] at h
              obtain ⟨e, he, rfl⟩ := Option.map_eq_some_iff.mp hentry
              have hname : e.1 = name := by simpa using List.find?_some he
              obtain ⟨hself, hbelow⟩ := mem_entryDescendants (List.mem_of_find?_eq_some he)
              rw [hname] at hself hbelow
              rw [descendants]
              by_cases hplace : place = []
              · subst hplace
                cases h
                exact hself
              · exact hbelow _ (ih h hplace)

end Node

/-- Why a machine refuses to show something: it is not allowed, or the device fails. -/
inductive Refusal
  | denied
  | ioError
  deriving DecidableEq, Repr

def Refusal.cause : Refusal → FileCause
  | denied => .denied
  | ioError => .ioError

/-- What a machine refuses to show, by places. -/
class Guard where
  /-- Why the file at a place is not read, or the folder not listed. -/
  reading : List Text → Option Refusal
  /-- Why what lies in the folder at a place is not looked at. -/
  entering : List Text → Option Refusal

/-- Usually nothing is refused. -/
instance : Guard := ⟨fun _ => none, fun _ => none⟩

/-- A file tree with the place of its current folder. -/
structure Tree (α : Type) where
  root : Node α
  current : List Text
  [guard : Guard]

namespace Tree

variable {α : Type}

/-- Names may have at most so many bytes. -/
def nameLimit : Nat := 255

/-- Written paths must have fewer bytes. -/
def pathLimit : Nat := 4096

def parentName : Text := ".."

/-- Walks from a place along parts. -/
def walk (root : Node α) : List Text → List Text → Except FileCause (List Text)
  | place, [] => .ok place
  | place, part :: parts =>
      match root.get? place with
      | none => .error .missing
      | some (.file _) => .error .notFolder
      | some (.folder entries) =>
          if part = parentName then walk root place.dropLast parts
          else if nameLimit < (Text.encodeUtf8 part).length then .error .nameTooLong
          else match Node.entry? part entries with
            | none => .error .missing
            | some _ => walk root (place ++ [part]) parts

def start (t : Tree α) (p : Path) : List Text := if p.isAbsolute then [] else t.current

def tooLong (p : Path) : Bool := pathLimit ≤ (Text.encodeUtf8 p.text).length

def locate (t : Tree α) (p : Path) : Except FileCause (List Text) :=
  if tooLong p then .error .nameTooLong else walk t.root (t.start p) p.parts

def samePlace (t : Tree α) (p q : Path) : Bool :=
  match t.locate p, t.locate q with
  | .ok place, .ok other => place == other
  | _, _ => false

def find (t : Tree α) (p : Path) : Except FileCause (Node α) := do
  match t.root.get? (← t.locate p) with
  | some n => return n
  | none => throw .missing

/-- Why the machine refuses to walk from a place along parts. -/
def barred (guard : Guard) (root : Node α) : List Text → List Text → Option Refusal
  | _, [] => none
  | place, part :: parts =>
      match root.get? place with
      | some (.folder entries) =>
          match guard.entering place with
          | some refusal => some refusal
          | none =>
              if part = parentName then barred guard root place.dropLast parts
              else if nameLimit < (Text.encodeUtf8 part).length then none
              else match Node.entry? part entries with
                | none => none
                | some _ => barred guard root (place ++ [part]) parts
      | _ => none

/-- What a path leads to, as far as the machine lets it be looked at. -/
def look (t : Tree α) (p : Path) : Except FileCause (Node α) :=
  if tooLong p then .error .nameTooLong
  else match barred t.guard t.root (t.start p) p.parts with
    | some refusal => .error refusal.cause
    | none => t.find p

/-- Fails where the machine does not let what a path leads to be read. -/
def checkReading (t : Tree α) (p : Path) : Except FileCause Unit :=
  match (t.locate p).toOption.bind t.guard.reading with
  | some refusal => .error refusal.cause
  | none => .ok ()

/-- What a path leads to, opened for reading. -/
def read (t : Tree α) (p : Path) : Except FileCause (Node α) := do
  let n ← t.look p
  t.checkReading p
  return n

/-- The entries of the folder that a path leads to. -/
def list (t : Tree α) (p : Path) : Except FileCause (List (Text × Node α)) := do
  match ← t.look p with
  | .file _ => throw .notFolder
  | .folder entries => do
      t.checkReading p
      return entries

/-- The place at which a path would make a new entry, with what is there already. A path that ends
at its anchor or in `..` leads to a folder that is there. -/
def locateNew (t : Tree α) (p : Path) : Except FileCause (List Text × Option (Node α)) := do
  if tooLong p then throw .nameTooLong
  match barred t.guard t.root (t.start p) p.parts, p.parts.getLast? with
  | some refusal, _ => throw refusal.cause
  | none, none => return (t.start p, t.root.get? (t.start p))
  | none, some name =>
      if name = parentName then
        let place ← walk t.root (t.start p) p.parts
        return (place, t.root.get? place)
      else
        let folder ← walk t.root (t.start p) p.parts.dropLast
        match t.root.get? folder with
        | none => throw .missing
        | some (.file _) => throw .notFolder
        | some (.folder entries) =>
            if nameLimit < (Text.encodeUtf8 name).length then throw .nameTooLong
            return (folder ++ [name], Node.entry? name entries)

def putAt (t : Tree α) (place : List Text) (n : Node α) : Tree α :=
  { t with root := Node.put place n (some t.root) }

def makeFolder (t : Tree α) (p : Path) : Except FileCause (Tree α) := do
  let (place, there) ← t.locateNew p
  if there.isSome then throw .alreadyThere
  return t.putAt place (.folder [])

def writeFile (t : Tree α) (p : Path) (content : α) : Except FileCause (Tree α) := do
  match ← t.locateNew p with
  | (_, some (.folder _)) => throw .isFolder
  | (place, _) => return t.putAt place (.file content)

def delete (t : Tree α) (p : Path) : Except FileCause (Tree α) := do
  let place ← t.locate p
  return { t with root := Node.remove place t.root }

/-- The path from the root, with every `..` kept. -/
def absolute (t : Tree α) (p : Path) : Path :=
  if p.isAbsolute then p else ⟨.root, t.current ++ p.parts⟩

/-- The absolute path that a path means, with every `..` taken literally. -/
def resolve (t : Tree α) (p : Path) : Path :=
  ⟨.root, Path.collapse ((if p.isAbsolute then [] else t.current) ++ p.parts)⟩

end Tree

end StaticSite
