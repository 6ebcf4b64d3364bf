import Markbook.Path

/-!
# Disks

A disk is a tree of folders, files and links, given as the list of its items with the place of each.
The place of an item is the list of names from the top folder down.  Paths are taken from the top
folder and follow links; there is nothing outside of it but the null device, which reads as empty
and forgets what is written.

A file that is written keeps its modification time, and a new file has time zero: times are declared
from outside by `Disk.touch`.
-/

namespace Markbook

/-- The octets of a file, as text when they are UTF-8. -/
inductive Contents where
  | text (s : Text)
  | binary (octets : List UInt8)
deriving DecidableEq, Repr

namespace Contents

def octets : Contents → List UInt8
  | .text s => (String.ofList s).toUTF8.toList
  | .binary l => l

def ofOctets (l : List UInt8) : Contents :=
  match String.fromUTF8? (ByteArray.mk l.toArray) with
  | some s => .text s.toList
  | none => .binary l

/-- Contents with a text behind them. -/
def append (c : Contents) (s : Text) : Contents :=
  match c with
  | .text t => .text (t ++ s)
  | .binary l => .ofOctets (l ++ octets (.text s))

end Contents

inductive Item where
  | folder
  | file (contents : Contents) (modified : Int)
  | link (target : Path)
deriving Repr

/-- The names from the top folder down. -/
abbrev Place := List Text

structure Disk where
  items : List (Place × Item)
deriving Repr

namespace Disk

/-- Why a path cannot be used as asked. -/
inductive Trouble where
  | missing
  | notFolder
  | isFolder
  | tooManyLinks
  | notText
  | notListed
  | occupied
deriving DecidableEq, Repr

namespace Trouble

def message : Trouble → Text
  | .missing => "No such file or directory (os error 2)"
  | .notFolder => "Not a directory (os error 20)"
  | .isFolder => "Is a directory (os error 21)"
  | .tooManyLinks => "Too many levels of symbolic links (os error 40)"
  | .notText => "stream did not contain valid UTF-8"
  | .notListed => "not a directory"
  | .occupied => "File exists (os error 17)"

end Trouble

def empty : Disk := ⟨[]⟩

/-- The item at a place.  The top folder is always there. -/
def item? (d : Disk) (p : Place) : Option Item :=
  if p.isEmpty then some .folder else (d.items.find? fun e ↦ e.1 = p).map (·.2)

/-- Replaces the item at a place, or adds it. -/
def put (d : Disk) (p : Place) (i : Item) : Disk :=
  if d.items.any fun e ↦ e.1 = p then
    ⟨d.items.map fun e ↦ if e.1 = p then (p, i) else e⟩
  else ⟨d.items ++ [(p, i)]⟩

/-- Adds the folders from the top down to a place, where there is nothing yet. -/
def makeFolders (d : Disk) (p : Place) : Disk :=
  (List.range (p.length + 1)).foldl
    (fun d n ↦ if (d.item? (p.take n)).isSome then d else d.put (p.take n) .folder) d

/-- Puts an item at a place and makes the folders around it. -/
def place (d : Disk) (p : Place) (i : Item) : Disk := (d.makeFolders p.dropLast).put p i

def remove (d : Disk) (p : Place) : Disk := ⟨d.items.filter fun e ↦ !p.isPrefixOf e.1⟩

/-- Declares the modification times of all files. -/
def touch (d : Disk) (time : Place → Int) : Disk :=
  ⟨d.items.map fun e ↦
    match e.2 with
    | .file c _ => (e.1, .file c (time e.1))
    | _ => e⟩

/-! ## Paths on a disk -/

/-- How many links may be followed on the way of one path. -/
def linkLimit : Nat := 40

/-- Follows the parts of a path from a folder.  The place reached may be free when only its last
name is new. -/
def walk (d : Disk) (links : Nat) (at_ : Place) (parts : List PathPart) : Except Trouble Place :=
  match parts with
  | [] => .ok at_
  | .root :: _ => .error .missing
  | .here :: r => walk d links at_ r
  | .up :: r => if at_.isEmpty then .error .missing else walk d links at_.dropLast r
  | .name s :: r =>
    match d.item? (at_ ++ [s]) with
    | none => if r.isEmpty then .ok (at_ ++ [s]) else .error .missing
    | some .folder => walk d links (at_ ++ [s]) r
    | some (.file _ _) => if r.isEmpty then .ok (at_ ++ [s]) else .error .notFolder
    | some (.link target) =>
      match links with
      | 0 => .error .tooManyLinks
      | n + 1 => walk d n at_ (target.parts ++ r)
termination_by (links, parts.length)

/-- Does the text of the path end in a way that only a folder can have? -/
def demandsFolder (p : Path) : Bool :=
  (Text.before? ['/'] p.text).isSome || (Text.before? ['/', '.'] p.text).isSome

/-- The place a path leads to. -/
def place? (d : Disk) (p : Path) : Except Trouble Place :=
  if p.text.isEmpty then .error .missing else d.walk linkLimit [] p.parts

/-- The item a path leads to. -/
def find (d : Disk) (p : Path) : Except Trouble Item := do
  match d.item? (← d.place? p) with
  | none => .error .missing
  | some (.file c t) => if demandsFolder p then .error .notFolder else .ok (.file c t)
  | some i => .ok i

def isFolder (d : Disk) (p : Path) : Bool :=
  match d.find p with
  | .ok .folder => true
  | _ => false

def isFile (d : Disk) (p : Path) : Bool :=
  match d.find p with
  | .ok (.file _ _) => true
  | _ => false

def has (d : Disk) (p : Path) : Bool :=
  match d.find p with
  | .ok _ => true
  | .error _ => false

def isNullDevice (p : Path) : Bool := p.parts == Path.parts "/dev/null"

/-- The text of a file. -/
def read (d : Disk) (p : Path) : Except Trouble Text :=
  if isNullDevice p then .ok []
  else
    match d.find p with
    | .error e => .error e
    | .ok (.file (.text s) _) => .ok s
    | .ok (.file (.binary _) _) => .error .notText
    | .ok _ => .error .isFolder

/-- The modification time of a file, zero where there is none. -/
def modified (d : Disk) (p : Path) : Int :=
  match d.find p with
  | .ok (.file _ t) => t
  | _ => 0

/-- Writes a file, a new one if there is none. -/
def write (d : Disk) (p : Path) (s : Text) : Except Trouble Disk :=
  if isNullDevice p then .ok d
  else do
    let at_ ← d.place? p
    match d.item? at_ with
    | none => if demandsFolder p then .error .isFolder else .ok (d.put at_ (.file (.text s) 0))
    | some (.file _ t) =>
      if demandsFolder p then .error .notFolder else .ok (d.put at_ (.file (.text s) t))
    | some _ => .error .isFolder

/-- Writes to the end of a file, of a new one if there is none. -/
def append (d : Disk) (p : Path) (s : Text) : Except Trouble Disk :=
  match d.find p with
  | .ok (.file c t) => (d.place? p).map fun at_ ↦ d.put at_ (.file (c.append s) t)
  | _ => d.write p s

/-- Makes a folder and those on the way to it, except for those that are there.  A trouble on the
way is told of the first name that is no folder. -/
def makeFoldersFor (d : Disk) (p : Path) : Except Trouble Disk :=
  go d [] p.parts
where
  go (d : Disk) (made : List PathPart) : List PathPart → Except Trouble Disk
  | [] => .ok d
  | part :: rest =>
    let way := made ++ [part]
    match d.walk linkLimit [] way with
    | .error e => .error e
    | .ok at_ =>
      match d.item? at_ with
      | some .folder => go d way rest
      | none => go (d.put at_ .folder) way rest
      | some _ => .error (if rest.isEmpty then .occupied else .notFolder)

/-! ## Listings -/

/-- The name of an item that lies directly in a folder. -/
def nameIn? (folder at_ : Place) : Option Text :=
  match at_.getLast? with
  | some s => if at_.dropLast = folder then some s else none
  | none => none

/-- The items in a folder, by name. -/
def list (d : Disk) (folder : Place) : List (Text × Item) :=
  (d.items.filterMap fun e ↦ (nameIn? folder e.1).map fun s ↦ (s, e.2)).mergeSort
    fun a b ↦ Text.le a.1 b.1

/-- The files of the disk, each with its place. -/
def files (d : Disk) : List (Place × Contents) :=
  d.items.filterMap fun e ↦
    match e.2 with
    | .file c _ => some (e.1, c)
    | _ => none

/-- The length of the longest place. -/
def depth (d : Disk) : Nat := d.items.foldl (fun n e ↦ max n e.1.length) 0

end Disk

end Markbook
