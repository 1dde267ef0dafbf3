/-
# Files

What the program asks of a disk, and a disk that is a value.

* `Disk m` is a disk whose operations run in `m`.  Everything that works with files is written
  against it, so that the same definitions serve a real disk and a `Tree`.
* `Tree` is a disk with all that is on it, as a value; `Tree.disk` is a `Disk` over it.

A tree has files, directories and links, and says of each file and directory what may be done with
it.  One of its places is the working directory, where paths start that do not start at the top.
-/
import HamScript.Files.Path

namespace HamScript.Files

/-! ## What can go wrong -/

/-- The request that failed. -/
inductive Request where
  | stat | open | read
  deriving Repr, DecidableEq

/-- Why a request failed. -/
inductive Refusal where
  | missing | notDirectory | isDirectory | exists | denied | tooManyLinks
  deriving Repr, DecidableEq

/-- A request on a path that failed. -/
structure PathFault where
  request : Request
  path : String
  refusal : Refusal
  deriving Repr, DecidableEq

/-- The word for a request. -/
def Request.word : Request → String
  | stat => "stat"
  | .open => "open"
  | read => "read"

/-- The words for a refusal. -/
def Refusal.words : Refusal → String
  | missing => "no such file or directory"
  | notDirectory => "not a directory"
  | isDirectory => "is a directory"
  | .exists => "file exists"
  | denied => "permission denied"
  | tooManyLinks => "too many levels of symbolic links"

/-- The report of a failed request. -/
def PathFault.message (f : PathFault) : String :=
  f.request.word ++ " " ++ f.path ++ ": " ++ f.refusal.words

/-! ## Disks -/

/-- What a path names, at the end of all links. -/
inductive NodeKind where
  | file | directory
  deriving Repr, DecidableEq

/-- The operations on a disk. -/
structure Disk (m : Type → Type) where
  /-- What the path names. -/
  stat : String → m (Except PathFault NodeKind)
  /-- The bytes of a file. -/
  read : String → m (Except PathFault (List UInt8))
  /-- Makes a new file.  What has that name already, be it a link, is never touched. -/
  create : String → List UInt8 → m (Except PathFault Unit)
  /-- Gives a file new bytes, and makes it if it is not there.  Links are followed. -/
  write : String → List UInt8 → m (Except PathFault Unit)

/-! ## What stands on a disk -/

/-- What may be done with a file or a directory.  In a directory, to write is to make new names in it
and to search is to look names up. -/
structure Access where
  read : Bool
  write : Bool
  search : Bool
  deriving Repr, DecidableEq

/-- Everything may be done. -/
def Access.full : Access := ⟨true, true, true⟩

/-- What may be done with a file that has just been made. -/
def Access.fresh : Access := ⟨true, true, false⟩

/-- What has a name on a disk. -/
inductive Node where
  | file (bytes : List UInt8) (access : Access)
  | directory (access : Access)
  /-- Another path that is meant instead. -/
  | link (target : String)
  deriving Repr, DecidableEq

/-- The place of a node: the names that lead to it from the top of the disk. -/
structure Place where
  names : List String
  deriving Repr, DecidableEq

namespace Place

/-- The top of the disk. -/
def top : Place := ⟨[]⟩

/-- The directory that holds a place; the top holds itself. -/
def up (p : Place) : Place :=
  ⟨p.names.dropLast⟩

/-- The place of a name in the directory at a place. -/
def down (p : Place) (name : String) : Place :=
  ⟨p.names ++ [name]⟩

end Place

/-- A disk as a value: what stands where, and the place of the working directory.  The first entry of
a place counts. -/
structure Tree where
  entries : List (Place × Node)
  home : Place
  deriving Repr, DecidableEq

namespace Tree

/-- The node at a place. -/
def node? (t : Tree) (place : Place) : Option Node :=
  t.entries.lookup place

/-- Puts a node at a place. -/
def put (t : Tree) (place : Place) (n : Node) : Tree :=
  { t with entries := (place, n) :: t.entries }

/-! ## Along a path -/

/-- How far one gets along a path without following a link. -/
inductive Stretch where
  | arrived (place : Place)
  /-- A link in a directory is to be followed, and then the rest of the path. -/
  | link (dir : Place) (target : String) (rest : List String)
  deriving Repr, DecidableEq

/-- Goes from a directory along the parts of a path, up to the first link.  Every part has to be
looked up in a directory; an empty part and `.` stay there, `..` goes up.  A link at the very end is
left alone unless `follow` says otherwise. -/
def stretch (t : Tree) (follow : Bool) : Place → List String → Except Refusal Stretch
  | here, [] => .ok (.arrived here)
  | here, part :: rest =>
    match t.node? here with
    | none => .error .missing
    | some (.file _ _) | some (.link _) => .error .notDirectory
    | some (.directory access) =>
      if part = "" then stretch t follow here rest
      else if access.search = false then .error .denied
      else if part = "." then stretch t follow here rest
      else if part = ".." then stretch t follow here.up rest
      else
        match t.node? (here.down part) with
        | some (.link target) =>
          if follow = true ∨ rest ≠ [] then .ok (.link here target rest)
          else .ok (.arrived (here.down part))
        | _ => stretch t follow (here.down part) rest

/-- Where a path starts, seen from a directory. -/
def startFrom (here : Place) (path : String) : Place :=
  if isRooted path then .top else here

/-- Goes from a directory along the parts of a path, following at most so many links. -/
def walk (t : Tree) (follow : Bool) (links : Nat) (here : Place) (ps : List String) :
    Except Refusal Place :=
  match t.stretch follow here ps with
  | .error r => .error r
  | .ok (.arrived place) => .ok place
  | .ok (.link dir target rest) =>
    match links with
    | 0 => .error .tooManyLinks
    | links + 1 =>
      if target = "" then .error .missing
      else walk t follow links (startFrom dir target) (parts target ++ rest)

/-- How many links are followed on the way along one path. -/
def maxLinks : Nat := 40

/-- The place that a path names.  The empty path names nothing. -/
def locate (t : Tree) (follow : Bool) (path : String) : Except Refusal Place :=
  if path = "" then .error .missing
  else t.walk follow maxLinks (startFrom t.home path) (parts path)

/-! ## The operations -/

/-- What a path names. -/
def stat (t : Tree) (path : String) : Except PathFault NodeKind :=
  match t.locate true path with
  | .error r => .error ⟨.stat, path, r⟩
  | .ok place =>
    match t.node? place with
    | some (.file _ _) => .ok .file
    | some (.directory _) => .ok .directory
    | some (.link _) => .error ⟨.stat, path, .tooManyLinks⟩
    | none => .error ⟨.stat, path, .missing⟩

/-- The bytes of the file that a path names. -/
def read (t : Tree) (path : String) : Except PathFault (List UInt8) :=
  match t.locate true path with
  | .error r => .error ⟨.open, path, r⟩
  | .ok place =>
    match t.node? place with
    | some (.file bytes access) =>
      if access.read then .ok bytes else .error ⟨.open, path, .denied⟩
    | some (.directory access) =>
      if access.read then .error ⟨.read, path, .isDirectory⟩ else .error ⟨.open, path, .denied⟩
    | some (.link _) => .error ⟨.open, path, .tooManyLinks⟩
    | none => .error ⟨.open, path, .missing⟩

/-- Whether new names can be made in the directory at a place. -/
def takesNames (t : Tree) (place : Place) : Bool :=
  match t.node? place with
  | some (.directory access) => access.write && access.search
  | _ => false

/-- Makes a file at a place where nothing is. -/
def addFile (t : Tree) (path : String) (place : Place) (bytes : List UInt8) :
    Except PathFault Tree :=
  if t.takesNames place.up then .ok (t.put place (.file bytes .fresh))
  else .error ⟨.open, path, .denied⟩

/-- Makes a new file, under a name that nothing has. -/
def create (t : Tree) (path : String) (bytes : List UInt8) : Except PathFault Tree :=
  match t.locate false path with
  | .error r => .error ⟨.open, path, r⟩
  | .ok place =>
    match t.node? place with
    | some _ => .error ⟨.open, path, .exists⟩
    | none => t.addFile path place bytes

/-- Gives new bytes to the file that a path names, or makes it. -/
def write (t : Tree) (path : String) (bytes : List UInt8) : Except PathFault Tree :=
  match t.locate true path with
  | .error r => .error ⟨.open, path, r⟩
  | .ok place =>
    match t.node? place with
    | some (.file _ access) =>
      if access.write then .ok (t.put place (.file bytes access))
      else .error ⟨.open, path, .denied⟩
    | some (.directory _) => .error ⟨.open, path, .isDirectory⟩
    | some (.link _) => .error ⟨.open, path, .tooManyLinks⟩
    | none => t.addFile path place bytes

/-- Takes on the tree of a request that went well. -/
def commit (result : Except PathFault Tree) : StateM Tree (Except PathFault Unit) := fun t =>
  match result with
  | .ok t' => (.ok (), t')
  | .error fault => (.error fault, t)

/-- A tree as a disk. -/
def disk : Disk (StateM Tree) where
  stat path t := (t.stat path, t)
  read path t := (t.read path, t)
  create path bytes t := commit (t.create path bytes) t
  write path bytes t := commit (t.write path bytes) t

/-! ## Making trees -/

/-- A working directory with nothing in it, and the directories that hold it. -/
def bare (home : Place) : Tree where
  entries := (List.range (home.names.length + 1)).map fun n =>
    (⟨home.names.take n⟩, .directory .full)
  home := home

/-- Puts a directory into the working directory, with those that hold it.  What is there already
stays. -/
def putDirectory (t : Tree) (names : List String) : Tree :=
  (List.range (names.length + 1)).foldl
    (fun t n =>
      let place : Place := ⟨t.home.names ++ names.take n⟩
      if (t.node? place).isSome then t else t.put place (.directory .full)) t

/-- Puts a file into the working directory, with the directories that hold it. -/
def putFile (t : Tree) (names : List String) (bytes : List UInt8) : Tree :=
  (t.putDirectory names.dropLast).put ⟨t.home.names ++ names⟩ (.file bytes .fresh)

/-- A working directory with directories and files of given paths, none of which leads out of it. -/
def ofLists (directories : List String) (files : List (String × String)) : Tree :=
  files.foldl (fun t f => t.putFile (cleanParts f.1) f.2.toUTF8.data.toList)
    (directories.foldl (fun t d => t.putDirectory (cleanParts d)) (bare ⟨["work"]⟩))

end Tree

end HamScript.Files
