import Licensing.Text.Quoted

/-!
A tree of files, and absolute paths into it. The tree is all that is known of a system: where it
says nothing there is nothing, and it is fixed while it is read. A path is looked up part by part
from the root, and the first part that stops this is the obstacle.

Symbolic links and access rights are left out: every name is a directory or a regular file, and all
of them may be read. With links, resolving a path would follow them before it takes back a `..`, and
a name could lead to a file elsewhere, to nothing, or in a circle; without the right to search a
directory, looking for a file below it would fail where here the file is found.
-/

namespace Licensing

/-- An absolute path: its parts from the root on. A part `..` stands for the directory above. -/
structure FilePath where
  parts : List String
  /-- The path was written with exactly two slashes in front, and is shown so. -/
  twoSlashes : Bool := false
  deriving DecidableEq, Repr

namespace FilePath

/-- The parts of a written path; `.` and empty parts say nothing. -/
def split (written : String) : List String :=
  (parts [] written.toList).filter fun part => part ≠ "" ∧ part ≠ "."
where
  /-- The parts between slashes, with the characters of the first one so far in reverse. -/
  parts (current : List Char) : List Char → List String
    | [] => [String.ofList current.reverse]
    | c :: rest =>
      if c = '/' then String.ofList current.reverse :: parts [] rest
      else parts (c :: current) rest

/-- The path that a written path names from a directory. A written path that begins with a slash is
taken from the root. -/
def descend (directory : FilePath) (written : String) : FilePath :=
  match written.toList with
  | '/' :: '/' :: '/' :: _ => ⟨split written, false⟩
  | '/' :: '/' :: _ => ⟨split written, true⟩
  | '/' :: _ => ⟨split written, false⟩
  | _ => { directory with parts := directory.parts ++ split written }

def parent (p : FilePath) : FilePath :=
  { p with parts := p.parts.dropLast }

def name (p : FilePath) : String :=
  p.parts.getLast?.getD ""

/-- The path without `..`; there is nothing above the root. -/
def resolve (p : FilePath) : FilePath where
  parts := p.parts.foldl (fun above part => if part = ".." then above.dropLast
                                            else above ++ [part]) []

def text (p : FilePath) : String :=
  (if p.twoSlashes then "//" else "/") ++ String.intercalate "/" p.parts

/-- Whether the zero character, which no path can have, is in the path. -/
def hasZero (p : FilePath) : Bool :=
  p.parts.any fun part => part.toList.contains '\x00'

end FilePath

/-- What stands at a place of the tree. -/
inductive FileNode where
  | directory
  | file (bytes : ByteArray)

/-- Why a path cannot be followed to its end, or not to a file. -/
inductive Obstacle where
  | zeroCharacter
  /-- The path, or a name in it that was reached, is too long. -/
  | tooLong
  | missing
  /-- Something is looked for below a file. -/
  | notDirectory
  /-- A directory is to be read like a file. -/
  | isDirectory
  deriving DecidableEq, Repr

/-- An obstacle on a path in words. -/
def Obstacle.message (p : FilePath) : Obstacle → String
  | zeroCharacter => "embedded null byte"
  | tooLong => "[Errno 36] File name too long: " ++ Text.quoted p.text
  | missing => "[Errno 2] No such file or directory: " ++ Text.quoted p.text
  | notDirectory => "[Errno 20] Not a directory: " ++ Text.quoted p.text
  | isDirectory => "[Errno 21] Is a directory: " ++ Text.quoted p.text

/-- The tree: what stands at each list of parts from the root on. -/
structure FileTree where
  nodes : List (List String × FileNode)

namespace FileTree

/-- The longest name of a file, in bytes. -/
def longestName : Nat := 255

/-- The longest path that is looked up, in bytes. -/
def longestPath : Nat := 4095

/-- What stands at a list of parts that has no `..` in it. Whatever has something below it is a
directory, and so is the root. -/
def node? (tree : FileTree) (parts : List String) : Option FileNode :=
  if parts = [] then some .directory
  else
    match tree.nodes.lookup parts with
    | some node => some node
    | none =>
      if tree.nodes.any fun entry => parts.isPrefixOf entry.1 then some .directory else none

/-- What stands at the end of parts that are followed from a place. -/
def walk (tree : FileTree) (place : List String) : List String → Except Obstacle FileNode
  | [] => (tree.node? place).elim (.error .missing) .ok
  | part :: rest =>
    match tree.node? place with
    | none => .error .missing
    | some (.file _) => .error .notDirectory
    | some .directory =>
      if part = ".." then tree.walk place.dropLast rest
      else if longestName < part.utf8ByteSize then .error .tooLong
      else tree.walk (place ++ [part]) rest

def find (tree : FileTree) (p : FilePath) : Except Obstacle FileNode :=
  if p.hasZero then .error .zeroCharacter
  else if longestPath < p.text.utf8ByteSize then .error .tooLong
  else tree.walk [] p.parts

/-- The bytes of the regular file at a path, if there is one. Only a path that is too long is an
error. -/
def file? (tree : FileTree) (p : FilePath) : Except Obstacle (Option ByteArray) :=
  match tree.find p with
  | .ok (.file bytes) => .ok (some bytes)
  | .error .tooLong => .error .tooLong
  | _ => .ok none

/-- The bytes that are read from a path, at which a regular file has to stand. -/
def read (tree : FileTree) (p : FilePath) : Except Obstacle ByteArray :=
  match tree.find p with
  | .ok (.file bytes) => .ok bytes
  | .ok .directory => .error .isDirectory
  | .error obstacle => .error obstacle

/-- A file that is found can be read. -/
theorem read_of_file? {tree : FileTree} {p : FilePath} {bytes : ByteArray}
    (h : tree.file? p = .ok (some bytes)) : tree.read p = .ok bytes := by
  unfold file? at h
  unfold read
  split at h
  · rename_i found hFound
    obtain rfl := Option.some.inj (Except.ok.inj h)
    rw [hFound]
  · cases h
  · cases h

/-- The tree of a directory and of files and directories below it, each at a written path. -/
def ofEntries (home : FilePath) (entries : List (String × FileNode)) : FileTree where
  nodes := (home.parts, .directory) :: entries.map fun (written, node) =>
    ((home.descend written).resolve.parts, node)

end FileTree

end Licensing
