import MachineLab.Fault

/-!
# Files

A directory holds files and folders under paths of names.  Opening a path can fail in the ways in
which a file system refuses it.

## Main definitions

* `Directory.read`, `Directory.write`, `Directory.holds` — access by path.
-/

namespace MachineLab

/-- What stands at a path. -/
inductive Node where
  | file (bytes : List UInt8)
  | folder
deriving DecidableEq, Repr

/-- Files and folders, each under the names that lead to it. -/
structure Directory where
  nodes : List (List String × Node)
deriving Repr, Inhabited

/-- Why a path cannot be opened. -/
inductive PathError where
  | notFound
  | notFolder
  | isFolder
  | nameTooLong
deriving DecidableEq, Repr

def PathError.message (e : PathError) (path : String) : String :=
  (match e with
    | .notFound => "[Errno 2] No such file or directory: "
    | .notFolder => "[Errno 20] Not a directory: "
    | .isFolder => "[Errno 21] Is a directory: "
    | .nameTooLong => "[Errno 36] File name too long: ") ++ Text.quoted path

namespace Directory

def empty : Directory := ⟨[]⟩

/-- What stands at a list of names.  The directory itself is a folder. -/
def node? (d : Directory) (names : List String) : Option Node :=
  match names with
  | [] => some .folder
  | _ => d.nodes.lookup names

/-- Where a path leads: the names that lead there, and whether it has to be a folder. -/
structure Target where
  names : List String
  mustBeFolder : Bool
deriving DecidableEq

/-- The longest name of a file, in bytes. -/
def nameLimit : Nat := 255

/-- Follow the parts of a path from a folder.  Only the last part may lead nowhere. -/
def follow (d : Directory) (here : List String) : List String → Except PathError Target
  | [] => .ok ⟨here, false⟩
  | part :: rest =>
    match d.node? here with
    | none => .error .notFound
    | some (.file _) => .error .notFolder
    | some .folder =>
      if part = "" || part = "." then
        match rest with
        | [] => .ok ⟨here, true⟩
        | _ => d.follow here rest
      else if part = ".." then d.follow here.dropLast rest
      else if nameLimit < part.utf8ByteSize then .error .nameTooLong
      else
        match rest with
        | [] => .ok ⟨here ++ [part], false⟩
        | [""] => .ok ⟨here ++ [part], true⟩
        | _ => d.follow (here ++ [part]) rest

def parts (path : String) : List String := (path.toList.splitOn '/').map String.ofList

def resolve (d : Directory) (path : String) : Except PathError Target :=
  if path = "" || path.startsWith "/" then .error .notFound
  else d.follow [] (parts path)

/-- Whether something stands at a path. -/
def holds (d : Directory) (path : String) : Bool :=
  match d.resolve path with
  | .error _ => false
  | .ok target =>
    match d.node? target.names with
    | none => false
    | some (.file _) => !target.mustBeFolder
    | some .folder => true

def read (d : Directory) (path : String) : Except PathError (List UInt8) := do
  let target ← d.resolve path
  match d.node? target.names with
  | none => throw .notFound
  | some .folder => throw .isFolder
  | some (.file bytes) => if target.mustBeFolder then throw .notFolder else return bytes

/-- Put something at a list of names, replacing what stands there. -/
def put (d : Directory) (names : List String) (node : Node) : Directory :=
  ⟨(names, node) :: d.nodes.filter (·.1 != names)⟩

/-- Write a file, replacing the one that stands at the path.  A path that asks for a folder is
refused as one, whatever stands there. -/
def write (d : Directory) (path : String) (bytes : List UInt8) : Except PathError Directory := do
  let target ← d.resolve path
  if target.mustBeFolder || d.node? target.names == some .folder then throw .isFolder
  return d.put target.names (.file bytes)

def makeFolder (d : Directory) (path : String) : Directory :=
  let names := (parts path).filter fun part => part != "" && part != "."
  (List.range names.length).foldl
    (fun (d : Directory) n =>
      let here := names.take (n + 1)
      if (d.node? here).isNone then d.put here .folder else d) d

/-- The names that stand directly in the directory, in increasing order. -/
def names (d : Directory) : List String :=
  (d.nodes.filterMap fun entry => match entry.1 with
    | [name] => some name
    | _ => none).mergeSort (fun a b => decide (a ≤ b))

end Directory

end MachineLab
