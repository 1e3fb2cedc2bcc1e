import UiConformance.Files

/-!
# Folders in memory

A working folder and the folder of the user, both held in memory, as files that a program can read.
Around the working folder lies a system of which only the names of its outermost folders are known;
whatever else a path outside may name is missing.
-/

namespace UiConformance

/-- Files by the names on the way to them. -/
structure Folder where
  files : List (List (List Char) × ByteArray) := []

namespace Folder

def ofList (files : List (String × ByteArray)) : Folder :=
  ⟨files.map fun f => (Path.names f.1, f.2)⟩

/-! ## Outside -/

/-- What a path leads to: the content of a file, or nothing for a folder. -/
abbrev Located := Except FileError (Option ByteArray)

/-- A name of more bytes is refused. -/
def nameLimit : Nat := 255

/-- A path of more bytes is refused. -/
def pathLimit : Nat := 4095

def isLong (limit : Nat) (cs : List Char) : Bool := limit < cs.foldl (fun n c => n + c.utf8Size) 0

def missing (name : List Char) : Located :=
  .error (if isLong nameLimit name then .nameTooLong else .missing)

def systemFolders : List (List Char) :=
  ["bin", "boot", "dev", "etc", "home", "lib", "media", "mnt", "opt", "proc", "root", "run", "sbin",
   "srv", "sys", "tmp", "usr", "var"].map String.toList

/-- Follows names from a folder outside, of which the way up is known, and the folders in it where it
is the outermost one. -/
def locateOutside (outermost : Bool) : List (List Char) → Located
  | [] => .ok none
  | [] :: rest | ['.'] :: rest | ['.', '.'] :: rest => locateOutside outermost rest
  | name :: rest =>
    if !outermost then missing name
    else if name == "dev".toList && rest == ["null".toList] then .ok (some ByteArray.empty)
    else if systemFolders.contains name then locateInside rest
    else missing name
where
  /-- Follows names from one of the outermost folders of the system. -/
  locateInside : List (List Char) → Located
    | [] => .ok none
    | [] :: rest | ['.'] :: rest => locateInside rest
    | ['.', '.'] :: rest => locateOutside outermost rest
    | name :: _ => missing name

/-! ## Inside -/

def locate (f : Folder) (here : List (List Char)) : List (List Char) → Located
  | [] => .ok none
  | [] :: rest | ['.'] :: rest => f.locate here rest
  | ['.', '.'] :: rest =>
    if here.isEmpty then locateOutside false rest else f.locate here.dropLast rest
  | name :: rest =>
    let there := here ++ [name]
    match f.files.find? fun e => e.1 == there with
    | some e => if rest.isEmpty then .ok (some e.2) else .error .notDirectory
    | none => if f.files.any fun e => there.isPrefixOf e.1 then f.locate there rest else missing name

def locatePath (f : Folder) (path : List Char) : Located :=
  if path.isEmpty then .error .missing
  else if isLong pathLimit path then .error .nameTooLong
  else if path.head? == some '/' then locateOutside true (path.splitOn '/')
  else f.locate [] (path.splitOn '/')

/-- The name under which the folder of the user is reached. No file has a name with this character. -/
def homeName : String := "\x00"

def access (working home : Folder) : Files Id :=
  let locate (path : String) : Located :=
    match path.toList with
    | '\x00' :: '/' :: rest => home.locatePath rest
    | path => working.locatePath path
  { read := fun path =>
      match locate path with
      | .error e => .error e
      | .ok none => .error .isDirectory
      | .ok (some content) =>
        match String.fromUTF8? content with
        | some s => .ok s
        | none => .error .notText
    contains := fun path => (locate path).isOk
    home := some homeName }

end Folder

end UiConformance
