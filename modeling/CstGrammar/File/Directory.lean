import Std.Data.ExtTreeMap
import CstGrammar.Grammar.Load

namespace CstGrammar

/-- The names on the way from the working directory to a place. Two dots, as the first names, lead
to the directory above; a slash, as the first name, leads to the root. -/
abbrev Place := List String

namespace Place

def isBase (p : Place) : Bool := p.all (fun name ↦ name = ".." ∨ name = "/")

def parent (p : Place) : Place :=
  if p = ["/"] then p else if p.isBase then p ++ [".."] else p.dropLast

def isInside (p : Place) : Bool := p.head?.all (fun name ↦ name ≠ ".." ∧ name ≠ "/")

end Place

/-- A path as it is written. One that ends with a slash can only mean a directory. -/
structure Path where
  start : Place
  names : List String
  slashed : Bool

def Path.split (text : String) : List String :=
  ((Text.pieces '/' text.toList).map String.ofList).filter (· ≠ "")

def Path.ofString (text : String) : Except FileError Path :=
  if text = "" then .error .notFound
  else if 4096 ≤ text.utf8ByteSize then .error .nameTooLong
  else
    .ok {
      start := if text.toList.head? = some '/' then ["/"] else []
      names := Path.split text
      slashed := text.toList.getLast? = some '/' }

/-- The files that can be reached from a working directory. Below it there are those directories
that hold files. -/
structure Directory where
  files : Std.ExtTreeMap Place ByteArray := ∅

namespace Directory

def content? (d : Directory) (p : Place) : Option ByteArray := d.files[p]?

def replace (d : Directory) (p : Place) (content : ByteArray) : Directory :=
  { files := d.files.insert p content }

inductive Entry
  | file (content : ByteArray)
  | directory

def find (d : Directory) (p : Place) : Except FileError Entry :=
  match d.content? p with
  | some content => .ok (.file content)
  | none =>
    if p.isBase || d.files.keys.any p.isPrefixOf then .ok .directory
    else if p.getLast?.any (255 < ·.utf8ByteSize) then .error .nameTooLong
    else .error .notFound

def follow (d : Directory) (p : Place) (name : String) : Except FileError Place := do
  match ← d.find p with
  | .file _ => .error .notDirectory
  | .directory =>
    if name = "." then return p
    else if name = ".." then return p.parent
    else return p ++ [name]

def locate (d : Directory) (path : Path) : Except FileError Place :=
  path.names.foldlM d.follow path.start

def read (d : Directory) (path : String) : Except FileError ByteArray := do
  let path ← Path.ofString path
  match ← d.find (← d.locate path) with
  | .file content => if path.slashed then .error .notDirectory else return content
  | .directory => .error .isDirectory

def target (d : Directory) (path : String) : Except FileError Place := do
  let path ← Path.ofString path
  let p ← d.locate path
  if path.slashed then .error .isDirectory
  else
    match d.find p with
    | .ok (.file _) | .error .notFound => return p
    | .ok .directory => .error .isDirectory
    | .error e => .error e

def create (d : Directory) (path : String) : Except FileError (Place × Directory) :=
  (d.target path).map (fun p ↦ (p, d.replace p .empty))

def write (d : Directory) (p : Place) (content : ByteArray) : Directory :=
  d.replace p ((d.content? p).getD .empty ++ content)

def findAbove? (d : Directory) (name : String) : Option ByteArray :=
  let depth := d.files.keys.foldl (fun n p ↦ max n p.length) 0
  (List.range (depth + 1)).findSome? (fun n ↦ d.content? (List.replicate n ".." ++ [name]))

end Directory

end CstGrammar
