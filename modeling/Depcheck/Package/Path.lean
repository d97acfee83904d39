import Depcheck.Text.Split

/-!
# Paths

A path is split at its last slash into the directory and the name below it. Slashes at the end of
a path do not count, except that `/` itself stays: `/usr/lib/` and `/usr/lib` both split into
`/usr` and `lib`, and an entry of the root directory splits into `/` and its name.
-/

namespace Depcheck.Path

/-- Drops the slashes at the end of a path of two or more characters. -/
def normalizeChars (s : List Char) : List Char :=
  if s.length > 1 then (s.reverse.dropWhile (· == '/')).reverse else s

def normalize (path : String) : String := String.ofList (normalizeChars path.toList)

/-- The directory and the name below it, as characters. A path without a slash lies in the
directory with the empty name. -/
def splitChars (s : List Char) : List Char × List Char :=
  match Text.splitLast '/' (normalizeChars s) with
  | some ([], base) => (['/'], base)
  | some (dir, base) => (dir, base)
  | none => ([], normalizeChars s)

def split (path : String) : String × String :=
  let (dir, base) := splitChars path.toList
  (String.ofList dir, String.ofList base)

/-- Does the path end in a slash that marks it as a directory? -/
def namesDirectory (path : String) : Bool :=
  decide (path.toList.length > 1) && path.toList.getLast? == some '/'

def isAbsolute (path : String) : Bool := ['/'].isPrefixOf path.toList

def join (dir base : String) : String :=
  if dir = "/" then "/" ++ base else dir ++ "/" ++ base

end Depcheck.Path
