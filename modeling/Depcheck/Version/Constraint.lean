import Depcheck.Version.Evr
import Depcheck.Version.Relation

/-!
# Version constraints

A constraint is a relation to one version, such as `>= 1.2-3`. Its relation is never empty: an
unversioned capability has no constraint at all. A version satisfies a constraint when its
comparison with the constraint's version is one of the relation's outcomes; two constraints
overlap when their relations leave room for a common version.
-/

namespace Depcheck

open Version (InvalidVersion)

/-- A relation to a version that at least one outcome of a comparison passes. -/
structure Constraint where
  relation : Relation
  evr : Evr
  relation_nonempty : relation.isEmpty = false
deriving DecidableEq

namespace Constraint

def ofRelation? (r : Relation) (e : Evr) : Option Constraint :=
  if h : r.isEmpty = false then some ⟨r, e, h⟩ else none

def exactly (e : Evr) : Constraint := ⟨.eq, e, rfl⟩

def isOperatorChar (c : Char) : Bool := c == '<' || c == '>' || c == '=' || c == '!'

/-- Reads an operator followed by a version; without an operator the constraint is exact. -/
def parseChars (s : List Char) : Except InvalidVersion Constraint :=
  let cs := Text.trim s
  match cs.takeWhile isOperatorChar with
  | [] => (Evr.parseChars cs).map exactly
  | op =>
    match h : Relation.ofOperator? op with
    | none => .error ⟨String.ofList cs⟩
    | some r =>
      (Evr.parseChars (cs.dropWhile isOperatorChar)).map fun e =>
        ⟨r, e, Relation.isEmpty_of_ofOperator? h⟩

def parse (s : String) : Except InvalidVersion Constraint := parseChars s.toList

def text (c : Constraint) : String := s!"{c.relation.text} {c.evr.text}"

def isSatisfiedBy (c : Constraint) (v : Evr) : Bool :=
  c.relation.admits (v.compareMatching c.evr)

/-- Is there room for a version that passes both constraints? -/
def overlaps (a b : Constraint) : Bool :=
  match a.evr.compareMatching b.evr with
  | .lt => a.relation.greater || b.relation.less
  | .gt => a.relation.less || b.relation.greater
  | .eq =>
    (a.relation.equal && b.relation.equal) || (a.relation.less && b.relation.less) ||
      (a.relation.greater && b.relation.greater)

end Constraint

end Depcheck
