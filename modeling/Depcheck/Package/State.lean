/-!
# Package states

What is known about a package beyond its declaration: whether the user marked it, whether it was
marked as a dependency, and what the last verification found. Verification owns the last two
flags and never touches the marks.
-/

namespace Depcheck

structure PackageState where
  /-- Selected by the user. -/
  hand : Bool := false
  /-- Selected because a selected package needs it. -/
  dep : Bool := false
  /-- Has a requirement that cannot be met, itself or through what it requires. -/
  unmet : Bool := false
  /-- Made obsolete by another package. -/
  obsoleted : Bool := false
deriving Repr, DecidableEq, Inhabited

namespace PackageState

def markByHand (s : PackageState) : PackageState := { s with hand := true }

def markAsDependency (s : PackageState) : PackageState := { s with dep := true }

def unmark (s : PackageState) : PackageState := { s with hand := false, dep := false }

def setUnmet (s : PackageState) : PackageState := { s with unmet := true }

def setObsoleted (s : PackageState) : PackageState := { s with obsoleted := true }

/-- Drops what a verification found and keeps the marks. -/
def clearDerived (s : PackageState) : PackageState := { s with unmet := false, obsoleted := false }

def isMarked (s : PackageState) : Bool := s.hand || s.dep

end PackageState

end Depcheck
