import Depcheck.Error
import Depcheck.Platform
import Depcheck.Verification.Run

/-!
# Configuration

Every field of a configuration has a default, so that nothing at all is a configuration. `validate`
refuses one without a package manager or with a platform capability that cannot be read.
-/

namespace Depcheck

structure PlatformConfig where
  /-- Include the stock features of the package manager. -/
  stock : Bool := true
  /-- Further capabilities, in text form. -/
  provides : List String := []
deriving Repr, DecidableEq

structure Config where
  /-- An unversioned capability fails a versioned requirement. -/
  strict : Bool := true
  /-- Keep only the newest package of each name. -/
  uniqueNames : Bool := false
  passes : Passes := {}
  /-- The name of the package manager's own package. -/
  manager : String := "rpm"
  platform : PlatformConfig := {}
deriving Repr, DecidableEq

namespace PlatformConfig

def build (c : PlatformConfig) : Except MalformedCapability Platform :=
  Platform.ofTexts c.stock c.provides

end PlatformConfig

namespace Config

/-- Reads the platform capabilities and throws away what they say. -/
def checkProvides : List String → Except InvalidConfig Unit
  | [] => .ok ()
  | text :: rest =>
    match Capability.parse text with
    | .error e => .error (.badProvide text e)
    | .ok _ => checkProvides rest

/-- Refuses a configuration that names no package manager or lists an unreadable capability. -/
def validate (c : Config) : Except InvalidConfig Unit :=
  if Text.trim c.manager.toList = [] then .error .noManager else checkProvides c.platform.provides

end Config

end Depcheck
