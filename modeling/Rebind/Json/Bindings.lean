import Rebind.Json.Value
import Rebind.Scope

/-!
# Bindings as JSON
-/

namespace Rebind

/-- The bindings of a snippet as an object with three lists of names. -/
def Bindings.json (bindings : Bindings) : Json.Value :=
  .object [("global", .strings bindings.global), ("scope", .strings bindings.scope),
    ("constants", .strings bindings.constants)]

end Rebind
