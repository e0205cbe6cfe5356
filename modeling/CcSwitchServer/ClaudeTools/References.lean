import CcSwitchServer.Foundations.JsonPaths
import CcSwitchServer.Foundations.OrderedMap

/-! # References to tools in a Claude request (`proxy/claude_oauth.rs`)

The names of a request are rewritten by a map from names without case, and nothing else is.
-/

namespace CcSwitchServer.ClaudeTools
open Foundations Json Option

/-- Names of tools by wire name, or by name without case. -/
abbrev Names := OrderedMap String String

variable (names : Names)

variable (block : Json)

variable {L : Json → Path → Bool} {v w : Json} {p : Path} {key : String}

variable {names : Names} {block : Json}

end CcSwitchServer.ClaudeTools
