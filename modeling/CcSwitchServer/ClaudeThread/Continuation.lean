import CcSwitchServer.ClaudeThread.Retrieval

/-! # Continuing a thread (`proxy/claude_thread_alias.rs`)

The names of a continued thread come from one map.
-/

namespace CcSwitchServer.ClaudeThread
open Foundations ClaudeTools

end CcSwitchServer.ClaudeThread
