import Diverge.Json.Decode
import Diverge.Program

/-!
# Options as documents

The options of a run are read from a JSON object with two members, each of which may be missing
and is then false.
-/

namespace Diverge

namespace Options

/-- The options that a JSON value stands for. -/
def ofJson (json : Json) : Except Json.Invalid Options := do
  let members ← Json.topMembers json
  let flag (name : String) : Bool :=
    ((Json.member? members name).map Json.toBool).getD false
  match Json.unknownNames members ["debug_log_state_merge", "output_locals_on_error"] with
  | [] =>
      pure { traceMerges := flag "debug_log_state_merge"
             reportLocals := flag "output_locals_on_error" }
  | unknown => throw (.fields .options [] unknown)

/-- The options that a text stands for. -/
def load (text : String) : Except Json.LoadFault Options := do
  let json ← (Json.parse text).mapError .unreadable
  (ofJson json).mapError .invalid

end Options

end Diverge
