import Mathlib.Tactic.Common

/-!
# The framework

What the functions of the repository return to the framework they run on, and get from it.
-/

namespace HomeAssistant

/-- Error codes of the framework. -/
inductive EspErr
  | ok
  | fail
  | errNotFound
  | errTimeout
  | errHttpdResultTrunc
  | errNvsNotFound
  | errNvsInvalidLength
  | errNvsNotEnoughSpace
  deriving DecidableEq

end HomeAssistant
