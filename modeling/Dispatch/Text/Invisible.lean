import Dispatch.Text.Invisible.Extending
import Dispatch.Text.Invisible.Shapeless
import Dispatch.Text.Invisible.Unassigned

/-!
# Characters that are not shown as themselves

A character is invisible if it has no shape of its own, if it changes the look of the character before
it, or if nothing is assigned to its code point.
-/

namespace Dispatch.Text

/-- Whether a character is not shown as itself. -/
def isInvisible (c : Char) : Bool :=
  shapeless.contains c || extending.contains c || unassigned.contains c

end Dispatch.Text
