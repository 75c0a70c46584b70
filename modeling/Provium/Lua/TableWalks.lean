import Provium.Lua.JsonEntries
import Provium.Lua.Metadata

/-! The recursions along the tables of a test: `json.encode` and the conversion of a test's metadata. A recursion is
given a depth, past which it is not followed. -/
namespace Provium.Lua
open Lib Encoding Provium.Fixture

variable {φ : Type} {n : ℕ} [DecidableEq φ]
variable (F : Floats φ) (room : ℕ → Bool) (heap : LuaHeap φ n)

section Json
variable {F room heap} {α β : Type}

/-- A step of a list of steps. -/
def visitStep (visit : Fin n → Option Bool) : Step (Fin n) → Option Bool
  | .stop => some false
  | .abort => none
  | .leaf => some true
  | .node r => visit r

theorem run_cons (visit : Fin n → Option Bool) (s : Step (Fin n)) (l : List (Step (Fin n))) :
    Step.run visit (s::l) = if visitStep visit s = some true then Step.run visit l else visitStep visit s := by
  cases s with
  | stop => rfl
  | abort => rfl
  | leaf => rfl
  | node r =>
    rw [Step.run,visitStep]
    rcases visit r with _ | (_ | _) <;> rfl

end Json

/-! ## Where the recursions end -/

section Ends
variable {F room heap}

end Ends

end Provium.Lua
