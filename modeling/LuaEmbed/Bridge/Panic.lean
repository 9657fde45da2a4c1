/-!
Panics: how host code breaks off. What a panic carries is dropped by whoever catches it, and that may
panic again.
-/
namespace LuaEmbed

/-- What a panic carries: a text or some other value, with the panic that dropping it comes to. -/
inductive Panic where
  | text (s : String)
  | other (dropping : Option Panic)

namespace Panic

/-- The text of it that messages show. -/
def message : Panic → String
  | text s => s
  | other _ => "non-string panic payload"

/-- The panic that dropping it comes to, if that does not go well. A text is always dropped well. -/
def dropping : Panic → Option Panic
  | text _ => none
  | other p => p

end Panic
end LuaEmbed
