/-!
Signed 32-bit arithmetic on integers: saturating, wrapping and checked.
-/
namespace LuaEmbed.Word32

def least : Int := -2147483648

def greatest : Int := 2147483647

def InRange (i : Int) : Prop := least ≤ i ∧ i ≤ greatest

instance (i : Int) : Decidable (InRange i) := inferInstanceAs (Decidable (_ ∧ _))

/-- The representable number nearest to `i`. -/
def saturate (i : Int) : Int := if i < least then least else if greatest < i then greatest else i

/-- What an unchecked operation leaves of its exact result. -/
def wrap (i : Int) : Int := Int.bmod i 4294967296

/-- A result that must be representable. -/
def checked? (i : Int) : Option Int := if InRange i then some i else none

end LuaEmbed.Word32
