/-
The order in which the bytes of an integer are stored.

A description names a byte order by a free token. Three spellings mean big-endian, and every other
token, the empty one included, means little-endian; so each token means something and reading one
cannot fail. `ByteOrder.ofOverride` is the rule for a member that may name an order of its own.
-/

set_option autoImplicit false

namespace WireRecord

/-- Most significant byte first, or least significant byte first. -/
inductive ByteOrder where
  | big
  | little
deriving DecidableEq, Repr

namespace ByteOrder

/-- The order that a token names: `b`, `big` and `big-endian` name big-endian, all others
little-endian. -/
def ofToken (token : String) : ByteOrder :=
  if token = "b" ∨ token = "big" ∨ token = "big-endian" then .big else .little

/-- The order of a member with its own token: the token's, unless there is none or it is empty, and
then the order that the member inherits. -/
def ofOverride (inherited : ByteOrder) : Option String → ByteOrder
  | some token => if token = "" then inherited else ofToken token
  | none => inherited

def name : ByteOrder → String
  | big => "Big"
  | little => "Little"

/-! ## What the tokens mean -/

@[simp] theorem ofOverride_none (inherited : ByteOrder) : ofOverride inherited none = inherited :=
  rfl

@[simp] theorem ofOverride_empty (inherited : ByteOrder) :
    ofOverride inherited (some "") = inherited := by
  simp [ofOverride]

theorem ofOverride_token {inherited : ByteOrder} {token : String} (h : token ≠ "") :
    ofOverride inherited (some token) = ofToken token := by
  simp [ofOverride, h]

end ByteOrder

end WireRecord
