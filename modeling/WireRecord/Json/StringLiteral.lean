/-
Strings in JSON texts.

Between its quotes a string is a list of pieces. A piece is a character, plain or by a short escape,
or a unit of 16 bits, by an escape with four hexadecimal digits. Units outside the surrogate range
are characters; a leading surrogate and the trailing surrogate right after it are one character, and
any other surrogate leaves the string without a value. Scanning finds the pieces and where the
string ends, and does not look at surrogates; pairing does.
-/
import WireRecord.Json.Token

set_option autoImplicit false

namespace WireRecord.Json

inductive Piece where
  | char (c : Char)
  | unit (n : Nat)
deriving DecidableEq

/-! ## Scanning -/

/-- The character of a short escape. -/
def shortEscape? : Char → Option Char
  | '"' => some '"'
  | '\\' => some '\\'
  | '/' => some '/'
  | 'b' => some '\x08'
  | 'f' => some '\x0c'
  | 'n' => some '\n'
  | 'r' => some '\r'
  | 't' => some '\t'
  | _ => none

/-- The value of a hexadecimal digit. -/
def hexDigit? (c : Char) : Option Nat :=
  if c.isDigit then some (c.toNat - '0'.toNat)
  else if 'a' ≤ c ∧ c ≤ 'f' then some (c.toNat - 'a'.toNat + 10)
  else if 'A' ≤ c ∧ c ≤ 'F' then some (c.toNat - 'A'.toNat + 10)
  else none

/-- The unit of four hexadecimal digits. -/
def hexUnit? (a b c d : Char) : Option Nat := do
  return (((← hexDigit? a) * 16 + (← hexDigit? b)) * 16 + (← hexDigit? c)) * 16 + (← hexDigit? d)

/-- The fault when fewer than four characters are left for the digits of a unit. Four bytes are
looked at together: if there are as many, at least one of them is no digit. -/
def shortUnitFault (left : List Char) : Fault :=
  if left.foldl (fun bytes c => bytes + c.utf8Size) 0 < 4 then .ended else .malformed

/-- Whether a character must be escaped. -/
def isControl (c : Char) : Bool := c.toNat < 0x20

/-- What scanning a string finds: the pieces, and the text after the closing quote or the fault that
comes before it. -/
structure StringScan where
  pieces : List Piece
  outcome : Except Fault (List Char)

namespace StringScan

def fault (f : Fault) : StringScan := ⟨[], .error f⟩

/-- A scan with one piece more at its beginning. -/
def cons (p : Piece) (s : StringScan) : StringScan := { s with pieces := p :: s.pieces }

end StringScan

/-- Scans a string from behind its opening quote. -/
def scanString : List Char → StringScan
  | [] => .fault .ended
  | '"' :: rest => ⟨[], .ok rest⟩
  | '\\' :: 'u' :: a :: b :: c :: d :: rest =>
    match hexUnit? a b c d with
    | some n => (scanString rest).cons (.unit n)
    | none => .fault .malformed
  | '\\' :: 'u' :: left => .fault (shortUnitFault left)
  | ['\\'] => .fault .ended
  | '\\' :: e :: rest =>
    match shortEscape? e with
    | some c => (scanString rest).cons (.char c)
    | none => .fault .malformed
  | c :: rest =>
    if isControl c then .fault .malformed else (scanString rest).cons (.char c)

/-- What comes after a string is shorter than what it began with. -/
theorem length_lt_of_scanString {text rest : List Char}
    (h : (scanString text).outcome = .ok rest) : rest.length < text.length := by
  fun_induction scanString text generalizing rest with
  | case1 => simp [StringScan.fault] at h
  | case2 => simp_all
  | case3 a b c d tail n hn ih =>
    have := ih h
    simp only [List.length_cons]
    omega
  | case4 => simp [StringScan.fault] at h
  | case5 => simp [StringScan.fault] at h
  | case6 => simp [StringScan.fault] at h
  | case7 e tail _ _ c hc ih =>
    have := ih h
    simp only [List.length_cons]
    omega
  | case8 => simp [StringScan.fault] at h
  | case9 => simp [StringScan.fault] at h
  | case10 c tail _ _ _ _ _ _ ih =>
    have := ih h
    simp only [List.length_cons]
    omega

/-! ## Pairing -/

/-- Whether a unit is the first half of a surrogate pair. -/
def isLeading (n : Nat) : Bool := 0xD800 ≤ n && n < 0xDC00

/-- Whether a unit is the second half of a surrogate pair. -/
def isTrailing (n : Nat) : Bool := 0xDC00 ≤ n && n < 0xE000

/-- The character of a surrogate pair. -/
def ofPair (leading trailing : Nat) : Char :=
  Char.ofNat (0x10000 + (leading - 0xD800) * 0x400 + (trailing - 0xDC00))

/-- The characters of a string, unless it has half a surrogate pair. -/
def pair? : List Piece → Option (List Char)
  | [] => some []
  | .char c :: rest => (pair? rest).map (c :: ·)
  | .unit n :: .unit m :: rest =>
    if isLeading n then
      if isTrailing m then (pair? rest).map (ofPair n m :: ·) else none
    else if isTrailing n then none
    else (pair? (.unit m :: rest)).map (Char.ofNat n :: ·)
  | .unit n :: rest =>
    if isLeading n || isTrailing n then none else (pair? rest).map (Char.ofNat n :: ·)

/-- Whether the pieces are the beginning of a string with a value: only a leading surrogate at the
very end may be without its other half. -/
def isPairedSoFar (pieces : List Piece) : Bool :=
  (pair? pieces).isSome ||
    match pieces.getLast? with
    | some (.unit n) => isLeading n && (pair? pieces.dropLast).isSome
    | _ => false

/-- The token of a string that is scanned from behind its opening quote. A reader meets half a
surrogate pair before a fault that comes later; skipping does not meet it at all. -/
def StringScan.token (s : StringScan) : Token :=
  match s.outcome with
  | .ok _ => .string ((pair? s.pieces).map String.ofList)
  | .error f => .brokenString ⟨if isPairedSoFar s.pieces then f else .malformed, f⟩

end WireRecord.Json
