import Dialogue.Text.Decimal
import Dialogue.Text.Hex
import Dialogue.Text.Reader

/-! # RON lexemes

The smallest parts of the settings notation: gaps with comments, names, numbers, quoted texts and
characters. A scan takes its part off the front of the text, or fails. -/

namespace Dialogue.Ron

abbrev Scan := StateT (List Char) Option

/-! ## Gaps -/

/-- What a gap is in the middle of; comments in `block n` lie in `n` others. -/
inductive Gap where
  | between
  | line
  | block (n : Nat)

/-- The text after a gap. A slash opens a comment or is wrong, and a block comment must end. -/
def Gap.skip? : Gap → List Char → Option (List Char)
  | .between, '/' :: '/' :: s => Gap.line.skip? s
  | .between, '/' :: '*' :: s => (Gap.block 0).skip? s
  | .between, '/' :: _ => none
  | .between, c :: s => if Text.isBlank c then Gap.between.skip? s else some (c :: s)
  | .between, [] => some []
  | .line, '\n' :: s => Gap.between.skip? s
  | .line, _ :: s => Gap.line.skip? s
  | .line, [] => some []
  | .block n, '/' :: '*' :: s => (Gap.block (n + 1)).skip? s
  | .block 0, '*' :: '/' :: s => Gap.between.skip? s
  | .block (n + 1), '*' :: '/' :: s => (Gap.block n).skip? s
  | .block n, _ :: s => (Gap.block n).skip? s
  | .block _, [] => none

def gap : Scan Unit := do
  match Gap.between.skip? (← get) with
  | some s => set s
  | none => failure

/-! ## Marks and names -/

/-- Takes a text if it is next. -/
def eat (text : String) : Scan Bool := do
  match text.toList.isPrefixOf? (← get) with
  | some s => set s; return true
  | none => return false

def expect (text : String) : Scan Unit := do
  unless ← eat text do failure

/-- Takes a comma with the gaps around it, if there is one. -/
def comma : Scan Bool := do
  gap
  if ← eat "," then gap; return true
  return false

def isNameStart (c : Char) : Bool := c.isAlpha || c = '_'

def isNameChar (c : Char) : Bool := c.isAlphanum || c = '_'

/-- Names after the mark `r#` may also hold dots and signs. -/
def isRawNameChar (c : Char) : Bool := isNameChar c || c = '.' || c = '+' || c = '-'

def startsWith (p : Char → Bool) (s : List Char) : Bool := (s.head?.map p).getD false

/-- Takes a whole word if it is next. -/
def word (text : String) : Scan Bool := do
  match text.toList.isPrefixOf? (← get) with
  | some s => if startsWith isNameChar s then return false else set s; return true
  | none => return false

/-- A name. The start of a raw text is none, nor is a word that only a raw name could go on. -/
def name : Scan String := do
  match ← get with
  | ['r'] => failure
  | 'r' :: '"' :: _ => failure
  | 'r' :: '#' :: s =>
      if !startsWith isRawNameChar s then failure
      set (s.dropWhile isRawNameChar)
      return String.ofList (s.takeWhile isRawNameChar)
  | s =>
      let rest := s.dropWhile isNameChar
      if !startsWith isNameStart s || startsWith isRawNameChar rest then failure
      set rest
      return String.ofList (s.takeWhile isNameChar)

/-! ## Numbers -/

def isIntegerChar (c : Char) : Bool := (Text.Hex.value? c).isSome || c = '_'

def isDecimalChar (c : Char) : Bool :=
  c.isDigit || c = 'e' || c = 'E' || c = '.' || c = '+' || c = '-' || c = '_'

/-- The base that a number is written in, and its digits on. -/
def splitBase : List Char → Nat × List Char
  | '0' :: 'x' :: s => (16, s)
  | '0' :: 'o' :: s => (8, s)
  | '0' :: 'b' :: s => (2, s)
  | s => (10, s)

/-- The number that digits in a base denote, where underscores do not count. -/
def ofDigits? (base : Nat) (digits : List Char) : Option Nat :=
  digits.foldlM (fun n c =>
    if c = '_' then some n
    else do
      let d ← Text.Hex.value? c
      if d < base then return n * base + d else none) 0

/-- A whole number below `bound`, without a sign. -/
def unsigned (bound : Nat) : Scan Nat := do
  let (base, s) := splitBase (← get)
  let digits := s.takeWhile isIntegerChar
  if digits = [] || startsWith (· = '_') digits then failure
  match ofDigits? base digits with
  | some n =>
      if bound ≤ n then failure
      set (s.dropWhile isIntegerChar)
      return n
  | none => failure

def dropSign : List Char → List Char
  | '+' :: s => s
  | '-' :: s => s
  | s => s

/-- A whole number of 64 bits, which may be negative if it has a sign. -/
def integer : Scan Unit := do
  match ← get with
  | '+' :: s => set s; discard <| unsigned 0x8000000000000000
  | '-' :: s => set s; discard <| unsigned 0x8000000000000001
  | _ => discard <| unsigned Text.Decimal.bound64

/-- Whether a text is an exponent, or nothing. -/
def isExponent : List Char → Bool
  | [] => true
  | c :: s =>
      let digits := dropSign s
      (c = 'e' || c = 'E') && digits ≠ [] && digits.all Char.isDigit

/-- Whether a text is a decimal number, with digits before or after the point. -/
def isDecimal (text : List Char) : Bool :=
  let s := dropSign text
  let whole := s.takeWhile Char.isDigit
  match s.dropWhile Char.isDigit with
  | '.' :: r =>
      (whole ≠ [] || startsWith Char.isDigit r) && isExponent (r.dropWhile Char.isDigit)
  | r => whole ≠ [] && isExponent r

/-- A decimal number, or a word for one that is not finite. -/
def decimal : Scan Unit := do
  for text in ["inf", "+inf", "-inf", "NaN", "+NaN", "-NaN"] do
    if ← word text then return
  let s ← get
  if !isDecimal (s.takeWhile isDecimalChar) then failure
  set (s.dropWhile isDecimalChar)

/-- A number of any kind. It counts as decimal if that reading takes more characters. -/
def number : Scan Unit := do
  let s := dropSign (← get)
  if (s.takeWhile isIntegerChar).length < (s.takeWhile isDecimalChar).length then decimal
  else integer <|> decimal

/-! ## Texts and characters -/

/-- Whether a number is that of a character. -/
def isScalarValue (n : Nat) : Bool := n < 0xD800 || (0xE000 ≤ n && n < 0x110000)

/-- The text after an escape, from the character after its backslash on. -/
def escape? : List Char → Option (List Char)
  | 'x' :: a :: b :: s =>
      if (Text.Hex.value? a).isSome && (Text.Hex.value? b).isSome then some s else none
  | 'u' :: '{' :: s =>
      let digits := s.takeWhile (· ≠ '}')
      match ofDigits? 16 digits, s.dropWhile (· ≠ '}') with
      | some n, _ :: r =>
          if digits ≠ [] && digits.length ≤ 6 && !digits.contains '_' && isScalarValue n then some r
          else none
      | _, _ => none
  | c :: s => if c ∈ ['\'', '"', '\\', 'n', 'r', 't', '0'] then some s else none
  | [] => none

/-- The text after a quoted text, from the character after its opening quote on. A character takes
a step, so a `bound` as long as the text suffices. -/
def quoted? : (bound s : List Char) → Option (List Char)
  | _, '"' :: s => some s
  | _ :: bound, '\\' :: s => (escape? s).bind (quoted? bound)
  | _ :: bound, _ :: s => quoted? bound s
  | _, _ => none

/-- The text after a raw text, which ends with a quote and as many hashes as it started with. -/
def raw? (close : List Char) : List Char → Option (List Char)
  | [] => none
  | c :: s =>
      match close.isPrefixOf? (c :: s) with
      | some r => some r
      | none => raw? close s

def text : Scan Unit := do
  let rest := match ← get with
    | '"' :: s => quoted? s s
    | 'r' :: s =>
        match s.dropWhile (· = '#') with
        | '"' :: r => raw? ('"' :: s.takeWhile (· = '#')) r
        | _ => none
    | _ => none
  match rest with
  | some s => set s
  | none => failure

def character : Scan Unit := do
  let rest := match ← get with
    | '\'' :: '\\' :: s => escape? s
    | '\'' :: c :: s => if c = '\'' then none else some s
    | _ => none
  match rest with
  | some ('\'' :: s) => set s
  | _ => failure

end Dialogue.Ron
