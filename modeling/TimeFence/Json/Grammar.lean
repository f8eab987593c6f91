import Mathlib

/-!
# The grammar of JSON

The syntax of RFC 8259, section by section, as relations between a text (a list
of characters) and what it denotes. A number denotes its exact decimal value
`mantissa · 10^exponent`, an object its members in the order of the text.

`Document t v` says that `t` is a well-formed JSON text that denotes `v`. The
whitespace that the grammar allows around each structural character is given
here to the elements and members between them.
-/

namespace TimeFence.Json

/-- What a JSON text denotes. -/
inductive Value where
  | null
  | bool (b : Bool)
  | number (mantissa exponent : ℤ)
  | string (s : String)
  | array (elements : List Value)
  | object (members : List (String × Value))

/-! ## Characters -/

/-- `ws` (section 2). -/
def isWs (c : Char) : Bool := c = ' ' || c = '\t' || c = '\n' || c = '\r'

/-- A run of whitespace. -/
def Ws (t : List Char) : Prop := ∀ c ∈ t, isWs c = true

instance (t : List Char) : Decidable (Ws t) := List.decidableBAll (isWs · = true) t

/-- A run of `DIGIT`. -/
def Digits (t : List Char) : Prop := ∀ c ∈ t, c.isDigit = true

/-- The number that a run of digits denotes. -/
def digitsValue (t : List Char) : ℕ := Nat.ofDigitChars 10 t 0

/-- `HEXDIG`. -/
def hexValue (c : Char) : Option ℕ :=
  if c.isDigit then some (c.toNat - '0'.toNat)
  else if 'a' ≤ c ∧ c ≤ 'f' then some (c.toNat - 'a'.toNat + 10)
  else if 'A' ≤ c ∧ c ≤ 'F' then some (c.toNat - 'A'.toNat + 10)
  else none

/-- `4HEXDIG`. -/
def hex4 (a b c d : Char) : Option ℕ := do
  let a ← hexValue a
  let b ← hexValue b
  let c ← hexValue c
  let d ← hexValue d
  pure (((a * 16 + b) * 16 + c) * 16 + d)

/-- The two halves of a surrogate pair. -/
def isHighSurrogate (n : ℕ) : Bool := 0xD800 ≤ n && n ≤ 0xDBFF

def isLowSurrogate (n : ℕ) : Bool := 0xDC00 ≤ n && n ≤ 0xDFFF

/-- The character of a surrogate pair. -/
def pairChar (high low : ℕ) : Char :=
  Char.ofNat (0x10000 + (high - 0xD800) * 0x400 + (low - 0xDC00))

/-- The two-character escapes (section 7). -/
def simpleEscape : Char → Option Char
  | '"' => some '"'
  | '\\' => some '\\'
  | '/' => some '/'
  | 'b' => some '\x08'
  | 'f' => some '\x0c'
  | 'n' => some '\n'
  | 'r' => some '\r'
  | 't' => some '\t'
  | _ => none

/-! ## Numbers (section 6) -/

/-- `int = zero / ( digit1-9 *DIGIT )`. -/
inductive IntPart : List Char → Prop where
  | zero : IntPart ['0']
  | digits {d : Char} {ds : List Char} (hd : d.isDigit = true) (hd0 : d ≠ '0') (hds : Digits ds) :
      IntPart (d :: ds)

/-- `[ frac ]` with its digits. -/
inductive FracPart : List Char → List Char → Prop where
  | absent : FracPart [] []
  | present {ds : List Char} (hne : ds ≠ []) (hds : Digits ds) : FracPart ('.' :: ds) ds

/-- `[ minus / plus ]` of an exponent. -/
inductive ExpSign : List Char → ℤ → Prop where
  | absent : ExpSign [] 1
  | plus : ExpSign ['+'] 1
  | minus : ExpSign ['-'] (-1)

/-- `[ exp ]` with its value. -/
inductive ExpPart : List Char → ℤ → Prop where
  | absent : ExpPart [] 0
  | present {e : Char} {sign ds : List Char} {s : ℤ} (he : e = 'e' ∨ e = 'E')
      (hsign : ExpSign sign s) (hne : ds ≠ []) (hds : Digits ds) :
      ExpPart (e :: (sign ++ ds)) (s * digitsValue ds)

/-- `number = [ minus ] int [ frac ] [ exp ]`. -/
inductive Number : List Char → ℤ → ℤ → Prop where
  | positive {int frac fracDigits exp : List Char} {e : ℤ} (hint : IntPart int)
      (hfrac : FracPart frac fracDigits) (hexp : ExpPart exp e) :
      Number (int ++ (frac ++ exp)) (digitsValue (int ++ fracDigits)) (e - fracDigits.length)
  | negative {int frac fracDigits exp : List Char} {e : ℤ} (hint : IntPart int)
      (hfrac : FracPart frac fracDigits) (hexp : ExpPart exp e) :
      Number ('-' :: (int ++ (frac ++ exp))) (-digitsValue (int ++ fracDigits))
        (e - fracDigits.length)

/-! ## Strings (section 7) -/

/-- `char`, with the character that it denotes. A surrogate half on its own
    denotes no character. -/
inductive CharText : List Char → Char → Prop where
  | unescaped {c : Char} (hcontrol : 0x20 ≤ c.toNat) (hquote : c ≠ '"') (hbackslash : c ≠ '\\') :
      CharText [c] c
  | escape {e c : Char} (h : simpleEscape e = some c) : CharText ['\\', e] c
  | unicode {a b c d : Char} {n : ℕ} (h : hex4 a b c d = some n)
      (hhigh : isHighSurrogate n = false) (hlow : isLowSurrogate n = false) :
      CharText ['\\', 'u', a, b, c, d] (Char.ofNat n)
  | pair {a b c d a' b' c' d' : Char} {n m : ℕ} (h : hex4 a b c d = some n)
      (hhigh : isHighSurrogate n = true) (h' : hex4 a' b' c' d' = some m)
      (hlow : isLowSurrogate m = true) :
      CharText ['\\', 'u', a, b, c, d, '\\', 'u', a', b', c', d'] (pairChar n m)

/-- `*char`. -/
inductive Chars : List Char → List Char → Prop where
  | nil : Chars [] []
  | cons {t ts : List Char} {c : Char} {cs : List Char} (hc : CharText t c) (hcs : Chars ts cs) :
      Chars (t ++ ts) (c :: cs)

/-- `string = quotation-mark *char quotation-mark`. -/
inductive StringText : List Char → String → Prop where
  | mk {t cs : List Char} (h : Chars t cs) : StringText ('"' :: (t ++ ['"'])) (String.ofList cs)

/-! ## Values (sections 3 to 5) -/

mutual

/-- `value`. -/
inductive ValueText : List Char → Value → Prop where
  | nullName : ValueText ['n', 'u', 'l', 'l'] .null
  | trueName : ValueText ['t', 'r', 'u', 'e'] (.bool true)
  | falseName : ValueText ['f', 'a', 'l', 's', 'e'] (.bool false)
  | number {t : List Char} {m e : ℤ} (h : Number t m e) : ValueText t (.number m e)
  | string {t : List Char} {s : String} (h : StringText t s) : ValueText t (.string s)
  | emptyArray {w : List Char} (hw : Ws w) : ValueText ('[' :: (w ++ [']'])) (.array [])
  | array {t : List Char} {vs : List Value} (h : Elements t vs) :
      ValueText ('[' :: (t ++ [']'])) (.array vs)
  | emptyObject {w : List Char} (hw : Ws w) : ValueText ('\x7b' :: (w ++ ['\x7d'])) (.object [])
  | object {t : List Char} {ms : List (String × Value)} (h : Members t ms) :
      ValueText ('\x7b' :: (t ++ ['\x7d'])) (.object ms)

/-- `value *( value-separator value )`, with the whitespace around each value. -/
inductive Elements : List Char → List Value → Prop where
  | last {w t w' : List Char} {v : Value} (hw : Ws w) (hv : ValueText t v) (hw' : Ws w') :
      Elements (w ++ (t ++ w')) [v]
  | cons {w t w' ts : List Char} {v : Value} {vs : List Value} (hw : Ws w) (hv : ValueText t v)
      (hw' : Ws w') (hvs : Elements ts vs) :
      Elements (w ++ (t ++ (w' ++ ',' :: ts))) (v :: vs)

/-- `member *( value-separator member )`, with the whitespace around each member
    and around its `name-separator`. -/
inductive Members : List Char → List (String × Value) → Prop where
  | last {w k w₁ w₂ t w' : List Char} {key : String} {v : Value} (hw : Ws w)
      (hk : StringText k key) (hw₁ : Ws w₁) (hw₂ : Ws w₂) (hv : ValueText t v) (hw' : Ws w') :
      Members (w ++ (k ++ (w₁ ++ ':' :: (w₂ ++ (t ++ w'))))) [(key, v)]
  | cons {w k w₁ w₂ t w' ts : List Char} {key : String} {v : Value} {ms : List (String × Value)}
      (hw : Ws w) (hk : StringText k key) (hw₁ : Ws w₁) (hw₂ : Ws w₂) (hv : ValueText t v)
      (hw' : Ws w') (hms : Members ts ms) :
      Members (w ++ (k ++ (w₁ ++ ':' :: (w₂ ++ (t ++ (w' ++ ',' :: ts)))))) ((key, v) :: ms)

end

/-- `JSON-text = ws value ws`. -/
inductive Document : List Char → Value → Prop where
  | mk {w t w' : List Char} {v : Value} (hw : Ws w) (h : ValueText t v) (hw' : Ws w') :
      Document (w ++ (t ++ w')) v

end TimeFence.Json
