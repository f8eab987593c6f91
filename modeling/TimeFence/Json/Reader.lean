import TimeFence.Json.Grammar

/-!
# A JSON reader

A recursive-descent reader for the grammar. It takes the longest number it can
find, skips whitespace where the grammar allows it, and refuses everything else.
Each function returns what it read and the rest of the text; `fuel` bounds the
recursion, and twice the length of the text is always enough.

`read_of_document`: the reader returns the value of every well-formed text. So a
text denotes at most one value (`Document.unique`).
-/

namespace TimeFence.Json

/-! ## The reader -/

def skipWs (t : List Char) : List Char := t.dropWhile isWs

/-- `DIGIT`s, as many as there are. -/
def readDigits (t : List Char) : List Char × List Char := t.span Char.isDigit

def readIntPart : List Char → Option (List Char × List Char)
  | [] => none
  | c :: t =>
    if c = '0' then some (['0'], t)
    else if c.isDigit then some (readDigits (c :: t))
    else none

def readFracPart : List Char → Option (List Char × List Char)
  | [] => some ([], [])
  | c :: t =>
    if c = '.' then
      let (ds, t) := readDigits t
      if ds.isEmpty then none else some (ds, t)
    else some ([], c :: t)

def readExpSign : List Char → ℤ × List Char
  | [] => (1, [])
  | c :: t => if c = '+' then (1, t) else if c = '-' then (-1, t) else (1, c :: t)

def readExpPart : List Char → Option (ℤ × List Char)
  | [] => some (0, [])
  | c :: t =>
    if c = 'e' ∨ c = 'E' then
      let (s, t) := readExpSign t
      let (ds, t) := readDigits t
      if ds.isEmpty then none else some (s * digitsValue ds, t)
    else some (0, c :: t)

/-- A number without its sign, as mantissa and exponent. -/
def readUnsigned (t : List Char) : Option ((ℕ × ℤ) × List Char) := do
  let (int, t) ← readIntPart t
  let (frac, t) ← readFracPart t
  let (e, t) ← readExpPart t
  pure ((digitsValue (int ++ frac), e - frac.length), t)

def readNumber : List Char → Option (Value × List Char)
  | [] => none
  | c :: t =>
    if c = '-' then (readUnsigned t).map fun ((m, e), t) => (.number (-m) e, t)
    else (readUnsigned (c :: t)).map fun ((m, e), t) => (.number m e, t)

def readHex4 : List Char → Option (ℕ × List Char)
  | a :: b :: c :: d :: t => (hex4 a b c d).map fun n => (n, t)
  | _ => none

/-- What follows `\u`. -/
def readUnicode (t : List Char) : Option (Char × List Char) := do
  let (n, t) ← readHex4 t
  if isHighSurrogate n then
    match t with
    | b :: u :: t =>
      if b = '\\' ∧ u = 'u' then do
        let (m, t) ← readHex4 t
        if isLowSurrogate m then some (pairChar n m, t) else none
      else none
    | _ => none
  else if isLowSurrogate n then none
  else some (Char.ofNat n, t)

/-- What follows a backslash. -/
def readEscape : List Char → Option (Char × List Char)
  | [] => none
  | e :: t => if e = 'u' then readUnicode t else (simpleEscape e).map fun c => (c, t)

/-- One `char`, whose text starts with `c`. -/
def readChar (c : Char) (t : List Char) : Option (Char × List Char) :=
  if c = '\\' then readEscape t else if c.toNat < 0x20 then none else some (c, t)

/-- The characters up to the closing quotation mark. -/
def readChars : ℕ → List Char → Option (List Char × List Char)
  | 0, _ => none
  | _ + 1, [] => none
  | fuel + 1, c :: t =>
    if c = '"' then some ([], t)
    else do
      let (x, t) ← readChar c t
      let (xs, t) ← readChars fuel t
      pure (x :: xs, t)

/-- A string, after its opening quotation mark. -/
def readString (fuel : ℕ) (t : List Char) : Option (String × List Char) :=
  (readChars fuel t).map fun (cs, t) => (String.ofList cs, t)

/-- The name of a member and its `name-separator`. -/
def readKey (fuel : ℕ) : List Char → Option (String × List Char)
  | [] => none
  | c :: t =>
    if c = '"' then do
      let (key, t) ← readString fuel t
      match skipWs t with
      | [] => none
      | c :: t => if c = ':' then some (key, t) else none
    else none

/-- The rest of a literal name. -/
def readWord (word : List Char) (v : Value) (t : List Char) : Option (Value × List Char) :=
  if t.take word.length = word then some (v, t.drop word.length) else none

mutual

/-- `value`. -/
def readValue : ℕ → List Char → Option (Value × List Char)
  | 0, _ => none
  | _ + 1, [] => none
  | fuel + 1, c :: t =>
    if c = '"' then (readString fuel t).map fun (s, t) => (.string s, t)
    else if c = '[' then
      if (skipWs t).head? = some ']' then some (.array [], (skipWs t).tail)
      else (readElements fuel t).map fun (vs, t) => (.array vs, t)
    else if c = '\x7b' then
      if (skipWs t).head? = some '\x7d' then some (.object [], (skipWs t).tail)
      else (readMembers fuel t).map fun (ms, t) => (.object ms, t)
    else if c = 'n' then readWord ['u', 'l', 'l'] .null t
    else if c = 't' then readWord ['r', 'u', 'e'] (.bool true) t
    else if c = 'f' then readWord ['a', 'l', 's', 'e'] (.bool false) t
    else readNumber (c :: t)

/-- The elements up to the closing bracket. -/
def readElements : ℕ → List Char → Option (List Value × List Char)
  | 0, _ => none
  | fuel + 1, t => do
    let (v, t) ← readValue fuel (skipWs t)
    match skipWs t with
    | [] => none
    | c :: t =>
      if c = ']' then some ([v], t)
      else if c = ',' then (readElements fuel t).map fun (vs, t) => (v :: vs, t)
      else none

/-- The members up to the closing brace. -/
def readMembers : ℕ → List Char → Option (List (String × Value) × List Char)
  | 0, _ => none
  | fuel + 1, t => do
    let (key, t) ← readKey fuel (skipWs t)
    let (v, t) ← readValue fuel (skipWs t)
    match skipWs t with
    | [] => none
    | c :: t =>
      if c = '\x7d' then some ([(key, v)], t)
      else if c = ',' then (readMembers fuel t).map fun (ms, t) => ((key, v) :: ms, t)
      else none

end

/-- A whole text. -/
def read (t : List Char) : Option Value := do
  let (v, rest) ← readValue (2 * t.length + 1) (skipWs t)
  if skipWs rest = [] then some v else none

/-! ## Whitespace and digits -/

theorem skipWs_append {w t : List Char} (hw : Ws w) (ht : ∀ c ∈ t.head?, isWs c = false) :
    skipWs (w ++ t) = t := by
  unfold skipWs
  rw [List.dropWhile_append_of_pos hw]
  cases t with
  | nil => rfl
  | cons c t =>
    have hc : isWs c = false := ht c (by simp)
    simp [hc]

theorem skipWs_nil_right {w : List Char} (hw : Ws w) : skipWs w = [] := by
  have h := skipWs_append (t := []) hw (by simp)
  rwa [List.append_nil] at h

theorem readDigits_append {ds t : List Char} (hds : Digits ds)
    (ht : ∀ c ∈ t.head?, c.isDigit = false) : readDigits (ds ++ t) = (ds, t) := by
  unfold readDigits
  rw [List.span_eq_takeWhile_dropWhile, List.takeWhile_append_of_pos hds,
    List.dropWhile_append_of_pos hds]
  cases t with
  | nil => simp
  | cons c t =>
    have hc : c.isDigit = false := ht c (by simp)
    simp [hc]

/-! ## Numbers -/

/-- What may follow a value: nothing that would continue a number. -/
def Follow (t : List Char) : Prop :=
  ∀ c ∈ t.head?, c.isDigit = false ∧ c ≠ '.' ∧ c ≠ 'e' ∧ c ≠ 'E'

theorem IntPart.head {int : List Char} (h : IntPart int) :
    ∃ c t, int = c :: t ∧ c.isDigit = true := by
  cases h with
  | zero => exact ⟨_, _, rfl, rfl⟩
  | digits hd _ _ => exact ⟨_, _, rfl, hd⟩

theorem readIntPart_append {int t : List Char} (h : IntPart int)
    (ht : ∀ c ∈ t.head?, c.isDigit = false) : readIntPart (int ++ t) = some (int, t) := by
  cases h with
  | zero => rfl
  | @digits d ds hd hd0 hds =>
    have hall : Digits (d :: ds) := by
      intro c hc
      rcases List.mem_cons.mp hc with rfl | hc
      · exact hd
      · exact hds c hc
    have hread := readDigits_append hall ht
    rw [List.cons_append] at hread ⊢
    rw [readIntPart, if_neg hd0, if_pos hd, hread]

theorem readFracPart_append {frac ds t : List Char} (h : FracPart frac ds)
    (ht : ∀ c ∈ t.head?, c.isDigit = false ∧ c ≠ '.') :
    readFracPart (frac ++ t) = some (ds, t) := by
  cases h with
  | absent =>
    cases t with
    | nil => rfl
    | cons c t =>
      have hc : c ≠ '.' := (ht c (by simp)).2
      simp [readFracPart, hc]
  | present hne hds =>
    have hread := readDigits_append hds fun c hc => (ht c hc).1
    simp [readFracPart, hread, hne]

theorem readExpPart_append {exp t : List Char} {e : ℤ} (h : ExpPart exp e) (ht : Follow t) :
    readExpPart (exp ++ t) = some (e, t) := by
  cases h with
  | absent =>
    cases t with
    | nil => rfl
    | cons c t =>
      obtain ⟨-, -, he, hE⟩ := ht c (by simp)
      simp [readExpPart, he, hE]
  | @present e sign ds s he hsign hne hds =>
    have hread := readDigits_append hds fun c hc => (ht c hc).1
    have hsignread : readExpSign (sign ++ (ds ++ t)) = (s, ds ++ t) := by
      cases hsign with
      | plus => rfl
      | minus => rfl
      | absent =>
        cases ds with
        | nil => exact absurd rfl hne
        | cons d ds =>
          have hd : d.isDigit = true := hds d (by simp)
          have hplus : d ≠ '+' := by rintro rfl; exact absurd hd (by decide)
          have hminus : d ≠ '-' := by rintro rfl; exact absurd hd (by decide)
          simp [readExpSign, hplus, hminus]
    simp [readExpPart, he, hsignread, hread, hne]

/-- The exponent part does not continue the digits before it. -/
theorem ExpPart.head {exp t : List Char} {e : ℤ} (h : ExpPart exp e) (ht : Follow t) :
    ∀ c ∈ (exp ++ t).head?, c.isDigit = false ∧ c ≠ '.' := by
  intro c hc
  cases h with
  | absent => exact ⟨(ht c hc).1, (ht c hc).2.1⟩
  | present he _ _ _ =>
    rw [List.cons_append, List.head?_cons, Option.mem_some_iff] at hc
    subst hc
    rcases he with rfl | rfl <;> decide

theorem FracPart.head {frac ds t : List Char} (h : FracPart frac ds)
    (ht : ∀ c ∈ t.head?, c.isDigit = false ∧ c ≠ '.') :
    ∀ c ∈ (frac ++ t).head?, c.isDigit = false := by
  intro c hc
  cases h with
  | absent => exact (ht c hc).1
  | present _ _ =>
    rw [List.cons_append, List.head?_cons, Option.mem_some_iff] at hc
    subst hc
    decide

theorem readUnsigned_append {int frac ds exp t : List Char} {e : ℤ} (hint : IntPart int)
    (hfrac : FracPart frac ds) (hexp : ExpPart exp e) (ht : Follow t) :
    readUnsigned (int ++ (frac ++ exp) ++ t) =
      some ((digitsValue (int ++ ds), e - ds.length), t) := by
  have hexphead := hexp.head ht
  rw [List.append_assoc, List.append_assoc, readUnsigned,
    readIntPart_append hint (hfrac.head hexphead)]
  simp [readFracPart_append hfrac hexphead, readExpPart_append hexp ht]

theorem Number.head {t : List Char} {m e : ℤ} (h : Number t m e) :
    ∃ c t', t = c :: t' ∧ (c = '-' ∨ c.isDigit = true) := by
  cases h with
  | positive hint _ _ =>
    obtain ⟨c, t', rfl, hc⟩ := hint.head
    exact ⟨c, _, rfl, .inr hc⟩
  | negative _ _ _ => exact ⟨'-', _, rfl, .inl rfl⟩

theorem readNumber_append {n t : List Char} {m e : ℤ} (h : Number n m e) (ht : Follow t) :
    readNumber (n ++ t) = some (.number m e, t) := by
  cases h with
  | positive hint hfrac hexp =>
    have hread := readUnsigned_append hint hfrac hexp ht
    obtain ⟨c, t', rfl, hc⟩ := hint.head
    have hminus : c ≠ '-' := by rintro rfl; exact absurd hc (by decide)
    rw [List.cons_append, List.cons_append] at hread ⊢
    rw [readNumber, if_neg hminus, hread]
    rfl
  | negative hint hfrac hexp =>
    rw [List.cons_append, readNumber, if_pos rfl, readUnsigned_append hint hfrac hexp ht]
    rfl

/-! ## Strings -/

theorem readChar_append {t : List Char} {c : Char} (h : CharText t c) (rest : List Char) :
    ∃ b t', t = b :: t' ∧ b ≠ '"' ∧ readChar b (t' ++ rest) = some (c, rest) := by
  cases h with
  | unescaped hcontrol hquote hbackslash =>
    refine ⟨c, [], rfl, hquote, ?_⟩
    rw [readChar, if_neg hbackslash, if_neg (by omega)]
    rfl
  | @escape e _ he =>
    refine ⟨'\\', [e], rfl, by decide, ?_⟩
    have hu : e ≠ 'u' := by rintro rfl; simp [simpleEscape] at he
    simp [readChar, readEscape, hu, he]
  | unicode hhex hhigh hlow =>
    refine ⟨'\\', _, rfl, by decide, ?_⟩
    simp [readChar, readEscape, readUnicode, readHex4, hhex, hhigh, hlow]
  | pair hhex hhigh hhex' hlow =>
    refine ⟨'\\', _, rfl, by decide, ?_⟩
    simp [readChar, readEscape, readUnicode, readHex4, hhex, hhigh, hhex', hlow]

theorem readChars_append {t cs : List Char} (h : Chars t cs) (rest : List Char) :
    ∀ fuel, t.length < fuel → readChars fuel (t ++ '"' :: rest) = some (cs, rest) := by
  induction h with
  | nil =>
    intro fuel hfuel
    cases fuel with
    | zero => omega
    | succ fuel => rfl
  | @cons t ts c cs hc _ ih =>
    intro fuel hfuel
    obtain ⟨b, t', rfl, hb, hread⟩ := readChar_append hc (ts ++ '"' :: rest)
    cases fuel with
    | zero => omega
    | succ fuel =>
      have hrest := ih fuel (by simp at hfuel; omega)
      rw [List.append_assoc, List.cons_append, readChars, if_neg hb, hread]
      simp [hrest]

theorem readString_append {t : List Char} {s : String} (h : StringText t s) (rest : List Char) :
    ∃ t', t = '"' :: t' ∧
      ∀ fuel, t.length ≤ fuel → readString fuel (t' ++ rest) = some (s, rest) := by
  cases h with
  | @mk t cs h =>
    refine ⟨t ++ ['"'], rfl, fun fuel hfuel => ?_⟩
    have hread := readChars_append h rest fuel (by simp at hfuel; omega)
    rw [List.append_assoc, List.singleton_append, readString, hread]
    rfl

/-! ## Values -/

/-- A value starts with none of the characters that the reader looks for before
    it. -/
theorem ValueText.head {t : List Char} {v : Value} (h : ValueText t v) :
    ∃ c t', t = c :: t' ∧ isWs c = false ∧ c ≠ ']' := by
  cases h with
  | number h =>
    obtain ⟨c, t', rfl, hc⟩ := h.head
    refine ⟨c, t', rfl, ?_, ?_⟩
    · rcases hc with rfl | hc
      · decide
      · by_contra hws
        simp only [isWs, Bool.not_eq_false, Bool.or_eq_true, decide_eq_true_eq] at hws
        rcases hws with ((rfl | rfl) | rfl) | rfl <;> exact absurd hc (by decide)
    · rintro rfl
      rcases hc with hc | hc <;> exact absurd hc (by decide)
  | string h =>
    obtain ⟨t', rfl, -⟩ := readString_append h []
    exact ⟨'"', t', rfl, by decide, by decide⟩
  | _ => exact ⟨_, _, rfl, by decide, by decide⟩

theorem ValueText.length_pos {t : List Char} {v : Value} (h : ValueText t v) : 0 < t.length := by
  obtain ⟨c, t', rfl, -⟩ := h.head
  simp

theorem ValueText.skipWs_append {w t : List Char} {v : Value} (hw : Ws w) (h : ValueText t v)
    (rest : List Char) : skipWs (w ++ (t ++ rest)) = t ++ rest := by
  obtain ⟨c, t', rfl, hc, -⟩ := h.head
  exact Json.skipWs_append hw (by simp [hc])

/-- What follows a value inside an array or an object. -/
theorem follow_ws {w t : List Char} {c : Char} (hw : Ws w) (hc : c = ',' ∨ c = ']' ∨ c = '\x7d') :
    Follow (w ++ c :: t) := by
  intro b hb
  cases w with
  | nil =>
    rw [List.nil_append, List.head?_cons, Option.mem_some_iff] at hb
    subst hb
    rcases hc with rfl | rfl | rfl <;> decide
  | cons d w =>
    rw [List.cons_append, List.head?_cons, Option.mem_some_iff] at hb
    subst hb
    have hd : isWs d = true := hw d (by simp)
    simp only [isWs, Bool.or_eq_true, decide_eq_true_eq] at hd
    rcases hd with ((rfl | rfl) | rfl) | rfl <;> decide

theorem follow_of_ws {w : List Char} (hw : Ws w) : Follow w := by
  intro c hc
  have hcw : isWs c = true := hw c (List.mem_of_mem_head? hc)
  simp only [isWs, Bool.or_eq_true, decide_eq_true_eq] at hcw
  rcases hcw with ((rfl | rfl) | rfl) | rfl <;> decide

/-- With this much fuel the reader finds every value, element list and member
    list of the grammar that fits. -/
structure Complete (fuel : ℕ) : Prop where
  value : ∀ {t v}, ValueText t v → 2 * t.length ≤ fuel → ∀ rest, Follow rest →
    readValue fuel (t ++ rest) = some (v, rest)
  elements : ∀ {t vs}, Elements t vs → 2 * t.length + 1 ≤ fuel → ∀ rest,
    readElements fuel (t ++ ']' :: rest) = some (vs, rest)
  members : ∀ {t ms}, Members t ms → 2 * t.length + 1 ≤ fuel → ∀ rest,
    readMembers fuel (t ++ '\x7d' :: rest) = some (ms, rest)

section Step

variable {fuel : ℕ}

/-- The first characters of an element list. -/
theorem Elements.head {t : List Char} {vs : List Value} (h : Elements t vs) (rest : List Char) :
    (skipWs (t ++ rest)).head? ≠ some ']' := by
  cases h with
  | last hw hv _ =>
    rw [List.append_assoc, List.append_assoc, hv.skipWs_append hw]
    obtain ⟨c, t', rfl, -, hc⟩ := hv.head
    simp [hc]
  | cons hw hv _ _ =>
    rw [List.append_assoc, List.append_assoc, hv.skipWs_append hw]
    obtain ⟨c, t', rfl, -, hc⟩ := hv.head
    simp [hc]

theorem StringText.skipWs_append {w t : List Char} {s : String} (hw : Ws w) (h : StringText t s)
    (rest : List Char) : skipWs (w ++ (t ++ rest)) = t ++ rest := by
  obtain ⟨t', rfl, -⟩ := readString_append h []
  exact Json.skipWs_append hw (by simp [isWs])

theorem Members.head {t : List Char} {ms : List (String × Value)} (h : Members t ms)
    (rest : List Char) : (skipWs (t ++ rest)).head? ≠ some '\x7d' := by
  cases h with
  | last hw hk _ _ _ _ =>
    rw [List.append_assoc, List.append_assoc, hk.skipWs_append hw]
    obtain ⟨t', rfl, -⟩ := readString_append hk []
    simp
  | cons hw hk _ _ _ _ _ =>
    rw [List.append_assoc, List.append_assoc, hk.skipWs_append hw]
    obtain ⟨t', rfl, -⟩ := readString_append hk []
    simp

theorem readKey_append {k w₁ : List Char} {key : String} (hk : StringText k key) (hw₁ : Ws w₁)
    (hfuel : k.length ≤ fuel) (rest : List Char) :
    readKey fuel (k ++ (w₁ ++ ':' :: rest)) = some (key, rest) := by
  obtain ⟨t', rfl, hread⟩ := readString_append hk (w₁ ++ ':' :: rest)
  have hskip : skipWs (w₁ ++ ':' :: rest) = ':' :: rest :=
    skipWs_append hw₁ (by simp [isWs])
  simp [readKey, hread fuel hfuel, hskip]

theorem Complete.readValue (ih : Complete fuel) {t : List Char} {v : Value} (h : ValueText t v)
    (hfuel : 2 * t.length ≤ fuel + 1) (rest : List Char) (hrest : Follow rest) :
    readValue (fuel + 1) (t ++ rest) = some (v, rest) := by
  cases h with
  | nullName => simp [Json.readValue, readWord]
  | trueName => simp [Json.readValue, readWord]
  | falseName => simp [Json.readValue, readWord]
  | number h =>
    have hread := readNumber_append h hrest
    obtain ⟨c, t', rfl, hc⟩ := h.head
    -- A minus sign or a digit is none of the other first characters.
    have hne : ∀ b : Char, b ≠ '-' → b.isDigit = false → c ≠ b := by
      rintro b hb hbd rfl
      rcases hc with rfl | hc
      · exact hb rfl
      · rw [hbd] at hc
        cases hc
    rw [List.cons_append] at hread ⊢
    rw [Json.readValue, if_neg (hne '"' (by decide) (by decide)),
      if_neg (hne '[' (by decide) (by decide)), if_neg (hne '\x7b' (by decide) (by decide)),
      if_neg (hne 'n' (by decide) (by decide)), if_neg (hne 't' (by decide) (by decide)),
      if_neg (hne 'f' (by decide) (by decide)), hread]
  | string h =>
    obtain ⟨t', rfl, hread⟩ := readString_append h rest
    have hlen : ('"' :: t').length ≤ fuel := by
      rw [List.length_cons] at hfuel ⊢
      have : 0 < t'.length := by
        cases h
        simp
      omega
    simp [Json.readValue, hread fuel hlen]
  | @emptyArray w hw =>
    have hskip : skipWs (w ++ ']' :: rest) = ']' :: rest := skipWs_append hw (by simp [isWs])
    simp [Json.readValue, hskip]
  | @array t vs h =>
    have hhead := h.head (']' :: rest)
    have hread := ih.elements h (by simp at hfuel; omega) rest
    simp [Json.readValue, hhead, hread]
  | @emptyObject w hw =>
    have hskip : skipWs (w ++ '\x7d' :: rest) = '\x7d' :: rest := skipWs_append hw (by simp [isWs])
    simp [Json.readValue, hskip]
  | @object t ms h =>
    have hhead := h.head ('\x7d' :: rest)
    have hread := ih.members h (by simp at hfuel; omega) rest
    simp [Json.readValue, hhead, hread]

theorem Complete.readElements (ih : Complete fuel) {t : List Char} {vs : List Value}
    (h : Elements t vs) (hfuel : 2 * t.length + 1 ≤ fuel + 1) (rest : List Char) :
    readElements (fuel + 1) (t ++ ']' :: rest) = some (vs, rest) := by
  cases h with
  | @last w t w' v hw hv hw' =>
    have hread := ih.value hv (by simp at hfuel; omega) (w' ++ ']' :: rest) (follow_ws hw' (by simp))
    have hskip : skipWs (w' ++ ']' :: rest) = ']' :: rest := skipWs_append hw' (by simp [isWs])
    rw [List.append_assoc, List.append_assoc, Json.readElements, hv.skipWs_append hw, hread]
    simp [hskip]
  | @cons w t w' ts v vs hw hv hw' hvs =>
    have hread := ih.value hv (by simp at hfuel; omega) (w' ++ ',' :: (ts ++ ']' :: rest))
      (follow_ws hw' (by simp))
    have hskip : skipWs (w' ++ ',' :: (ts ++ ']' :: rest)) = ',' :: (ts ++ ']' :: rest) :=
      skipWs_append hw' (by simp [isWs])
    have htail := ih.elements hvs (by simp at hfuel; omega) rest
    rw [List.append_assoc, List.append_assoc, List.append_assoc, List.cons_append,
      Json.readElements, hv.skipWs_append hw, hread]
    simp [hskip, htail]

theorem Complete.readMembers (ih : Complete fuel) {t : List Char} {ms : List (String × Value)}
    (h : Members t ms) (hfuel : 2 * t.length + 1 ≤ fuel + 1) (rest : List Char) :
    readMembers (fuel + 1) (t ++ '\x7d' :: rest) = some (ms, rest) := by
  cases h with
  | @last w k w₁ w₂ t w' key v hw hk hw₁ hw₂ hv hw' =>
    have hkfuel : k.length ≤ fuel := by simp at hfuel; omega
    have hkey := readKey_append hk hw₁ hkfuel (w₂ ++ (t ++ (w' ++ '\x7d' :: rest)))
    have hread := ih.value hv (by simp at hfuel; omega) (w' ++ '\x7d' :: rest)
      (follow_ws hw' (by simp))
    have hskip : skipWs (w' ++ '\x7d' :: rest) = '\x7d' :: rest :=
      skipWs_append hw' (by simp [isWs])
    have hassoc : w ++ (k ++ (w₁ ++ ':' :: (w₂ ++ (t ++ w')))) ++ '\x7d' :: rest =
        w ++ (k ++ (w₁ ++ ':' :: (w₂ ++ (t ++ (w' ++ '\x7d' :: rest))))) := by simp
    rw [hassoc, Json.readMembers, hk.skipWs_append hw, hkey]
    simp [hv.skipWs_append hw₂, hread, hskip]
  | @cons w k w₁ w₂ t w' ts key v ms hw hk hw₁ hw₂ hv hw' hms =>
    have hkfuel : k.length ≤ fuel := by simp at hfuel; omega
    have hkey := readKey_append hk hw₁ hkfuel (w₂ ++ (t ++ (w' ++ ',' :: (ts ++ '\x7d' :: rest))))
    have hread := ih.value hv (by simp at hfuel; omega) (w' ++ ',' :: (ts ++ '\x7d' :: rest))
      (follow_ws hw' (by simp))
    have hskip : skipWs (w' ++ ',' :: (ts ++ '\x7d' :: rest)) = ',' :: (ts ++ '\x7d' :: rest) :=
      skipWs_append hw' (by simp [isWs])
    have htail := ih.members hms (by simp at hfuel; omega) rest
    have hassoc : w ++ (k ++ (w₁ ++ ':' :: (w₂ ++ (t ++ (w' ++ ',' :: ts))))) ++ '\x7d' :: rest =
        w ++ (k ++ (w₁ ++ ':' :: (w₂ ++ (t ++ (w' ++ ',' :: (ts ++ '\x7d' :: rest)))))) := by simp
    rw [hassoc, Json.readMembers, hk.skipWs_append hw, hkey]
    simp [hv.skipWs_append hw₂, hread, hskip, htail]

end Step

/-- Induction on the fuel: every part of a text is shorter than the text. -/
theorem complete (fuel : ℕ) : Complete fuel := by
  induction fuel with
  | zero =>
    refine ⟨?_, ?_, ?_⟩
    · intro t v h hfuel
      have := h.length_pos
      omega
    · intro t vs _ hfuel
      omega
    · intro t ms _ hfuel
      omega
  | succ fuel ih => exact ⟨ih.readValue, ih.readElements, ih.readMembers⟩

/-! ## Whole texts -/

/-- The reader returns the value of every well-formed text. -/
theorem read_of_document {t : List Char} {v : Value} (h : Document t v) : read t = some v := by
  cases h with
  | @mk w t w' v hw h hw' =>
    have hread := (complete (2 * (w ++ (t ++ w')).length + 1)).value h (by simp; omega) w'
      (follow_of_ws hw')
    rw [read, h.skipWs_append hw, hread]
    simp [skipWs_nil_right hw']

/-- A text denotes at most one value. -/
theorem Document.unique {t : List Char} {v v' : Value} (h : Document t v) (h' : Document t v') :
    v = v' := by
  have hread := read_of_document h
  rwa [read_of_document h', Option.some.injEq, eq_comm] at hread

end TimeFence.Json
