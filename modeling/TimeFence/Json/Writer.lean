import TimeFence.Json.Grammar

/-!
# Writing JSON

What a writer may print: a decimal number, a string with each character escaped
on its own, and the elements of an array or the members of an object with the
same whitespace around each of them and commas between them. Each of these is a
text of the grammar.
-/

namespace TimeFence.Json

/-! ## Numbers -/

/-- The first digit of a positive number is not a zero. -/
theorem toDigits_eq_cons {n : ℕ} (hn : 0 < n) :
    ∃ d ds, Nat.toDigits 10 n = d :: ds ∧ d ≠ '0' := by
  induction n using Nat.strong_induction_on with
  | _ n ih =>
    by_cases hlt : n < 10
    · refine ⟨n.digitChar, [], Nat.toDigits_of_lt_base hlt, ?_⟩
      interval_cases n <;> decide
    · obtain ⟨d, ds, hds, hd⟩ := ih (n / 10) (by omega) (by omega)
      rw [Nat.toDigits_of_base_le (by norm_num) (by omega), hds]
      exact ⟨d, ds ++ [(n % 10).digitChar], rfl, hd⟩

theorem intPart_toDigits (n : ℕ) : IntPart (Nat.toDigits 10 n) := by
  have hdigit : Digits (Nat.toDigits 10 n) := fun c hc =>
    Nat.isDigit_of_mem_toDigits (by norm_num) (by norm_num) hc
  by_cases hn : n = 0
  · subst hn
    exact .zero
  · obtain ⟨d, ds, hds, hd⟩ := toDigits_eq_cons (Nat.pos_of_ne_zero hn)
    rw [hds] at hdigit ⊢
    exact .digits (hdigit d (by simp)) hd fun c hc => hdigit c (by simp [hc])

/-- A decimal number without fraction and exponent. -/
theorem number_repr (n : ℕ) : Number n.repr.toList n 0 := by
  have h := Number.positive (intPart_toDigits n) .absent .absent
  simpa [digitsValue, Nat.toList_repr] using h

/-! ## Strings -/

/-- Characters that are escaped one by one. -/
theorem Chars.of_forall {escape : Char → List Char} {cs : List Char}
    (h : ∀ c ∈ cs, CharText (escape c) c) : Chars (cs.flatMap escape) cs := by
  induction cs with
  | nil => exact .nil
  | cons c cs ih =>
    rw [List.flatMap_cons]
    exact .cons (h c (by simp)) (ih fun b hb => h b (by simp [hb]))

theorem StringText.of_forall {escape : Char → List Char} {s : String}
    (h : ∀ c ∈ s.toList, CharText (escape c) c) :
    StringText ('"' :: (s.toList.flatMap escape ++ ['"'])) s := by
  have hmk := StringText.mk (Chars.of_forall h)
  rwa [String.ofList_toList] at hmk

/-- A string that needs no escape. -/
def Plain (s : String) : Prop := ∀ c ∈ s.toList, 0x20 ≤ c.toNat ∧ c ≠ '"' ∧ c ≠ '\\'

instance (s : String) : Decidable (Plain s) := List.decidableBAll _ s.toList

theorem Plain.stringText {s : String} (h : Plain s) : StringText ('"' :: (s.toList ++ ['"'])) s := by
  have hof : StringText ('"' :: (s.toList.flatMap (fun c => [c]) ++ ['"'])) s :=
    .of_forall fun c hc => .unescaped (h c hc).1 (h c hc).2.1 (h c hc).2.2
  rwa [List.flatMap_singleton'] at hof

/-- The letter of a two-character escape, for the characters that a simple writer
    escapes. -/
def escapeLetter (c : Char) : Option Char :=
  if c = '\\' ∨ c = '"' then some c
  else if c = '\n' then some 'n'
  else if c = '\r' then some 'r'
  else if c = '\t' then some 't'
  else none

def escapeChar (c : Char) : List Char :=
  match escapeLetter c with
  | some e => ['\\', e]
  | none => [c]

/-- The characters that such a writer can print. -/
def Printable (c : Char) : Prop := 0x20 ≤ c.toNat ∨ c = '\n' ∨ c = '\r' ∨ c = '\t'

instance (c : Char) : Decidable (Printable c) := inferInstanceAs (Decidable (_ ∨ _))

theorem simpleEscape_escapeLetter {c e : Char} (h : escapeLetter c = some e) :
    simpleEscape e = some c := by
  unfold escapeLetter at h
  split_ifs at h with hself hn hr ht <;> cases h
  · rcases hself with rfl | rfl <;> rfl
  · rw [hn]
    rfl
  · rw [hr]
    rfl
  · rw [ht]
    rfl

theorem charText_escapeChar {c : Char} (h : Printable c) : CharText (escapeChar c) c := by
  unfold escapeChar
  cases hletter : escapeLetter c with
  | some e => exact .escape (simpleEscape_escapeLetter hletter)
  | none =>
    unfold escapeLetter at hletter
    split_ifs at hletter with hself hn hr ht
    rw [not_or] at hself
    rcases h with h | h | h | h
    · exact .unescaped h hself.2 hself.1
    · exact absurd h hn
    · exact absurd h hr
    · exact absurd h ht

/-- All characters of a string can be printed. -/
def AllPrintable (s : String) : Prop := ∀ c ∈ s.toList, Printable c

instance (s : String) : Decidable (AllPrintable s) := List.decidableBAll Printable s.toList

theorem AllPrintable.append {s t : String} (hs : AllPrintable s) (ht : AllPrintable t) :
    AllPrintable (s ++ t) := by
  intro c hc
  rw [String.toList_append, List.mem_append] at hc
  exact hc.elim (hs c) (ht c)

theorem AllPrintable.intercalate {sep : String} (hsep : AllPrintable sep) {l : List String}
    (h : ∀ s ∈ l, AllPrintable s) : AllPrintable (sep.intercalate l) := by
  induction l with
  | nil => simp [AllPrintable]
  | cons s l ih =>
    have hs := h s (by simp)
    cases l with
    | nil => simpa using hs
    | cons t l =>
      rw [String.intercalate_cons_cons]
      exact (hs.append hsep).append (ih fun u hu => h u (by simp [hu]))

/-! ## Control characters

Below `0x20` no character is part of a string text, escaped or not. -/

theorem le_toNat_of_hexValue {c : Char} {n : ℕ} (h : hexValue c = some n) : 0x20 ≤ c.toNat := by
  have hle : ∀ d : Char, d ≤ c → d.toNat ≤ c.toNat := by
    intro d hd
    rw [Char.le_def, UInt32.le_iff_toNat_le] at hd
    exact hd
  unfold hexValue at h
  split_ifs at h with hdigit ha hA
  · rw [Char.isDigit, Bool.and_eq_true, decide_eq_true_eq] at hdigit
    have h48 := hle '0' hdigit.1
    have hzero : '0'.toNat = 48 := rfl
    omega
  · have h97 := hle 'a' ha.1
    have hlower : 'a'.toNat = 97 := rfl
    omega
  · have h65 := hle 'A' hA.1
    have hupper : 'A'.toNat = 65 := rfl
    omega

theorem le_toNat_of_hex4 {a b c d : Char} {n : ℕ} (h : hex4 a b c d = some n) :
    ∀ x ∈ [a, b, c, d], 0x20 ≤ x.toNat := by
  unfold hex4 at h
  simp only [Option.bind_eq_bind, Option.bind_eq_some_iff] at h
  obtain ⟨_, ha, _, hb, _, hc, _, hd, -⟩ := h
  simp [le_toNat_of_hexValue ha, le_toNat_of_hexValue hb, le_toNat_of_hexValue hc,
    le_toNat_of_hexValue hd]

theorem le_toNat_of_simpleEscape {e c : Char} (h : simpleEscape e = some c) : 0x20 ≤ e.toNat := by
  unfold simpleEscape at h
  split at h <;> first | decide | cases h

theorem CharText.le_toNat {t : List Char} {c : Char} (h : CharText t c) :
    ∀ x ∈ t, 0x20 ≤ x.toNat := by
  have hbackslash : 0x20 ≤ '\\'.toNat := by decide
  have hu : 0x20 ≤ 'u'.toNat := by decide
  cases h with
  | unescaped hcontrol => simpa using hcontrol
  | escape he => simpa using le_toNat_of_simpleEscape he
  | unicode h => simpa [hbackslash, hu] using le_toNat_of_hex4 h
  | pair h _ h' _ =>
    have h4 := le_toNat_of_hex4 h
    have h4' := le_toNat_of_hex4 h'
    simp only [List.forall_mem_cons] at h4 h4' ⊢
    exact ⟨hbackslash, hu, h4.1, h4.2.1, h4.2.2.1, h4.2.2.2.1, hbackslash, hu, h4'⟩

theorem Chars.le_toNat {t cs : List Char} (h : Chars t cs) : ∀ x ∈ t, 0x20 ≤ x.toNat := by
  induction h with
  | nil => simp
  | cons hc _ ih =>
    intro x hx
    exact (List.mem_append.mp hx).elim (hc.le_toNat x) (ih x)

theorem StringText.le_toNat {t : List Char} {s : String} (h : StringText ('"' :: (t ++ ['"'])) s) :
    ∀ x ∈ t, 0x20 ≤ x.toNat := by
  -- The text between the quotation marks is the one of the rule.
  generalize hu : '"' :: (t ++ ['"']) = u at h
  obtain ⟨hchars⟩ := h
  rw [List.cons.injEq, List.append_cancel_right_eq] at hu
  rw [hu.2]
  exact hchars.le_toNat

/-- What a simple writer prints is a string text only if it can print every
    character. -/
theorem AllPrintable.of_stringText {s v : String}
    (h : StringText ('"' :: (s.toList.flatMap escapeChar ++ ['"'])) v) : AllPrintable s := by
  intro c hc
  by_contra hprint
  have hraw : escapeChar c = [c] := by
    unfold Printable at hprint
    push Not at hprint
    obtain ⟨hlt, hn, hr, ht⟩ := hprint
    have hbackslash : c ≠ '\\' := by
      rintro rfl
      exact absurd hlt (by decide)
    have hquote : c ≠ '"' := by
      rintro rfl
      exact absurd hlt (by decide)
    simp [escapeChar, escapeLetter, hn, hr, ht, hbackslash, hquote]
  have hmem : c ∈ s.toList.flatMap escapeChar :=
    List.mem_flatMap.mpr ⟨c, hc, by simp [hraw]⟩
  exact hprint (.inl (h.le_toNat c hmem))

/-! ## Arrays and objects -/

/-- Texts with whitespace `before` each and `after` the last, and commas between
    them. -/
def separated (before after : List Char) : List (List Char) → List Char
  | [] => []
  | [t] => before ++ (t ++ after)
  | t :: u :: ts => before ++ (t ++ ',' :: separated before after (u :: ts))

/-- `"key": value`. -/
def memberText (key : String) (t : List Char) : List Char :=
  '"' :: (key.toList ++ ['"']) ++ ':' :: ' ' :: t

section Separated

variable {before after : List Char}

theorem elements_separated (hbefore : Ws before) (hafter : Ws after) {ts : List (List Char)}
    {vs : List Value} (h : List.Forall₂ ValueText ts vs) (hne : ts ≠ []) :
    Elements (separated before after ts) vs := by
  have hnil : Ws [] := by simp [Ws]
  induction h with
  | nil => exact absurd rfl hne
  | @cons t v ts vs hv hvs ih =>
    cases hvs with
    | nil => exact .last hbefore hv hafter
    | cons _ _ => exact .cons hbefore hv hnil (ih (by simp))

/-- A member of an object with a key that needs no escape. -/
def IsMember (t : List Char) (m : String × Value) : Prop :=
  Plain m.1 ∧ ∃ u, t = memberText m.1 u ∧ ValueText u m.2

theorem members_separated (hbefore : Ws before) (hafter : Ws after) {ts : List (List Char)}
    {ms : List (String × Value)} (h : List.Forall₂ IsMember ts ms) (hne : ts ≠ []) :
    Members (separated before after ts) ms := by
  have hspace : Ws [' '] := by simp [Ws, isWs]
  have hnil : Ws [] := by simp [Ws]
  induction h with
  | nil => exact absurd rfl hne
  | @cons t m ts ms hm hms ih =>
    obtain ⟨key, v⟩ := m
    obtain ⟨hplain, u, rfl, hv⟩ := hm
    cases hms with
    | nil =>
      have h := Members.last hbefore hplain.stringText hnil hspace hv hafter
      simpa [separated, memberText] using h
    | cons _ _ =>
      have h := Members.cons hbefore hplain.stringText hnil hspace hv hnil (ih (by simp))
      simpa [separated, memberText] using h

end Separated

end TimeFence.Json
