import Mathlib
import AllocScript.Proofs.Decimal.Text
import AllocScript.Proofs.Node.Grammar
import AllocScript.Proofs.Token.Lexer

/-!
# Numbers as they are written

A `Numeral` is a text of a sign or none, digits, and a point with more digits or no point.

* It is one token, an integer or a float (`Numeral.tokenize_text`). As a signed numeral is spelled
  like a symbol too, this rests on the order of the rules.
* It is read as the number that it denotes, with a place for every digit behind the point, if a
  decimal has room for its digits, and is refused otherwise (`Numeral.exists_readChars`,
  `Numeral.fits_of_readChars`).
  Reading goes from digit to digit and takes nothing back. So what is read of digits has all of them
  (`Digits.of_readAll_digits`), and digits that fit in the end fit all along
  (`Digits.readAll_digits`).
-/

namespace AllocScript

open Lexer

namespace Decimal.Digits

theorem of_push {r r' : Digits} {digit : Nat} (h : r.push digit = .ok r') :
    r'.value = 10 * r.value + digit ∧ r'.places = (if r.pointed then r.places + 1 else r.places) ∧
      r'.started = true ∧ r'.pointed = r.pointed := by
  unfold push at h
  dsimp only at h
  by_cases hfits : r.value * 10 + digit < 2 ^ 96 ∧
      (if r.pointed then r.places + 1 else r.places) ≤ 28
  · rw [dif_pos hfits] at h
    injection h with h
    simp [← h, Nat.mul_comm]
  · rw [dif_neg hfits] at h
    cases h

theorem of_step_digit {r r' : Digits} {c : Char} (hc : c.isDigit = true) (h : r.step c = .ok r') :
    r.push (c.toNat - '0'.toNat) = .ok r' := by
  unfold step at h
  simp only [hc, if_true] at h
  split at h
  · cases h
  · exact h

theorem of_step_point {r r' : Digits} (h : r.step '.' = .ok r') :
    r' = { r with pointed := true } := by
  have hpoint : ('.').isDigit = false := rfl
  unfold step at h
  simp only [hpoint] at h
  split at h
  · cases h
  · cases hp : r.pointed <;> simp [hp] at h
    exact h.symm

/-- What is read of digits is their positional value, with a place for each digit behind a point. -/
theorem of_readAll_digits {r r' : Digits} {ds rest : List Char}
    (hdigits : ∀ c ∈ ds, c.isDigit = true) (h : r.readAll (ds ++ rest) = .ok r') :
    ∃ r'' : Digits, r''.readAll rest = .ok r' ∧ r''.value = Nat.ofDigitChars 10 ds r.value ∧
      r''.places = (if r.pointed then r.places + ds.length else r.places) ∧
      r''.started = (r.started || !ds.isEmpty) := by
  induction ds generalizing r with
  | nil => exact ⟨r, h, rfl, by simp, by simp⟩
  | cons c ds ih =>
    rw [List.cons_append, readAll] at h
    cases hstep : r.step c with
    | error e => rw [hstep] at h; cases h
    | ok next =>
      rw [hstep] at h
      obtain ⟨hvalue, hplaces, hstarted, hpointed⟩ :=
        of_push (of_step_digit (hdigits c (by simp)) hstep)
      obtain ⟨r'', hrest, hvalue', hplaces', hstarted'⟩ :=
        ih (fun d hd => hdigits d (by simp [hd])) h
      refine ⟨r'', hrest, by rw [hvalue', hvalue, Nat.ofDigitChars_cons], ?_,
        by simp [hstarted', hstarted]⟩
      rw [hplaces', hpointed, hplaces]
      cases r.pointed <;> simp
      omega

end Decimal.Digits

/-- A number as it may be written in a strategy. -/
structure Numeral where
  sign : List Char
  whole : List Char
  /-- The digits behind the point. Without any there is no point. -/
  places : List Char
  isSign : IsSign sign
  whole_ne_nil : whole ≠ []
  isDigit_whole : ∀ c ∈ whole, c.isDigit = true
  isDigit_places : ∀ c ∈ places, c.isDigit = true

namespace Numeral

open Decimal

variable (n : Numeral)

/-- What stands behind the sign. -/
def digits : List Char := n.whole ++ if n.places = [] then [] else '.' :: n.places

def chars : List Char := n.sign ++ n.digits

def text : String := String.ofList n.chars

def kind : TokenKind := if n.places = [] then .integer else .float

/-- The integer that the digits denote without the point. -/
def size : Nat := Nat.ofDigitChars 10 (n.whole ++ n.places) 0

/-- The number that a numeral denotes. -/
def value : Rat :=
  (if n.sign = ['-'] then -1 else 1) *
    (Nat.ofDigitChars 10 n.whole 0 + Nat.ofDigitChars 10 n.places 0 / 10 ^ n.places.length)

/-- A decimal has room for all of the digits. -/
def Fits : Prop := n.size < 2 ^ 96 ∧ n.places.length ≤ 28

/-! ## One token -/

theorem word : Word n.kind n.chars := by
  unfold kind chars digits
  by_cases hplaces : n.places = []
  · simpa [hplaces] using word_integer n.isSign n.whole_ne_nil n.isDigit_whole
  · simpa [hplaces] using
      word_float n.isSign n.whole_ne_nil n.isDigit_whole hplaces n.isDigit_places

theorem kind_eq : n.kind = .integer ∨ n.kind = .float := by
  unfold kind
  split <;> simp

/-- **A numeral is one token.** -/
theorem tokenize_text : tokenize n.text = .ok [⟨n.kind, n.text, 0⟩] := by
  have hdiscard : n.kind.isDiscarded = false := by rcases n.kind_eq with h | h <;> rw [h] <;> rfl
  obtain ⟨c, cs, hfirst, -⟩ := n.word.first
  have hscan := Scan.scanFrom_lexeme [] [] (by simp [hfirst]) (n.word.cut boundary_nil 0)
  rw [List.append_nil, hdiscard] at hscan
  rw [tokenize_eq_ok_iff, text, String.toList_ofList, hscan]
  simp [Scan.scanFrom]

/-! ## The number that is read -/

theorem ofDigitChars_add_mul (cs : List Char) (m : Nat) :
    Nat.ofDigitChars 10 cs m = m * 10 ^ cs.length + Nat.ofDigitChars 10 cs 0 := by
  induction cs generalizing m with
  | nil => simp
  | cons c cs ih =>
    rw [Nat.ofDigitChars_cons, ih, Nat.ofDigitChars_cons, ih (10 * 0 + _), List.length_cons]
    ring

theorem size_eq : n.size =
    Nat.ofDigitChars 10 n.whole 0 * 10 ^ n.places.length + Nat.ofDigitChars 10 n.places 0 := by
  rw [size, Nat.ofDigitChars_append, ofDigitChars_add_mul]

theorem value_eq : n.value = (if n.sign = ['-'] then -n.size else n.size : Rat) /
    10 ^ n.places.length := by
  have hpow : (10 : Rat) ^ n.places.length ≠ 0 := by positivity
  rw [value, n.size_eq]
  split <;> · push_cast; field_simp

/-- The digits are read if a decimal has room for them. -/
theorem exists_readAll (h : n.Fits) : ∃ r : Digits, Digits.start.readAll n.digits = .ok r := by
  obtain ⟨hsize, hplaces⟩ := h
  have hwhole : Nat.ofDigitChars 10 n.whole 0 < 2 ^ 96 := by
    refine lt_of_le_of_lt ?_ hsize
    rw [size, Nat.ofDigitChars_append]
    exact le_ofDigitChars _ _
  obtain ⟨r, hread, hvalue, hzero, -, hpointed⟩ := Digits.readAll_digits (r := Digits.start)
    (if n.places = [] then [] else '.' :: n.places) n.isDigit_whole hwhole (by simp [Digits.start])
  unfold digits
  rw [hread]
  by_cases hp : n.places = []
  · exact ⟨r, by rw [if_pos hp]; rfl⟩
  · have hzero : r.places = 0 := hzero
    rw [size, Nat.ofDigitChars_append] at hsize
    obtain ⟨r', hread', -⟩ := Digits.readAll_digits (r := { r with pointed := true }) []
      n.isDigit_places (by rw [hvalue]; exact hsize) (by simp [hzero, hplaces])
    rw [List.append_nil] at hread'
    rw [if_neg hp, Digits.readAll, Digits.step_point hpointed (by omega)]
    exact ⟨r', hread'⟩

/-- What is read of the digits is all of them. -/
theorem of_readAll {r : Digits} (h : Digits.start.readAll n.digits = .ok r) :
    r.value = n.size ∧ r.places = n.places.length ∧ r.started = true := by
  have hne : n.whole.isEmpty = false := by simp [n.whole_ne_nil]
  obtain ⟨next, hrest, hvalue, hplaces, hstarted⟩ := Digits.of_readAll_digits n.isDigit_whole h
  by_cases hp : n.places = []
  · rw [if_pos hp] at hrest
    injection hrest with hrest
    rw [← hrest, hvalue, hplaces, hstarted, size, hp, List.append_nil]
    exact ⟨rfl, rfl, by simp [hne]⟩
  · rw [if_neg hp, Digits.readAll] at hrest
    cases hpoint : next.step '.' with
    | error e => rw [hpoint] at hrest; cases hrest
    | ok behind =>
      rw [hpoint] at hrest
      obtain rfl := Digits.of_step_point hpoint
      rw [← List.append_nil n.places] at hrest
      obtain ⟨last, hlast, hvalue', hplaces', hstarted'⟩ :=
        Digits.of_readAll_digits n.isDigit_places hrest
      injection hlast with hlast
      rw [← hlast, hvalue', hplaces', hstarted', size, Nat.ofDigitChars_append]
      refine ⟨congrArg _ hvalue, by simp [hplaces, Digits.start], ?_⟩
      simp [hstarted, hne]

theorem exists_digits_eq : ∃ c cs, n.digits = c :: cs ∧ c.isDigit = true := by
  obtain ⟨c, cs, hwhole⟩ := List.exists_cons_of_ne_nil n.whole_ne_nil
  exact ⟨c, _, by rw [digits, hwhole, List.cons_append], n.isDigit_whole c (by simp [hwhole])⟩

/-- The digits are read behind the sign, whichever it is. -/
theorem readChars_withoutPlus :
    readChars (Token.withoutPlus n.chars) = readUnsigned (n.sign = ['-']) n.digits := by
  obtain ⟨c, cs, hdigits, hc⟩ := n.exists_digits_eq
  have hplus : Token.withoutPlus (c :: cs) = c :: cs := by
    unfold Token.withoutPlus
    split
    · rename_i heq
      injection heq with heq
      rw [heq] at hc
      cases hc
    · rfl
  unfold chars
  rcases n.isSign with hsign | hsign | hsign
  · simp [hsign, hdigits, hplus, readChars_of_isDigit hc]
  · simp [hsign, Token.withoutPlus, readChars]
  · simp [hsign, hdigits, Token.withoutPlus, readChars_of_isDigit hc]

/-- **A numeral is read exactly**, if a decimal has room for its digits. -/
theorem exists_readChars (h : n.Fits) : ∃ d : Decimal,
    readChars (Token.withoutPlus n.chars) = .ok d ∧ d.toRat = n.value ∧
      d.scale = n.places.length := by
  obtain ⟨r, hread⟩ := n.exists_readAll h
  obtain ⟨hvalue, hplaces, hstarted⟩ := n.of_readAll hread
  refine ⟨r.toDecimal (n.sign = ['-']), ?_, ?_, hplaces⟩
  · rw [readChars_withoutPlus, readUnsigned, hread]
    exact if_pos hstarted
  · rw [n.value_eq]
    simp [toRat, Digits.toDecimal, hvalue, hplaces]

/-- **Nothing else is read.** -/
theorem fits_of_readChars {d : Decimal} (h : readChars (Token.withoutPlus n.chars) = .ok d) :
    n.Fits := by
  rw [readChars_withoutPlus, readUnsigned] at h
  cases hread : Digits.start.readAll n.digits with
  | error e => rw [hread] at h; cases h
  | ok r =>
    obtain ⟨hvalue, hplaces, -⟩ := n.of_readAll hread
    exact ⟨hvalue ▸ r.value_lt, hplaces ▸ r.places_le⟩

/-! ## Sources -/

theorem ofTokens_text (p : Nat) : Node.ofTokens [⟨n.kind, n.text, p⟩] =
    match readChars (Token.withoutPlus n.chars) with
    | .ok d => .ok (.atom (.number d) p)
    | .error _ => .error ⟨.numberOutOfRange n.text, p⟩ := by
  have hstep : Parser.step (.reading []) ⟨n.kind, n.text, p⟩ =
      (Parser.readNumber ⟨n.kind, n.text, p⟩).map .complete := by
    rcases n.kind_eq with h | h <;>
      simp [Parser.step, Parser.take, h, TokenKind.isDiscarded] <;> rfl
  rw [Node.ofTokens, Parser.run, hstep, Parser.readNumber_eq]
  simp only [text, String.toList_ofList]
  cases readChars (Token.withoutPlus n.chars) <;> rfl

/-- **Numerals are read whole and exactly.** A numeral is one token, an integer or a float. As a
source it is the number that it denotes, with a place for every digit behind the point, if its
digits without the point denote an integer below `2 ^ 96` and there are at most 28 of them behind
the point. Any other numeral is refused as out of range. -/
theorem ofSource_exact :
    tokenize n.text = .ok [⟨if n.places = [] then .integer else .float, n.text, 0⟩] ∧
    (n.text.utf8ByteSize ≤ maxSourceBytes →
      (n.Fits → ∃ d : Decimal, Node.ofSource n.text = .ok (.atom (.number d) 0) ∧
        d.toRat = n.value ∧ d.scale = n.places.length) ∧
      (¬ n.Fits → Node.ofSource n.text =
        .error (.source ⟨.grammatical, s!"number literal out of range: {n.text}", 0⟩))) := by
  refine ⟨n.tokenize_text, fun hsize => ?_⟩
  have hsource : Node.ofSource n.text =
      match readChars (Token.withoutPlus n.chars) with
      | .ok d => .ok (.atom (.number d) 0)
      | .error _ =>
        .error (.source ⟨.grammatical, s!"number literal out of range: {n.text}", 0⟩) := by
    rw [Node.ofSource, checkSourceSize, if_neg (Nat.not_lt.2 hsize), Node.ofText, n.tokenize_text]
    simp only [n.ofTokens_text]
    cases readChars (Token.withoutPlus n.chars) <;> rfl
  refine ⟨fun hfits => ?_, fun hfits => ?_⟩
  · obtain ⟨d, hd, hvalue, hscale⟩ := n.exists_readChars hfits
    exact ⟨d, by rw [hsource, hd], hvalue, hscale⟩
  · cases hd : readChars (Token.withoutPlus n.chars) with
    | ok d => exact absurd (n.fits_of_readChars hd) hfits
    | error e => rw [hsource, hd]

/-- The integer `2 ^ 96 - 1` still fits, whatever zeros stand before it, and `2 ^ 96` does not. -/
theorem ofSource_exact_edge :
    (∃ d : Decimal, Node.ofSource "-007922816251426433759354395033.5" = .ok (.atom (.number d) 0) ∧
      d.toRat = -(2 ^ 96 - 1) / 10 ∧ d.scale = 1) ∧
    Node.ofSource "+7922816251426433759354395033.6" = .error (.source
      ⟨.grammatical, "number literal out of range: +7922816251426433759354395033.6", 0⟩) := by
  let n : Numeral := ⟨['-'], "007922816251426433759354395033".toList, ['5'], .inr (.inl rfl),
    by decide, List.all_eq_true.1 rfl, List.all_eq_true.1 rfl⟩
  let m : Numeral := ⟨['+'], "7922816251426433759354395033".toList, ['6'], .inr (.inr rfl),
    by decide, List.all_eq_true.1 rfl, List.all_eq_true.1 rfl⟩
  have hn : n.text = "-007922816251426433759354395033.5" := by decide
  have hm : m.text = "+7922816251426433759354395033.6" := by decide
  have hsize : n.size = 2 ^ 96 - 1 := by decide
  have hvalue : n.value = -(2 ^ 96 - 1) / 10 := by
    rw [n.value_eq, hsize]
    norm_num [n]
  have hread := (n.ofSource_exact.2 (by rw [hn]; decide)).1 ⟨by rw [hsize]; decide, by decide⟩
  have hrefused := (m.ofSource_exact.2 (by rw [hm]; decide)).2 fun h => absurd h.1 (by decide)
  rw [hn, hvalue] at hread
  rw [hm] at hrefused
  exact ⟨hread, hrefused⟩

end Numeral

end AllocScript
