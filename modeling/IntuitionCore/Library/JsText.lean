import IntuitionCore.Library.PrefixCode
import Mathlib.Algebra.Order.Ring.Rat
import Mathlib.Data.Bool.AllAny
import Mathlib.Data.List.Basic
import Mathlib.Tactic.FieldSimp

/-!
# How JavaScript writes strings and numbers as JSON

A string is any sequence of 16-bit code units. `JSON.stringify` writes it between quotes. It
escapes quotes, backslashes, control characters, and surrogates that are not one of a pair, and
so always writes text that is well formed.

A finite number is written as one of the decimals from which it is read back, which one is left
to the implementation in its last digit: the digits, and where among them the point is. Where
that is too far from them an exponent is written.

Both can be read off: two strings are told apart whatever follows them, and two numbers with
one text are the same.
-/

/-- A code unit of UTF-16. -/
abbrev CodeUnit := Fin 65536

/-- A string: any sequence of code units. -/
abbrev JsString := List CodeUnit

namespace JsText

open PrefixCode

/-- The code unit of a character. -/
def unit (c : Char) : CodeUnit := Fin.ofNat 65536 c.toNat

/-- The string of some characters. -/
def units (cs : List Char) : JsString := cs.map unit

/-- Characters of ASCII are told by their code units. -/
theorem unit_injOn {c d : Char} (hc : c.toNat < 128) (hd : d.toNat < 128) (h : unit c = unit d) :
    c = d := by
  have hval : c.toNat % 65536 = d.toNat % 65536 := congrArg Fin.val h
  rw [Nat.mod_eq_of_lt (by omega), Nat.mod_eq_of_lt (by omega)] at hval
  exact Char.toNat_inj.mp hval

theorem units_injOn {cs cs' : List Char} (hcs : ∀ c ∈ cs, c.toNat < 128)
    (hcs' : ∀ c ∈ cs', c.toNat < 128) (h : units cs = units cs') : cs = cs' := by
  induction cs generalizing cs' with
  | nil => exact (List.map_eq_nil_iff.mp h.symm).symm
  | cons c cs ih =>
    cases cs' with
    | nil => cases h
    | cons c' cs' =>
      obtain ⟨hunit, hrest⟩ := List.cons.inj h
      obtain ⟨hc, hcs⟩ := List.forall_mem_cons.mp hcs
      obtain ⟨hc', hcs'⟩ := List.forall_mem_cons.mp hcs'
      rw [unit_injOn hc hc' hunit, ih hcs hcs' hrest]

theorem mem_units {c : Char} {cs : List Char} (hc : c.toNat < 128)
    (hcs : ∀ d ∈ cs, d.toNat < 128) : unit c ∈ units cs ↔ c ∈ cs := by
  refine ⟨fun h => ?_, List.mem_map_of_mem⟩
  obtain ⟨d, hd, heq⟩ := List.mem_map.mp h
  rwa [unit_injOn (hcs d hd) hc heq] at hd

/-! ## Strings -/

def IsLeadingSurrogate (u : CodeUnit) : Prop := 0xD800 ≤ u ∧ u ≤ 0xDBFF

def IsTrailingSurrogate (u : CodeUnit) : Prop := 0xDC00 ≤ u ∧ u ≤ 0xDFFF

instance (u : CodeUnit) : Decidable (IsLeadingSurrogate u) := inferInstanceAs (Decidable (_ ∧ _))

instance (u : CodeUnit) : Decidable (IsTrailingSurrogate u) := inferInstanceAs (Decidable (_ ∧ _))

/-- A code point of a string: a code unit, or a pair of surrogates. -/
inductive CodePoint where
  | unit (u : CodeUnit)
  | pair (lead trail : CodeUnit) (h : IsLeadingSurrogate lead)

/-- The code points of a string. -/
def codePoints : JsString → List CodePoint
  | [] => []
  | [u] => [.unit u]
  | u :: v :: us =>
    if h : IsLeadingSurrogate u ∧ IsTrailingSurrogate v then .pair u v h.1 :: codePoints us
    else .unit u :: codePoints (v :: us)

/-- The code units of a code point. -/
def CodePoint.encode : CodePoint → JsString
  | .unit u => [u]
  | .pair lead trail _ => [lead, trail]

theorem flatMap_codePoints (s : JsString) : (codePoints s).flatMap CodePoint.encode = s := by
  fun_induction codePoints s with
  | case1 => rfl
  | case2 u => rfl
  | case3 u v us h ih => rw [List.flatMap_cons, ih]; rfl
  | case4 u v us h ih => rw [List.flatMap_cons, ih]; rfl

/-- The code units that have an escape of one letter. -/
def escapes : List (CodeUnit × Char) :=
  [(0x08, 'b'), (0x09, 't'), (0x0A, 'n'), (0x0C, 'f'), (0x0D, 'r'), (0x22, '"'), (0x5C, '\\')]

/-- The digits of a code unit, in base 16. -/
def hexDigits (u : CodeUnit) : JsString :=
  units <| [u.val / 4096, u.val / 256 % 16, u.val / 16 % 16, u.val % 16].map Nat.digitChar

/-- How a code point is written. -/
def CodePoint.escape : CodePoint → JsString
  | .unit u =>
    match escapes.lookup u with
    | some c => units ['\\', c]
    | none =>
      if u < 0x20 ∨ IsLeadingSurrogate u ∨ IsTrailingSurrogate u then
        units ['\\', 'u'] ++ hexDigits u
      else [u]
  | .pair lead trail _ => [lead, trail]

/-- A string as a text of JSON. -/
def quote (s : JsString) : JsString :=
  unit '"' :: ((codePoints s).flatMap CodePoint.escape ++ [unit '"'])

theorem hexDigits_injective {u v : CodeUnit} (h : hexDigits u = hexDigits v) : u = v := by
  have hdigit : ∀ a b : Fin 16, unit (Nat.digitChar a) = unit (Nat.digitChar b) → a = b := by decide
  simp only [hexDigits, units, List.map_cons, List.map_nil, List.cons.injEq, and_true] at h
  obtain ⟨h3, h2, h1, h0⟩ := h
  have hu := u.isLt
  have hv := v.isLt
  have e3 := congrArg Fin.val (hdigit ⟨u.val / 4096, by omega⟩ ⟨v.val / 4096, by omega⟩ h3)
  have e2 := congrArg Fin.val
    (hdigit ⟨u.val / 256 % 16, by omega⟩ ⟨v.val / 256 % 16, by omega⟩ h2)
  have e1 := congrArg Fin.val (hdigit ⟨u.val / 16 % 16, by omega⟩ ⟨v.val / 16 % 16, by omega⟩ h1)
  have e0 := congrArg Fin.val (hdigit ⟨u.val % 16, by omega⟩ ⟨v.val % 16, by omega⟩ h0)
  simp only at e3 e2 e1 e0
  exact Fin.ext (by omega)

/-- The ways in which a code point is written. -/
inductive Written : CodePoint → JsString → Prop
  | letter {u : CodeUnit} {c : Char} (h : (u, c) ∈ escapes) : Written (.unit u) (units ['\\', c])
  | code (u : CodeUnit) : Written (.unit u) (units ['\\', 'u'] ++ hexDigits u)
  | itself {u : CodeUnit} (hmark : u ≠ unit '\\') (hquote : u ≠ unit '"')
      (hlead : ¬ IsLeadingSurrogate u) : Written (.unit u) [u]
  | pair {lead trail : CodeUnit} (h : IsLeadingSurrogate lead) :
      Written (.pair lead trail h) [lead, trail]

theorem written_escape (p : CodePoint) : Written p p.escape := by
  cases p with
  | pair lead trail h => exact .pair h
  | unit u =>
    rw [CodePoint.escape]
    split
    case h_1 c hc =>
      obtain ⟨before, after, hsplit, -⟩ := List.lookup_eq_some_iff.mp hc
      exact .letter (hsplit ▸ List.mem_append_right _ List.mem_cons_self)
    case h_2 hnone =>
      split
      · exact .code u
      · next hplain =>
        refine .itself ?_ ?_ fun hlead => hplain (.inr (.inl hlead))
        · rintro rfl
          exact absurd hnone (by decide)
        · rintro rfl
          exact absurd hnone (by decide)

/-- **Code points are told apart** by how they are written. -/
theorem toldApart_written {p q : CodePoint} {t u : JsString} (hp : Written p t)
    (hq : Written q u) : ToldApart (fun _ => True) (p = q) t u := by
  have hletter : ∀ e ∈ escapes, ∀ e' ∈ escapes, unit e.2 = unit e'.2 → e.1 = e'.1 := by decide
  have hcode : ∀ e ∈ escapes, unit e.2 ≠ unit 'u' := by decide
  have hlead : ∀ {v : CodeUnit}, IsLeadingSurrogate v → v ≠ unit '\\' := by
    rintro v ⟨hle, -⟩ rfl
    exact absurd hle (by decide)
  cases hp with
  | letter h =>
    cases hq with
    | letter h' =>
      refine ToldApart.cons ?_ _
      intro r r' _ _ heq
      obtain ⟨hunit, hrest⟩ := List.cons.inj heq
      exact ⟨congrArg CodePoint.unit (hletter _ h _ h' hunit), hrest⟩
    | code v => exact (ToldApart.of_head_ne (hcode _ h)).cons _
    | itself hmark => exact .of_head_ne hmark.symm
    | pair h' => exact .of_head_ne (hlead h').symm
  | code u =>
    cases hq with
    | letter h' => exact (ToldApart.of_head_ne (hcode _ h').symm).cons _
    | code v =>
      refine (ToldApart.cons ?_ _).cons _
      intro r r' _ _ heq
      obtain ⟨hdigits, hrest⟩ := List.append_inj heq rfl
      exact ⟨congrArg CodePoint.unit (hexDigits_injective hdigits), hrest⟩
    | itself hmark => exact .of_head_ne hmark.symm
    | pair h' => exact .of_head_ne (hlead h').symm
  | itself hmark hquote hplain =>
    cases hq with
    | letter h' => exact .of_head_ne hmark
    | code v => exact .of_head_ne hmark
    | itself =>
      intro r r' _ _ heq
      obtain ⟨hunit, hrest⟩ := List.cons.inj heq
      exact ⟨congrArg CodePoint.unit hunit, hrest⟩
    | pair h' => exact .of_head_ne fun heq => hplain (heq ▸ h')
  | pair h =>
    cases hq with
    | letter h' => exact .of_head_ne (hlead h)
    | code v => exact .of_head_ne (hlead h)
    | itself _ _ hplain => exact .of_head_ne fun heq => hplain (heq ▸ h)
    | pair h' =>
      intro r r' _ _ heq
      simp only [List.cons_append, List.nil_append, List.cons.injEq] at heq
      exact ⟨CodePoint.pair.injEq .. ▸ ⟨heq.1, heq.2.1⟩, heq.2.2⟩

theorem goesOn_escape (p : CodePoint) : GoesOn CodePoint.escape (unit '"') p := by
  have h := written_escape p
  unfold GoesOn
  generalize p.escape = t at h ⊢
  cases h with
  | letter => exact ⟨_, _, rfl, by decide⟩
  | code => exact ⟨_, _, rfl, by decide⟩
  | itself _ hquote => exact ⟨_, _, rfl, hquote⟩
  | pair h =>
    refine ⟨_, _, rfl, ?_⟩
    rintro rfl
    exact absurd h.1 (by decide)

/-- **Strings are told apart** by their texts, whatever follows them. -/
theorem toldApart_quote (s s' : JsString) :
    ToldApart (fun _ => True) (s = s') (quote s) (quote s') := by
  have hpoints : ToldApart (fun _ => True) (codePoints s = codePoints s') _ _ :=
    toldApart_sequence (fun p _ => goesOn_escape p) (fun p _ => goesOn_escape p)
      fun p _ q _ => toldApart_written (written_escape p) (written_escape q)
  refine (hpoints.mono (fun _ => id) fun heq => ?_).cons _
  rw [← flatMap_codePoints s, heq, flatMap_codePoints]

/-! ## Numbers -/

/-- Decimal digits, and how many of them are in front of the point. The digits of a fraction
may begin behind it. -/
structure Decimal where
  digits : List Char
  point : ℤ
  isDigit : ∀ c ∈ digits, c.isDigit
  ne_nil : digits ≠ []

/-- The number that some digits stand for. -/
abbrev natOf (cs : List Char) : ℕ := Nat.ofDigitChars 10 cs 0

def Decimal.value (d : Decimal) : ℚ := natOf d.digits * 10 ^ (d.point - d.digits.length)

/-- The parts of the text of a number. -/
structure NumberParts where
  whole : List Char
  fraction : List Char := []
  exponent : Option ℤ := none

/-- The sign and the digits of an exponent. -/
def signed (e : ℤ) : List Char := (if 0 ≤ e then '+' else '-') :: Nat.toDigits 10 e.natAbs

def NumberParts.exponentText (p : NumberParts) : List Char :=
  match p.exponent with
  | none => []
  | some e => 'e' :: signed e

def NumberParts.fractionText (p : NumberParts) : List Char :=
  if p.fraction = [] then [] else '.' :: p.fraction

def NumberParts.text (p : NumberParts) : List Char := p.whole ++ (p.fractionText ++ p.exponentText)

/-- Where the point of a number is, and whether it has an exponent. -/
def Decimal.parts (d : Decimal) : NumberParts :=
  if -5 ≤ d.point ∧ d.point ≤ 21 then
    if d.digits.length ≤ d.point then
      { whole := d.digits ++ List.replicate (d.point - d.digits.length).toNat '0' }
    else if 0 < d.point then
      { whole := d.digits.take d.point.toNat, fraction := d.digits.drop d.point.toNat }
    else { whole := ['0'], fraction := List.replicate (-d.point).toNat '0' ++ d.digits }
  else { whole := d.digits.take 1, fraction := d.digits.drop 1, exponent := some (d.point - 1) }

/-- How a number is written. The two zeros are written alike. -/
inductive Numeral where
  | zero
  | nonzero (negative : Bool) (d : Decimal)

namespace Numeral

def value : Numeral → ℚ
  | .zero => 0
  | .nonzero negative d => if negative then -d.value else d.value

def text : Numeral → List Char
  | .zero => ['0']
  | .nonzero true d => '-' :: d.parts.text
  | .nonzero false d => d.parts.text

end Numeral

/-- **How finite numbers are written**: with a decimal whose number they are. -/
structure NumberFormat (ν : Type) where
  numeral : ν → Numeral
  /-- The number that is nearest to a mathematical value. -/
  number : ℚ → ν
  number_numeral : ∀ x, number (numeral x).value = x

/-- A number as a string. -/
def NumberFormat.toString {ν : Type} (format : NumberFormat ν) (x : ν) : JsString :=
  units (format.numeral x).text

/-! ## The values of texts -/

/-- The value of the parts of a text. -/
def NumberParts.value (p : NumberParts) : ℚ :=
  natOf (p.whole ++ p.fraction) * 10 ^ (p.exponent.getD 0 - p.fraction.length)

/-- The parts of a number have its value. -/
theorem Decimal.value_parts (d : Decimal) : d.parts.value = d.value := by
  have hpos : 0 < d.digits.length := List.length_pos_iff.mpr d.ne_nil
  unfold Decimal.parts Decimal.value NumberParts.value
  split
  · split
    · next hle =>
      -- zeros behind the digits
      obtain ⟨m, hm⟩ := Int.eq_ofNat_of_zero_le (Int.sub_nonneg.mpr hle)
      simp [hm, Nat.ofDigitChars_append, Nat.ofDigitChars_replicate_zero, mul_comm]
    · next hlt =>
      split
      · next hpoint =>
        have hlength : ((d.digits.drop d.point.toNat).length : ℤ)
            = d.digits.length - d.point := by
          rw [List.length_drop]
          omega
        simp only [List.take_append_drop, Option.getD_none, hlength]
        congr 2
        omega
      · have hlength : ((List.replicate (-d.point).toNat '0' ++ d.digits).length : ℤ)
            = d.digits.length - d.point := by
          rw [List.length_append, List.length_replicate]
          omega
        simp only [Option.getD_none, hlength]
        congr 2
        · simp [natOf, Nat.ofDigitChars_append, Nat.ofDigitChars_cons,
            Nat.ofDigitChars_replicate_zero]
        · omega
  · have hlength : ((d.digits.drop 1).length : ℤ) = d.digits.length - 1 := by
      rw [List.length_drop]
      omega
    simp only [List.take_append_drop, Option.getD_some, hlength]
    congr 2
    omega

/-! ## Numbers are told by their texts -/

/-- The parts of a number are digits, of which some are in front of the point. -/
structure NumberParts.WellFormed (p : NumberParts) : Prop where
  whole : ∀ c ∈ p.whole, c.isDigit
  fraction : ∀ c ∈ p.fraction, c.isDigit
  ne_nil : p.whole ≠ []

theorem Decimal.wellFormed_parts (d : Decimal) : d.parts.WellFormed := by
  have hzeros : ∀ n, ∀ c ∈ List.replicate n '0', c.isDigit := by
    intro n c hc
    rw [List.eq_of_mem_replicate hc]
    rfl
  have htake : ∀ n, ∀ c ∈ d.digits.take n, c.isDigit :=
    fun n c hc => d.isDigit c (List.mem_of_mem_take hc)
  have hdrop : ∀ n, ∀ c ∈ d.digits.drop n, c.isDigit :=
    fun n c hc => d.isDigit c (List.mem_of_mem_drop hc)
  have hnone : ∀ c ∈ ([] : List Char), c.isDigit := fun c hc => absurd hc List.not_mem_nil
  have hne : ∀ n, 0 < n → d.digits.take n ≠ [] := by
    intro n hn hnil
    exact d.ne_nil ((List.take_eq_nil_iff.mp hnil).resolve_left hn.ne')
  unfold Decimal.parts
  split
  · split
    · refine ⟨fun c hc => ?_, hnone, List.append_ne_nil_of_left_ne_nil d.ne_nil _⟩
      exact (List.mem_append.mp hc).elim (d.isDigit c) (hzeros _ c)
    · split
      · exact ⟨htake _, hdrop _, hne _ (by omega)⟩
      · refine ⟨fun c hc => ?_, fun c hc => ?_, List.cons_ne_nil _ _⟩
        · rw [List.mem_singleton.mp hc]
          rfl
        · exact (List.mem_append.mp hc).elim (hzeros _ c) (d.isDigit c)
  · exact ⟨htake _, hdrop _, hne _ Nat.one_pos⟩

theorem signed_injective {e e' : ℤ} (h : signed e = signed e') : e = e' := by
  obtain ⟨hsign, hdigits⟩ := List.cons.inj h
  have habs := congrArg natOf hdigits
  rw [natOf, natOf, Nat.ofDigitChars_ten_toDigits, Nat.ofDigitChars_ten_toDigits] at habs
  split at hsign
  · split at hsign
    · omega
    · exact absurd hsign (by decide)
  · split at hsign
    · exact absurd hsign (by decide)
    · omega

namespace NumberParts

variable {p q : NumberParts}

theorem exponentText_outside (p : NumberParts) :
    BeginsOutside (fun c => c.isDigit) p.exponentText := by
  intro c hc
  unfold exponentText at hc
  split at hc
  · cases hc
  · obtain rfl := Option.some.inj hc
    decide

theorem tail_outside (p : NumberParts) :
    BeginsOutside (fun c => c.isDigit) (p.fractionText ++ p.exponentText) := by
  unfold fractionText
  split
  · exact p.exponentText_outside
  · intro c hc
    obtain rfl := Option.some.inj hc
    decide

theorem exponentText_injective (h : p.exponentText = q.exponentText) : p.exponent = q.exponent := by
  unfold exponentText at h
  split at h
  · next hp =>
    split at h
    · next hq => rw [hp, hq]
    · cases h
  · next e hp =>
    split at h
    · cases h
    · next e' hq => rw [hp, hq, signed_injective (List.cons.inj h).2]

/-- What is behind the whole digits starts with a point only if there is a fraction. -/
theorem exponentText_ne_point {t : List Char} : p.exponentText ≠ '.' :: t := by
  unfold exponentText
  split
  · exact (List.cons_ne_nil _ _).symm
  · intro h
    exact absurd (List.cons.inj h).1 (by decide)

theorem tail_injective (hp : p.WellFormed) (hq : q.WellFormed)
    (h : p.fractionText ++ p.exponentText = q.fractionText ++ q.exponentText) :
    p.fraction = q.fraction ∧ p.exponent = q.exponent := by
  unfold fractionText at h
  split at h
  · next hpnil =>
    split at h
    · next hqnil => exact ⟨hpnil.trans hqnil.symm, exponentText_injective h⟩
    · exact absurd h exponentText_ne_point
  · split at h
    · exact absurd h.symm exponentText_ne_point
    · obtain ⟨hfraction, hexponent⟩ := toldApart_run hp.fraction hq.fraction _ _
        p.exponentText_outside q.exponentText_outside (List.cons.inj h).2
      exact ⟨hfraction, exponentText_injective hexponent⟩

/-- **The parts of a number are told** by its text. -/
theorem text_injective (hp : p.WellFormed) (hq : q.WellFormed) (h : p.text = q.text) : p = q := by
  obtain ⟨hwhole, htail⟩ := toldApart_run hp.whole hq.whole _ _ p.tail_outside q.tail_outside h
  obtain ⟨hfraction, hexponent⟩ := tail_injective hp hq htail
  cases p
  cases q
  simp_all

/-- A number without its sign begins with a digit. -/
theorem exists_text_eq (hp : p.WellFormed) : ∃ c t, p.text = c :: t ∧ c.isDigit := by
  obtain ⟨c, cs, hwhole⟩ := List.exists_cons_of_ne_nil hp.ne_nil
  refine ⟨c, cs ++ (p.fractionText ++ p.exponentText), ?_, hp.whole c ?_⟩
  · rw [text, hwhole, List.cons_append]
  · rw [hwhole]
    exact List.mem_cons_self

end NumberParts

/-- The characters that numbers are written with. -/
def IsNumberChar (c : Char) : Prop := c.isDigit ∨ c ∈ ['-', '+', '.', 'e']

instance (c : Char) : Decidable (IsNumberChar c) := inferInstanceAs (Decidable (_ ∨ _))

theorem IsNumberChar.toNat_lt {c : Char} (h : IsNumberChar c) : c.toNat < 128 := by
  obtain h | h := h
  · exact (Char.isDigit_iff_toNat.mp h).2.trans_lt (by decide)
  · have hsigns : ∀ c ∈ ['-', '+', '.', 'e'], c.toNat < 128 :=
      List.all_iff_forall_prop.mp (by decide)
    exact hsigns c h

theorem NumberParts.isNumberChar {p : NumberParts} (hp : p.WellFormed) {c : Char}
    (hc : c ∈ p.text) : IsNumberChar c := by
  obtain hc | hc := List.mem_append.mp hc
  · exact .inl (hp.whole c hc)
  obtain hc | hc := List.mem_append.mp hc
  · unfold fractionText at hc
    split at hc
    · cases hc
    · obtain rfl | hc := List.mem_cons.mp hc
      · exact .inr (by decide)
      · exact .inl (hp.fraction c hc)
  · unfold exponentText at hc
    split at hc
    · cases hc
    · obtain rfl | hc := List.mem_cons.mp hc
      · exact .inr (by decide)
      obtain rfl | hc := List.mem_cons.mp hc
      · split
        · exact .inr (by decide)
        · exact .inr (by decide)
      · exact .inl (Nat.isDigit_of_mem_toDigits (by decide) (by decide) hc)

namespace Numeral

/-- The parts of the text of a number, behind its sign. -/
def parts : Numeral → NumberParts
  | .zero => { whole := ['0'] }
  | .nonzero _ d => d.parts

/-- There is a sign. -/
def isNegative : Numeral → Bool
  | .zero => false
  | .nonzero negative _ => negative

variable {m n : Numeral}

theorem wellFormed_parts (m : Numeral) : m.parts.WellFormed := by
  cases m with
  | zero =>
    exact ⟨List.all_iff_forall_prop.mp (by decide), List.all_iff_forall_prop.mp (by decide),
      by decide⟩
  | nonzero negative d => exact d.wellFormed_parts

theorem text_eq (m : Numeral) :
    m.text = if m.isNegative then '-' :: m.parts.text else m.parts.text := by
  cases m with
  | zero => rfl
  | nonzero negative d => cases negative <;> rfl

theorem value_eq (m : Numeral) :
    m.value = if m.isNegative then -m.parts.value else m.parts.value := by
  cases m with
  | zero => simp [value, isNegative, parts, NumberParts.value, natOf, Nat.ofDigitChars_cons]
  | nonzero negative d => simp only [value, isNegative, parts, d.value_parts]

/-- **Numbers with one text have one value.** -/
theorem value_eq_of_text_eq (h : m.text = n.text) : m.value = n.value := by
  obtain ⟨c, t, hm, hc⟩ := NumberParts.exists_text_eq m.wellFormed_parts
  obtain ⟨c', t', hn, hc'⟩ := NumberParts.exists_text_eq n.wellFormed_parts
  have hsign : ∀ {c : Char}, c.isDigit → '-' ≠ c := by
    rintro c hc rfl
    exact absurd hc (by decide)
  have hparts : m.parts.text = n.parts.text → m.parts = n.parts :=
    NumberParts.text_injective m.wellFormed_parts n.wellFormed_parts
  rw [text_eq, text_eq] at h
  rw [value_eq, value_eq]
  split at h
  · next hneg =>
    split at h
    · next hneg' => rw [if_pos hneg, if_pos hneg', hparts (List.cons.inj h).2]
    · rw [hn] at h
      exact absurd (List.cons.inj h).1 (hsign hc')
  · next hneg =>
    split at h
    · rw [hm] at h
      exact absurd (List.cons.inj h).1.symm (hsign hc)
    · next hneg' => rw [if_neg hneg, if_neg hneg', hparts h]

theorem isNumberChar {c : Char} (hc : c ∈ m.text) : IsNumberChar c := by
  rw [text_eq] at hc
  split at hc
  · obtain rfl | hc := List.mem_cons.mp hc
    · exact .inr (by decide)
    · exact NumberParts.isNumberChar m.wellFormed_parts hc
  · exact NumberParts.isNumberChar m.wellFormed_parts hc

theorem text_ne_nil (m : Numeral) : m.text ≠ [] := by
  rw [text_eq]
  split
  · exact List.cons_ne_nil _ _
  · obtain ⟨c, t, hm, -⟩ := NumberParts.exists_text_eq m.wellFormed_parts
    rw [hm]
    exact List.cons_ne_nil _ _

end Numeral

variable {ν : Type} (format : NumberFormat ν)

theorem NumberFormat.exists_of_mem_toString {x : ν} {u : CodeUnit} (h : u ∈ format.toString x) :
    ∃ c, IsNumberChar c ∧ unit c = u := by
  obtain ⟨c, hc, rfl⟩ := List.mem_map.mp h
  exact ⟨c, Numeral.isNumberChar hc, rfl⟩

theorem NumberFormat.toString_ne_nil (x : ν) : format.toString x ≠ [] :=
  List.map_eq_nil_iff.not.mpr (Numeral.text_ne_nil _)

/-- **Numbers are told** by their texts. -/
theorem NumberFormat.toString_injective : Function.Injective format.toString := by
  intro x y h
  have hascii : ∀ m : Numeral, ∀ c ∈ m.text, c.toNat < 128 :=
    fun m c hc => (m.isNumberChar hc).toNat_lt
  have htext := units_injOn (hascii _) (hascii _) h
  rw [← format.number_numeral x, Numeral.value_eq_of_text_eq htext, format.number_numeral]

/-- Integers, written with all their digits. -/
def NumberFormat.integers : NumberFormat ℤ where
  numeral z := .nonzero (z < 0)
    { digits := Nat.toDigits 10 z.natAbs
      point := (Nat.toDigits 10 z.natAbs).length
      isDigit := fun _ hc => Nat.isDigit_of_mem_toDigits (by decide) (by decide) hc
      ne_nil := Nat.toDigits_ne_nil }
  number q := q.num
  number_numeral z := by
    simp only [Numeral.value, Decimal.value, natOf, Nat.ofDigitChars_ten_toDigits]
    obtain hz | hz := lt_or_ge z 0
    · simp [hz, abs_of_neg hz]
    · simp [hz.not_gt, hz]

example : NumberFormat.integers.toString (-120) = units ['-', '1', '2', '0'] := by decide +kernel

end JsText
