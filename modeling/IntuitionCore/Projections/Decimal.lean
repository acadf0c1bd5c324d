import IntuitionCore.Curves.Types
import Mathlib.Algebra.Order.Ring.Rat
import Mathlib.Data.Int.DivMod
import Mathlib.Data.List.TakeWhile

/-!
# Decimals, and what is left to other crates

Amounts and curve ids arrive as arbitrary-precision decimals: an integer and
the number of its digits that lie after the point. The same number has many
such representations, and two things depend on which one it is – the text a
decimal is printed as, and nothing else. The tables hold the number.

Printing a decimal, hashing, and the division of two numbers are done by
crates and by a database that are not part of the repository. They are the
fields of `Externals`, and what the projections rely on about them – that a
printed decimal can be read back – is `Externals.Lawful`.
-/

/-- An arbitrary-precision decimal: `int` divided by ten to the `scale`. -/
structure BigDecimal where
  /-- The digits. -/
  int : ℤ
  /-- How many of the digits lie after the point. -/
  scale : ℤ := 0
  deriving DecidableEq, Repr

namespace BigDecimal

/-- The number a decimal stands for; a `NUMERIC` column holds it exactly. -/
def val (d : BigDecimal) : ℚ :=
  match d.scale with
  | .ofNat n => mkRat d.int (10 ^ n)
  | .negSucc n => (d.int * 10 ^ (n + 1) : ℤ)

/-- The decimal with no digits after the point, the ones it had cut off. -/
def withScale0 (d : BigDecimal) : BigDecimal :=
  match d.scale with
  | .ofNat n => ⟨d.int.tdiv (10 ^ n), 0⟩
  | .negSucc n => ⟨d.int * 10 ^ (n + 1), 0⟩

/-- The opposite decimal. -/
def neg (d : BigDecimal) : BigDecimal := ⟨-d.int, d.scale⟩

/-- Dividing with truncation depends on the quotient only. -/
theorem tdiv_mkRat (a : ℤ) {b : ℕ} (hb : b ≠ 0) :
    (mkRat a b).num.tdiv (mkRat a b).den = a.tdiv b := by
  obtain ⟨m, hm, hnum, hden⟩ : ∃ m : ℕ, m ≠ 0 ∧ a = (mkRat a b).num * m ∧
      b = (mkRat a b).den * m := Rat.mkRat_num_den hb rfl
  have hpos : (0 : ℤ) < m := by exact_mod_cast Nat.pos_of_ne_zero hm
  have hden' : (b : ℤ) = (mkRat a b).den * m := by exact_mod_cast hden
  calc _ = ((mkRat a b).num * m).tdiv ((mkRat a b).den * m) :=
        (Int.mul_tdiv_mul_of_pos_left _ _ hpos).symm
    _ = a.tdiv b := congrArg₂ Int.tdiv hnum.symm hden'.symm

/-- Cutting off the digits after the point depends on the number only. -/
theorem withScale0_eq_of_val_eq {a b : BigDecimal} (h : a.val = b.val) :
    a.withScale0 = b.withScale0 := by
  have htrunc : ∀ d : BigDecimal, d.withScale0 = ⟨d.val.num.tdiv d.val.den, 0⟩ := by
    intro d
    unfold withScale0 val
    cases d.scale with
    | ofNat n =>
      show _ = (⟨(mkRat d.int (10 ^ n)).num.tdiv (mkRat d.int (10 ^ n)).den, 0⟩ : BigDecimal)
      rw [tdiv_mkRat d.int (Nat.pos_iff_ne_zero.mp (Nat.pow_pos (by decide))), Int.natCast_pow]
      rfl
    | negSucc n =>
      show _ = (⟨((d.int * 10 ^ (n + 1) : ℤ) : ℚ).num.tdiv _, 0⟩ : BigDecimal)
      rw [Rat.num_intCast, Rat.den_intCast]
      exact congrArg (BigDecimal.mk · 0) (Int.tdiv_one _).symm
  rw [htrunc, htrunc, h]

end BigDecimal

/-- What other crates and the database compute. -/
structure Externals where
  /-- The text a decimal is printed as. -/
  toString : BigDecimal → String
  /-- The decimal a text is read as. -/
  parseDecimal : String → Option BigDecimal
  /-- The 256-bit integer a text is read as. -/
  parseU256 : String → Option U256
  /-- The quotient of two decimals, to a fixed number of digits. -/
  decimalDiv : BigDecimal → BigDecimal → BigDecimal
  /-- The quotient of two `NUMERIC` values, to the digits the database keeps. -/
  numericDiv : ℚ → ℚ → ℚ
  /-- The hash of a vault identity, under pinned seeds. -/
  hash : String → String → ℕ

/-- A printed decimal is read back as the number it was printed from. -/
structure Externals.Lawful (ext : Externals) : Prop where
  parse_toString : ∀ a : BigDecimal, ∃ b, ext.parseDecimal (ext.toString a) = some b ∧ b.val = a.val

/-! ## A printer whose texts can be read back -/

namespace Externals

/-- The decimal digits of an integer, after its sign. -/
def printInt : ℤ → List Char
  | .ofNat n => Nat.toDigits 10 n
  | .negSucc n => '-' :: Nat.toDigits 10 (n + 1)

/-- The integer some digits stand for, after their sign. -/
def readInt : List Char → ℤ
  | '-' :: cs => -(Nat.ofDigitChars 10 cs 0 : ℕ)
  | cs => (Nat.ofDigitChars 10 cs 0 : ℕ)

/-- An integer is printed in digits, any other decimal with an exponent. -/
def print (d : BigDecimal) : List Char :=
  if d.scale = 0 then printInt d.int else printInt d.int ++ 'e' :: printInt (-d.scale)

/-- An exponent is optional. -/
def read (cs : List Char) : BigDecimal :=
  ⟨readInt (cs.takeWhile fun c => c ≠ 'e'), -readInt ((cs.dropWhile fun c => c ≠ 'e').drop 1)⟩

theorem not_mem_toDigits {c : Char} (hc : c.isDigit = false) (n : ℕ) :
    c ∉ Nat.toDigits 10 n := fun h =>
  Bool.false_ne_true (hc.symm.trans (Nat.isDigit_of_mem_toDigits (by decide) (by decide) h))

theorem not_mem_printInt (z : ℤ) : 'e' ∉ printInt z := by
  cases z with
  | ofNat n => exact not_mem_toDigits rfl n
  | negSucc n =>
    intro h
    obtain h | h := List.mem_cons.mp h
    · exact absurd h (by decide)
    · exact not_mem_toDigits rfl _ h

theorem readInt_printInt (z : ℤ) : readInt (printInt z) = z := by
  have hdigits : ∀ n, Nat.ofDigitChars 10 (Nat.toDigits 10 n) 0 = n := fun n =>
    Nat.ofDigitChars_toDigits (by decide) (by decide)
  cases z with
  | ofNat n =>
    show readInt (Nat.toDigits 10 n) = n
    unfold readInt
    split
    · next cs h => exact absurd (h ▸ List.mem_cons_self) (not_mem_toDigits (c := '-') rfl n)
    · rw [hdigits]
  | negSucc n =>
    show -((Nat.ofDigitChars 10 (Nat.toDigits 10 (n + 1)) 0 : ℕ) : ℤ) = _
    rw [hdigits]
    rfl

theorem read_print (d : BigDecimal) : read (print d) = d := by
  obtain ⟨int, scale⟩ := d
  have hne : ∀ c ∈ printInt int, (decide (c ≠ 'e')) = true := by
    intro c hc
    simpa using fun h : c = 'e' => not_mem_printInt int (h ▸ hc)
  unfold print
  by_cases hs : scale = 0
  · subst hs
    rw [if_pos rfl]
    unfold read
    rw [List.takeWhile_eq_self_iff.mpr hne, List.dropWhile_eq_nil_iff.mpr hne, readInt_printInt]
    rfl
  · rw [if_neg hs]
    unfold read
    rw [List.takeWhile_append_of_pos hne, List.dropWhile_append_of_pos hne]
    show (⟨readInt (printInt int ++ []), -readInt (printInt (-scale))⟩ : BigDecimal) = _
    rw [List.append_nil, readInt_printInt, readInt_printInt, neg_neg]

/-- Externals that print integers in digits; quotients of decimals lose their
remainder, and those of columns do not. -/
def exact : Externals where
  toString d := .ofList (print d)
  parseDecimal s := some (read s.toList)
  parseU256 s := s.toNat?.bind fun n => if n < 2 ^ 256 then some (.ofNat 256 n) else none
  decimalDiv a b := ⟨a.int / b.int, a.scale - b.scale⟩
  numericDiv x y := x / y
  hash termId curveId := termId.length + curveId.length

theorem exact_lawful : exact.Lawful where
  parse_toString a :=
    ⟨a, congrArg some ((congrArg read String.toList_ofList).trans (read_print a)), rfl⟩

end Externals
