import Mathlib.Data.List.Basic

/-!
# Quoted texts

A text is written between quotes. A character that would be taken for something else
is written as a mark and a character that stands for it. What is read up to the first
quote that is not marked is then the text again, whatever follows.
-/

/-- How texts are quoted: the characters that are not written as themselves, and what
stands for them after a mark. The quote and the mark are among them. -/
structure QuoteStyle (α : Type) where
  quote : α
  mark : α
  /-- What stands for a character, if it is not written as itself. -/
  code : α → Option α
  /-- What a character after a mark stands for. -/
  decode : α → Option α
  decode_of_code : ∀ x y, code x = some y → decode y = some x
  code_quote : (code quote).isSome
  code_mark : (code mark).isSome
  mark_ne_quote : mark ≠ quote

namespace QuoteStyle

variable {α : Type} [DecidableEq α] (q : QuoteStyle α)

/-- How a character is written. -/
def escapeChar (x : α) : List α :=
  match q.code x with
  | some y => [q.mark, y]
  | none => [x]

/-- How a text is written between quotes. -/
def escape (xs : List α) : List α := xs.flatMap q.escapeChar

/-- Read a text up to the closing quote; the answer is the text, and what follows. -/
def read : List α → Option (List α × List α)
  | [] => none
  | x :: xs =>
    if x = q.mark then
      match xs with
      | [] => none
      | y :: ys => do
        let (text, rest) ← read ys
        return ((← q.decode y) :: text, rest)
    else if x = q.quote then some ([], xs)
    else do
      let (text, rest) ← read xs
      return (x :: text, rest)

/-- The closing quote ends the text. -/
theorem read_quote (rest : List α) : q.read (q.quote :: rest) = some ([], rest) := by
  cases rest <;> simp [read, q.mark_ne_quote.symm]

/-- A mark and the character after it are one of the text. -/
theorem read_mark (y : α) (ys : List α) :
    q.read (q.mark :: y :: ys)
      = (q.read ys).bind fun r => (q.decode y).map fun x => (x :: r.1, r.2) := by
  cases h : q.read ys <;> cases hy : q.decode y <;> simp [read, h, hy]

/-- Any other character is one of the text. -/
theorem read_cons {x : α} (hmark : x ≠ q.mark) (hquote : x ≠ q.quote) (xs : List α) :
    q.read (x :: xs) = (q.read xs).map fun r => (x :: r.1, r.2) := by
  cases xs with
  | nil => simp [read, hmark, hquote]
  | cons y ys => cases h : q.read (y :: ys) <;> simp [read, hmark, hquote, h]

/-- A character is read as it was written. -/
theorem read_escapeChar {x : α} {xs text rest : List α} (h : q.read xs = some (text, rest)) :
    q.read (q.escapeChar x ++ xs) = some (x :: text, rest) := by
  unfold escapeChar
  split
  case h_1 y hy =>
    rw [List.cons_append, List.singleton_append, q.read_mark, h, q.decode_of_code x y hy]
    rfl
  case h_2 hnone =>
    -- what is written as itself is neither the mark nor the quote
    have hmark : x ≠ q.mark := fun heq => by simpa [← heq, hnone] using q.code_mark
    have hquote : x ≠ q.quote := fun heq => by simpa [← heq, hnone] using q.code_quote
    rw [List.singleton_append, q.read_cons hmark hquote, h]
    rfl

/-- **A quoted text is read as the text.** -/
theorem read_escape (xs rest : List α) :
    q.read (q.escape xs ++ q.quote :: rest) = some (xs, rest) := by
  induction xs with
  | nil => exact q.read_quote rest
  | cons x xs ih =>
    rw [escape, List.flatMap_cons, List.append_assoc]
    exact q.read_escapeChar ih

/-- What follows the closing quote is not looked at. -/
theorem read_append {xs text rest : List α} (h : q.read xs = some (text, rest)) (ys : List α) :
    q.read (xs ++ ys) = some (text, rest ++ ys) := by
  fun_induction QuoteStyle.read q xs generalizing text with
  | case1 => cases h
  | case2 => cases h
  | case3 y zs ih =>
    obtain ⟨⟨text', rest'⟩, hread, h⟩ := Option.bind_eq_some_iff.mp h
    obtain ⟨x, hx, h⟩ := Option.bind_eq_some_iff.mp h
    cases h
    rw [List.cons_append, List.cons_append, q.read_mark, ih hread, hx]
    rfl
  | case4 zs =>
    cases h
    exact q.read_quote _
  | case5 x zs hmark hquote ih =>
    obtain ⟨⟨text', rest'⟩, hread, h⟩ := Option.bind_eq_some_iff.mp h
    cases h
    rw [List.cons_append, q.read_cons hmark hquote, ih hread]
    rfl

/-! ## Statements -/

/-- A part of a statement: a character of its own, or a quoted text. -/
inductive Token (α : Type)
  | code (x : α)
  | literal (text : List α)

/-- A text of the statement itself. -/
def codeTokens (xs : List α) : List (Token α) := xs.map .code

/-- How a part of a statement is written. -/
def renderToken : Token α → List α
  | .code x => [x]
  | .literal text => q.quote :: (q.escape text ++ [q.quote])

/-- How a statement is written. -/
def render (tokens : List (Token α)) : List α := tokens.flatMap q.renderToken

omit [DecidableEq α] in
@[simp] theorem render_codeTokens (xs : List α) : q.render (codeTokens xs) = xs := by
  unfold render codeTokens
  rw [List.flatMap_map]
  exact List.flatMap_singleton' xs

omit [DecidableEq α] in
@[simp] theorem render_append (ts us : List (Token α)) :
    q.render (ts ++ us) = q.render ts ++ q.render us := List.flatMap_append

omit [DecidableEq α] in
@[simp] theorem render_literal_cons (text : List α) (ts : List (Token α)) :
    q.render (.literal text :: ts)
      = q.quote :: (q.escape text ++ q.quote :: q.render ts) := by
  show (q.quote :: (q.escape text ++ [q.quote])) ++ q.render ts = _
  rw [List.cons_append, List.append_assoc]
  rfl

/-- Read a statement with some fuel: what begins with a quote is a quoted text. -/
def lexFrom : ℕ → List α → Option (List (Token α))
  | _, [] => some []
  | 0, _ :: _ => none
  | fuel + 1, x :: xs =>
    if x = q.quote then do
      let (text, rest) ← q.read xs
      return .literal text :: (← lexFrom fuel rest)
    else return .code x :: (← lexFrom fuel xs)

/-- Read a statement. -/
def lex (xs : List α) : Option (List (Token α)) := q.lexFrom xs.length xs

/-- What is written of a statement is read with fuel for each of its characters. -/
theorem lexFrom_render {fuel : ℕ} {ts : List (Token α)} (hcode : .code q.quote ∉ ts)
    (hfuel : (q.render ts).length ≤ fuel) : q.lexFrom fuel (q.render ts) = some ts := by
  induction ts generalizing fuel with
  | nil => cases fuel <;> rfl
  | cons t ts ih =>
    have hrest := List.not_mem_of_not_mem_cons hcode
    cases t with
    | code x =>
      have hx : x ≠ q.quote := fun heq => hcode (heq ▸ List.mem_cons_self)
      have hrender : q.render (.code x :: ts) = x :: q.render ts := rfl
      rw [hrender, List.length_cons] at hfuel
      obtain ⟨fuel, rfl⟩ := Nat.exists_eq_add_of_le' (Nat.one_le_of_lt hfuel)
      rw [hrender, lexFrom, if_neg hx, ih hrest (Nat.le_of_succ_le_succ hfuel)]
      rfl
    | literal text =>
      rw [render_literal_cons, List.length_cons, List.length_append, List.length_cons] at hfuel
      obtain ⟨fuel, rfl⟩ := Nat.exists_eq_add_of_le' (Nat.one_le_of_lt hfuel)
      rw [render_literal_cons, lexFrom, if_pos rfl, q.read_escape]
      show (q.lexFrom fuel (q.render ts)).bind _ = _
      rw [ih hrest (by omega)]
      rfl

/-- **What is written of a statement is read as the statement**, if nothing of the
statement itself is a quote. -/
theorem lex_render {ts : List (Token α)} (hcode : .code q.quote ∉ ts) :
    q.lex (q.render ts) = some ts :=
  q.lexFrom_render hcode (Nat.le_refl _)

end QuoteStyle
