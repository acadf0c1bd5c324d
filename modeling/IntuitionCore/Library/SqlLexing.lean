import Mathlib.Data.Bool.AllAny
import Mathlib.Data.List.TakeWhile
import Mathlib.Data.Nat.Notation

/-!
# The lexical structure of SQL in PostgreSQL

A text is made of pieces: white space, identifiers, numbers, operators, quotations and
comments. Each piece is read by the character it begins with and by where it ends. Block
comments nest. A dollar in an identifier belongs to it, and a dollar elsewhere begins a
quotation. Numbers and operators are pieces only as far as they matter here: the digits and
letters of a number, and each character of an operator.

The tokens of a text are those of its pieces. What stands together without white space,
quotations or comments between it is cut into tokens by a function that is left open. Two strings
are one if there is only white space with a line break, and comments to the end of a line,
between them.

A piece is read where it stands exactly if it is one, and what follows does not belong to it.
-/

namespace SqlLexing

abbrev Text := List Char

/-! ## Characters -/

def isSpace (c : Char) : Bool := [' ', '\t', '\n', '\r', '\x0b', '\x0c'].contains c

def isLineBreak (c : Char) : Bool := c == '\n' || c == '\r'

/-- Characters beyond ASCII count as letters. -/
def isIdentStart (c : Char) : Bool := c.isAlpha || c == '_' || 128 ≤ c.toNat

/-- The characters of a number, after its first digit. -/
def isNumberCont (c : Char) : Bool := isIdentStart c || c.isDigit

def isIdentCont (c : Char) : Bool := isNumberCont c || c == '$'

/-- The characters of operators, and other characters that stand for themselves. -/
def isMark (c : Char) : Bool := "()[],.:+-*/<>=~!@#%^&|`?".toList.contains c

/-! ## Pieces -/

inductive Piece where
  | space (c : Char)
  | word (t : Text)
  | digits (t : Text)
  | mark (c : Char)
  | semicolon
  /-- A string, by what it stands for. -/
  | single (body : Text)
  /-- A quoted identifier, by what it stands for. -/
  | double (body : Text)
  | dollar (tag body : Text)
  | line (body : Text)
  /-- A block comment, by what is between its marks. -/
  | block (body : Text)
  deriving DecidableEq, Repr

/-- A quotation that has its quotes doubled. -/
def doubled (quote : Char) (body : Text) : Text :=
  body.flatMap fun c => if c = quote then [c, c] else [c]

/-- The word that a dollar quotation begins and ends with. -/
def delimiter (tag : Text) : Text := '$' :: tag ++ ['$']

def Piece.text : Piece → Text
  | .space c => [c]
  | .word t => t
  | .digits t => t
  | .mark c => [c]
  | .semicolon => [';']
  | .single body => '\'' :: doubled '\'' body ++ ['\'']
  | .double body => '"' :: doubled '"' body ++ ['"']
  | .dollar tag body => delimiter tag ++ (body ++ delimiter tag)
  | .line body => '-' :: '-' :: body
  | .block body => '/' :: '*' :: body ++ ['*', '/']

/-- The text of some pieces. -/
def textOf (ps : List Piece) : Text := ps.flatMap Piece.text

/-! ## Reading -/

/-- A quotation after its first quote: what it stands for, and what is left. -/
def readQuoted (quote : Char) : Text → Option (Text × Text)
  | [] => none
  | [c] => if c = quote then some ([], []) else none
  | c :: d :: cs =>
    if c = quote then
      if d = quote then (readQuoted quote cs).map fun r => (c :: r.1, r.2) else some ([], d :: cs)
    else (readQuoted quote (d :: cs)).map fun r => (c :: r.1, r.2)

/-- What is in front of the first place where a word stands, and what is behind it. -/
def readUntil (w : Text) : Text → Option (Text × Text)
  | [] => none
  | c :: cs =>
    if w.isPrefixOf (c :: cs) then some ([], (c :: cs).drop w.length)
    else (readUntil w cs).map fun r => (c :: r.1, r.2)

/-- A block comment after its first mark, in which some others are open. -/
def readBlock : ℕ → Text → Option (Text × Text)
  | depth, c :: d :: cs =>
    if c = '*' ∧ d = '/' then
      if depth = 0 then some ([], cs)
      else (readBlock (depth - 1) cs).map fun r => (c :: d :: r.1, r.2)
    else if c = '/' ∧ d = '*' then (readBlock (depth + 1) cs).map fun r => (c :: d :: r.1, r.2)
    else (readBlock depth (d :: cs)).map fun r => (c :: r.1, r.2)
  | _, _ => none

/-- Words after which a quote begins a string of another kind. -/
def stringPrefixes : List Text :=
  [['e'], ['E'], ['b'], ['B'], ['x'], ['X'], ['n'], ['N']]

/-- A word and what follows it begin a quotation of another kind. -/
def BeginsOtherQuotation (t rest : Text) : Prop :=
  (t ∈ stringPrefixes ∧ rest.head? = some '\'')
    ∨ (t ∈ [['u'], ['U']] ∧ (rest.take 2 = ['&', '\''] ∨ rest.take 2 = ['&', '"']))

instance (t rest : Text) : Decidable (BeginsOtherQuotation t rest) :=
  inferInstanceAs (Decidable (_ ∨ _))

/-- The tag of a dollar quotation does not begin with a digit. -/
def IsTag (tag : Text) : Prop :=
  (∀ c ∈ tag.head?, isIdentStart c = true) ∧ ∀ c ∈ tag, isNumberCont c = true

instance (tag : Text) : Decidable (IsTag tag) :=
  decidable_of_iff (tag.head?.all isIdentStart = true ∧ tag.all isNumberCont = true)
    (by cases tag <;> simp [IsTag])

/-- A dollar quotation after its first dollar. -/
def readDollar (cs : Text) : Option (Piece × Text) :=
  let tag := cs.takeWhile isNumberCont
  if IsTag tag ∧ (cs.dropWhile isNumberCont).head? = some '$' then
    (readUntil (delimiter tag) ((cs.dropWhile isNumberCont).drop 1)).map fun r =>
      (.dollar tag r.1, r.2)
  else none

/-- The first piece of a text, and what is left of it. -/
def next : Text → Option (Piece × Text)
  | [] => none
  | c :: cs =>
    if isSpace c then some (.space c, cs)
    else if c = '\'' then (readQuoted '\'' cs).map fun r => (.single r.1, r.2)
    else if c = '"' then
      (readQuoted '"' cs).bind fun r => if r.1 = [] then none else some (.double r.1, r.2)
    else if c = '$' then readDollar cs
    else if c = ';' then some (.semicolon, cs)
    else if c = '-' ∧ cs.head? = some '-' then
      some (.line ((cs.drop 1).takeWhile fun d => !isLineBreak d),
        (cs.drop 1).dropWhile fun d => !isLineBreak d)
    else if c = '/' ∧ cs.head? = some '*' then
      (readBlock 0 (cs.drop 1)).map fun r => (.block r.1, r.2)
    else if isIdentStart c then
      let t := c :: cs.takeWhile isIdentCont
      let rest := cs.dropWhile isIdentCont
      if BeginsOtherQuotation t rest then none else some (.word t, rest)
    else if c.isDigit then
      some (.digits (c :: cs.takeWhile isNumberCont), cs.dropWhile isNumberCont)
    else if isMark c then some (.mark c, cs)
    else none

/-- The pieces of a text, of a number at most. -/
def lexFuel : ℕ → Text → Option (List Piece)
  | _, [] => some []
  | 0, _ :: _ => none
  | n + 1, c :: cs => (next (c :: cs)).bind fun r => (lexFuel n r.2).map (r.1 :: ·)

/-- **The pieces of a text**, if it is made of pieces. -/
def lex (t : Text) : Option (List Piece) := lexFuel t.length t

/-! ## Tokens -/

inductive Token (τ : Type) where
  /-- An identifier, a number or an operator. -/
  | plain (x : τ)
  | string (body : Text)
  | identifier (body : Text)
  | semicolon
  deriving DecidableEq, Repr

/-- What was read last: something that stands together, or a string, after which a line break
may have been read. -/
inductive Last where
  | none
  | run (t : Text)
  | string (body : Text) (lineBreak : Bool)

variable {τ : Type} (plain : Text → List τ)

/-- The tokens of what was read last. -/
def Last.tokens : Last → List (Token τ)
  | .none => []
  | .run t => (plain t).map .plain
  | .string body _ => [.string body]

/-- White space, which may break the line, or a comment to the end of one. -/
def Last.pass (lineBreak : Bool) : Last → List (Token τ) × Last
  | .string body lineBreak' => ([], .string body (lineBreak' || lineBreak))
  | last => (last.tokens plain, .none)

/-- Something that stands together with what is in front of it. -/
def Last.extend (t : Text) : Last → List (Token τ) × Last
  | .run t' => ([], .run (t' ++ t))
  | last => (last.tokens plain, .run t)

/-- The tokens that end before a piece does, and what was read last then. -/
def advance (last : Last) : Piece → List (Token τ) × Last
  | .space c => last.pass plain (isLineBreak c)
  | .line _ => last.pass plain false
  | .block _ => (last.tokens plain, .none)
  | .word t => last.extend plain t
  | .digits t => last.extend plain t
  | .mark c => last.extend plain [c]
  | .single body =>
    match last with
    | .string body' true => ([], .string (body' ++ body) false)
    | last => (last.tokens plain, .string body false)
  | .double body => (last.tokens plain ++ [.identifier body], .none)
  | .dollar _ body => (last.tokens plain ++ [.string body], .none)
  | .semicolon => (last.tokens plain ++ [.semicolon], .none)

/-- The tokens of pieces after what was read last. -/
def tokensFrom : Last → List Piece → List (Token τ)
  | last, [] => last.tokens plain
  | last, p :: ps => (advance plain last p).1 ++ tokensFrom (advance plain last p).2 ps

/-- **The tokens of pieces.** -/
def tokens (ps : List Piece) : List (Token τ) := tokensFrom plain .none ps

/-! ## What is read where it stands -/

namespace Piece

/-- A piece is one, for itself. -/
def Valid : Piece → Prop
  | .space c => isSpace c = true
  | .word t => ∃ c cs, t = c :: cs ∧ isIdentStart c = true ∧ ∀ d ∈ cs, isIdentCont d = true
  | .digits t => ∃ c cs, t = c :: cs ∧ c.isDigit = true ∧ ∀ d ∈ cs, isNumberCont d = true
  | .mark c => isMark c = true
  | .semicolon => True
  | .single _ => True
  | .double body => body ≠ []
  | .dollar tag body =>
    IsTag tag ∧ readUntil (delimiter tag) (body ++ delimiter tag) = some (body, [])
  | .line body => ∀ c ∈ body, isLineBreak c = false
  | .block body => readBlock 0 (body ++ ['*', '/']) = some (body, [])

/-- What follows a piece does not belong to it. -/
def Follows (rest : Text) : Piece → Prop
  | .word t => (∀ c ∈ rest.head?, isIdentCont c = false) ∧ ¬ BeginsOtherQuotation t rest
  | .digits _ => ∀ c ∈ rest.head?, isNumberCont c = false
  | .mark c => (c = '-' → rest.head? ≠ some '-') ∧ (c = '/' → rest.head? ≠ some '*')
  | .single _ => rest.head? ≠ some '\''
  | .double _ => rest.head? ≠ some '"'
  | .line _ => ∀ c ∈ rest.head?, isLineBreak c = true
  | _ => True

end Piece

/-- Pieces are read as what they are, one after the other. -/
def Lexed : List Piece → Prop
  | [] => True
  | p :: ps => p.Valid ∧ p.Follows (textOf ps) ∧ Lexed ps

section Reading

variable {quote : Char} {w t body rest : Text} {p : Piece}

theorem doubled_cons_self (body : Text) :
    doubled quote (quote :: body) = quote :: quote :: doubled quote body := by
  unfold doubled
  rw [List.flatMap_cons, if_pos rfl]
  rfl

theorem doubled_cons {c : Char} (h : c ≠ quote) (body : Text) :
    doubled quote (c :: body) = c :: doubled quote body := by
  unfold doubled
  rw [List.flatMap_cons, if_neg h]
  rfl

/-- A quotation is made of what it stands for, and ends at a quote that is not doubled. -/
theorem of_readQuoted (h : readQuoted quote t = some (body, rest)) :
    t = doubled quote body ++ quote :: rest ∧ rest.head? ≠ some quote := by
  fun_induction readQuoted quote t generalizing body with
  | case1 => cases h
  | case2 =>
    cases h
    exact ⟨rfl, by simp⟩
  | case3 => cases h
  | case4 cs ih =>
    obtain ⟨⟨body', rest'⟩, hread, heq⟩ := Option.map_eq_some_iff.mp h
    cases heq
    obtain ⟨rfl, hrest⟩ := ih hread
    exact ⟨by rw [doubled_cons_self]; rfl, hrest⟩
  | case5 d cs hd =>
    cases h
    exact ⟨rfl, fun heq => hd (Option.some.inj heq)⟩
  | case6 c d cs hc ih =>
    obtain ⟨⟨body', rest'⟩, hread, heq⟩ := Option.map_eq_some_iff.mp h
    cases heq
    obtain ⟨htext, hrest⟩ := ih hread
    exact ⟨by rw [doubled_cons hc, htext]; rfl, hrest⟩

/-- **A quotation is read** as what it stands for. -/
theorem readQuoted_doubled (body : Text) (h : rest.head? ≠ some quote) :
    readQuoted quote (doubled quote body ++ quote :: rest) = some (body, rest) := by
  induction body with
  | nil =>
    cases rest with
    | nil => exact if_pos rfl
    | cons d cs => exact (if_pos rfl).trans (if_neg fun hd => h (congrArg some hd))
  | cons c body ih =>
    by_cases hc : c = quote
    · subst hc
      rw [doubled_cons_self, List.cons_append, List.cons_append, readQuoted, if_pos rfl,
        if_pos rfl, ih]
      rfl
    · obtain ⟨d, ds, hds⟩ : ∃ d ds, doubled quote body ++ quote :: rest = d :: ds :=
        List.exists_cons_of_ne_nil (by simp)
      rw [doubled_cons hc, List.cons_append, hds]
      show (if c = quote then _ else _ : Option (Text × Text)) = _
      rw [if_neg hc, ← hds, ih]
      rfl

/-- A prefix is looked for in as much of a text as it is long. -/
theorem isPrefixOf_append (h : w.length ≤ t.length) :
    w.isPrefixOf (t ++ rest) = w.isPrefixOf t := by
  rw [Bool.eq_iff_iff, List.isPrefixOf_iff_prefix, List.isPrefixOf_iff_prefix]
  exact ⟨fun hw => List.prefix_of_prefix_length_le hw (List.prefix_append ..) h,
    fun hw => hw.trans (List.prefix_append ..)⟩

/-- What is read up to a word ends with it, and the word is not found before. -/
theorem of_readUntil (h : readUntil w t = some (body, rest)) :
    t = body ++ (w ++ rest) ∧ (w ≠ [] → readUntil w (body ++ w) = some (body, [])) := by
  induction t generalizing body with
  | nil => cases h
  | cons c cs ih =>
    rw [readUntil] at h
    split at h
    · next hprefix =>
      cases h
      obtain ⟨rest, hrest⟩ := List.isPrefixOf_iff_prefix.mp hprefix
      rw [← hrest, List.drop_left]
      refine ⟨rfl, fun hw => ?_⟩
      obtain ⟨d, ds, rfl⟩ := List.exists_cons_of_ne_nil hw
      rw [List.nil_append, readUntil, if_pos (List.isPrefixOf_iff_prefix.mpr List.prefix_rfl),
        List.drop_length]
    · next hnot =>
      obtain ⟨⟨body', rest'⟩, hread, heq⟩ := Option.map_eq_some_iff.mp h
      cases heq
      obtain ⟨rfl, hbody⟩ := ih hread
      refine ⟨rfl, fun hw => ?_⟩
      have hnot' : ¬ w.isPrefixOf (c :: (body' ++ w)) := by
        have happend : w.isPrefixOf ((c :: (body' ++ w)) ++ rest')
            = w.isPrefixOf (c :: (body' ++ w)) := isPrefixOf_append (by simp; omega)
        rw [← happend]
        rwa [List.cons_append, List.append_assoc]
      rw [List.cons_append, readUntil, if_neg hnot', hbody hw]
      rfl

/-- A word that is found where a text ends is not found before, whatever is behind it. -/
theorem of_readUntil_cons {c : Char} (h : readUntil w (c :: body ++ w) = some (c :: body, [])) :
    (∀ rest, w.isPrefixOf (c :: (body ++ (w ++ rest))) = false)
      ∧ readUntil w (body ++ w) = some (body, []) := by
  rw [List.cons_append, readUntil] at h
  split at h
  · cases h
  · next hnot =>
    obtain ⟨⟨body', rest'⟩, hread, heq⟩ := Option.map_eq_some_iff.mp h
    simp only [Prod.mk.injEq, List.cons.injEq, true_and] at heq
    obtain ⟨rfl, rfl⟩ := heq
    refine ⟨fun rest => ?_, hread⟩
    rw [← List.append_assoc, ← List.cons_append, isPrefixOf_append (by simp; omega)]
    exact Bool.eq_false_iff.mpr hnot

/-- **What is behind a word does not matter** for what is in front of it. -/
theorem readUntil_append (h : readUntil w (body ++ w) = some (body, [])) :
    readUntil w (body ++ (w ++ rest)) = some (body, rest) := by
  induction body with
  | nil =>
    cases w with
    | nil => cases h
    | cons d ds =>
      have hprefix : (d :: ds).isPrefixOf (d :: (ds ++ rest)) = true :=
        List.isPrefixOf_iff_prefix.mpr (List.prefix_append (d :: ds) rest)
      rw [List.nil_append, List.cons_append, readUntil, if_pos hprefix, ← List.cons_append,
        List.drop_left]
  | cons c body ih =>
    obtain ⟨hnot, h⟩ := of_readUntil_cons h
    rw [List.cons_append, readUntil, if_neg (Bool.eq_false_iff.mp (hnot rest)), ih h]
    rfl

/-- A block comment ends with its mark, and would end there without what is behind it. -/
theorem of_readBlock {depth : ℕ} (h : readBlock depth t = some (body, rest)) :
    t = body ++ '*' :: '/' :: rest
      ∧ readBlock depth (body ++ ['*', '/']) = some (body, []) := by
  fun_induction readBlock depth t generalizing body with
  | case1 c d cs hend =>
    cases h
    obtain ⟨rfl, rfl⟩ := hend
    exact ⟨rfl, rfl⟩
  | case2 depth c d cs hend hdepth ih =>
    obtain ⟨⟨body', rest'⟩, hread, heq⟩ := Option.map_eq_some_iff.mp h
    cases heq
    obtain ⟨rfl, hbody⟩ := ih hread
    refine ⟨rfl, ?_⟩
    rw [List.cons_append, List.cons_append, readBlock, if_pos hend, if_neg hdepth]
    exact congrArg (Option.map _) hbody
  | case3 depth c d cs hend hopen ih =>
    obtain ⟨⟨body', rest'⟩, hread, heq⟩ := Option.map_eq_some_iff.mp h
    cases heq
    obtain ⟨rfl, hbody⟩ := ih hread
    refine ⟨rfl, ?_⟩
    rw [List.cons_append, List.cons_append, readBlock, if_neg hend, if_pos hopen]
    exact congrArg (Option.map _) hbody
  | case4 depth c d cs hend hopen ih =>
    obtain ⟨⟨body', rest'⟩, hread, heq⟩ := Option.map_eq_some_iff.mp h
    cases heq
    obtain ⟨htext, hbody⟩ := ih hread
    refine ⟨by rw [htext]; rfl, ?_⟩
    -- the second character is still there without what is behind the comment
    obtain ⟨ds, hds⟩ : ∃ ds, body' ++ ['*', '/'] = d :: ds := by
      cases body' with
      | nil => exact ⟨['/'], congrArg (· :: ['/']) (List.cons.inj htext).1.symm⟩
      | cons e es => exact ⟨es ++ ['*', '/'], congrArg (· :: _) (List.cons.inj htext).1.symm⟩
    rw [List.cons_append, hds, readBlock, if_neg hend, if_neg hopen, ← hds]
    exact congrArg (Option.map _) hbody
  | case5 => cases h

/-- **What is behind a block comment does not matter.** -/
theorem readBlock_append {depth : ℕ} {more : Text} (h : readBlock depth t = some (body, rest)) :
    readBlock depth (t ++ more) = some (body, rest ++ more) := by
  fun_induction readBlock depth t generalizing body with
  | case1 c d cs hend =>
    cases h
    rw [List.cons_append, List.cons_append, readBlock, if_pos hend, if_pos rfl]
  | case2 depth c d cs hend hdepth ih =>
    obtain ⟨⟨body', rest'⟩, hread, heq⟩ := Option.map_eq_some_iff.mp h
    cases heq
    rw [List.cons_append, List.cons_append, readBlock, if_pos hend, if_neg hdepth, ih hread]
    rfl
  | case3 depth c d cs hend hopen ih =>
    obtain ⟨⟨body', rest'⟩, hread, heq⟩ := Option.map_eq_some_iff.mp h
    cases heq
    rw [List.cons_append, List.cons_append, readBlock, if_neg hend, if_pos hopen, ih hread]
    rfl
  | case4 depth c d cs hend hopen ih =>
    obtain ⟨⟨body', rest'⟩, hread, heq⟩ := Option.map_eq_some_iff.mp h
    cases heq
    rw [List.cons_append, List.cons_append, readBlock, if_neg hend, if_neg hopen,
      ← List.cons_append, ih hread]
    rfl
  | case5 => cases h

/-! ### Characters of one kind are of no other -/

variable {c : Char}

theorem ne_of_isIdentStart {d : Char} (h : isIdentStart c = true)
    (hd : isIdentStart d = false) : c ≠ d :=
  fun hc => Bool.false_ne_true ((hd.symm.trans (congrArg _ hc.symm)).trans h)

theorem isIdentCont_of_isSpace (h : isSpace c = true) : isIdentCont c = false := by
  have hspaces : ∀ d ∈ [' ', '\t', '\n', '\r', '\x0b', '\x0c'], isIdentCont d = false :=
    List.all_iff_forall_prop.mp (by decide)
  exact hspaces c (List.contains_iff_mem.mp h)

theorem isSpace_of_isIdentCont (h : isIdentCont c = true) : isSpace c = false :=
  Bool.eq_false_iff.mpr fun hspace => by
    rw [isIdentCont_of_isSpace hspace] at h
    exact Bool.false_ne_true h

theorem isNumberCont_of_isIdentStart (h : isIdentStart c = true) : isNumberCont c = true := by
  rw [isNumberCont, h, Bool.true_or]

theorem isIdentCont_of_isNumberCont (h : isNumberCont c = true) : isIdentCont c = true := by
  rw [isIdentCont, h, Bool.true_or]

theorem isNumberCont_of_isDigit (h : c.isDigit = true) : isNumberCont c = true := by
  rw [isNumberCont, h, Bool.or_true]

theorem isIdentStart_of_isDigit (h : c.isDigit = true) : isIdentStart c = false := by
  have hle : 48 ≤ c.val.toNat ∧ c.val.toNat ≤ 57 := by
    simpa [Char.isDigit, UInt32.le_iff_toNat_le] using h
  have hupper : c.isUpper = false := decide_eq_false fun hc =>
    absurd (Nat.le_trans (UInt32.le_iff_toNat_le.mp hc.1) hle.2) (by decide)
  have hlower : c.isLower = false := by
    refine (congrArg (· && _) (decide_eq_false fun hc => ?_)).trans (Bool.false_and _)
    exact absurd (Nat.le_trans (UInt32.le_iff_toNat_le.mp hc) hle.2) (by decide)
  have hunderscore : c ≠ '_' := by
    rintro rfl
    exact absurd hle.2 (by decide)
  have hascii : ¬ 128 ≤ c.toNat := fun hc => absurd (Nat.le_trans hc hle.2) (by decide)
  have halpha : c.isAlpha = false := by
    show (c.isUpper || c.isLower) = false
    rw [hupper, hlower, Bool.or_false]
  rw [isIdentStart, halpha, beq_false_of_ne hunderscore, decide_eq_false hascii]
  rfl

theorem head_dropWhile {p : Char → Bool} (h : c ∈ (t.dropWhile p).head?) : p c = false := by
  have hhead := List.head?_dropWhile_not p t
  rw [Option.mem_def.mp h] at hhead
  exact hhead

/-- What belongs together is taken, if what is behind it does not belong to it. -/
theorem span_append {p : Char → Bool} {a b : Text} (ha : ∀ c ∈ a, p c = true)
    (hb : ∀ c ∈ b.head?, p c = false) : (a ++ b).takeWhile p = a ∧ (a ++ b).dropWhile p = b := by
  rw [List.takeWhile_append_of_pos ha, List.dropWhile_append_of_pos ha]
  cases b with
  | nil => exact ⟨List.append_nil a, rfl⟩
  | cons c cs =>
    have hc : ¬ p c = true := Bool.eq_false_iff.mp (hb c rfl)
    rw [List.takeWhile_cons_of_neg hc, List.dropWhile_cons_of_neg hc]
    exact ⟨List.append_nil a, rfl⟩

theorem of_readDollar {cs : Text} (h : readDollar cs = some (p, rest)) :
    '$' :: cs = p.text ++ rest ∧ p.Valid ∧ p.Follows rest := by
  unfold readDollar at h
  dsimp only at h
  split at h
  · next htag =>
    obtain ⟨⟨body, rest'⟩, hread, heq⟩ := Option.map_eq_some_iff.mp h
    cases heq
    obtain ⟨hbody, hvalid⟩ := of_readUntil hread
    obtain ⟨d, ds, hds⟩ : ∃ d ds, cs.dropWhile isNumberCont = d :: ds :=
      List.exists_cons_of_ne_nil fun hnil => by
        rw [hnil] at htag
        cases htag.2
    rw [hds] at hbody htag
    cases Option.some.inj htag.2
    refine ⟨?_, ⟨htag.1, hvalid (List.cons_ne_nil _ _)⟩, trivial⟩
    have hcs : cs = cs.takeWhile isNumberCont ++ '$' :: ds := by
      rw [← hds, List.takeWhile_append_dropWhile]
    have hds' : ds = body ++ (delimiter (cs.takeWhile isNumberCont) ++ rest') := hbody
    rw [hds'] at hcs
    refine (congrArg (List.cons '$') hcs).trans ?_
    simp [Piece.text, delimiter]
  · cases h

/-- **What is read** is a piece, and what follows does not belong to it. -/
theorem of_next (h : next t = some (p, rest)) : t = p.text ++ rest ∧ p.Valid ∧ p.Follows rest := by
  cases t with
  | nil => cases h
  | cons c cs =>
    rw [next] at h
    split at h
    · next hspace =>
      cases h
      exact ⟨rfl, hspace, trivial⟩
    split at h
    · next hquote =>
      obtain ⟨⟨body, rest'⟩, hread, heq⟩ := Option.map_eq_some_iff.mp h
      cases heq
      subst hquote
      obtain ⟨rfl, hrest⟩ := of_readQuoted hread
      exact ⟨by simp [Piece.text], trivial, hrest⟩
    split at h
    · next hquote =>
      obtain ⟨⟨body, rest'⟩, hread, heq⟩ := Option.bind_eq_some_iff.mp h
      subst hquote
      obtain ⟨rfl, hrest⟩ := of_readQuoted hread
      split at heq
      · cases heq
      · next hbody =>
        cases heq
        exact ⟨by simp [Piece.text], hbody, hrest⟩
    split at h
    · next hdollar =>
      subst hdollar
      exact of_readDollar h
    split at h
    · next hsemicolon =>
      cases h
      subst hsemicolon
      exact ⟨rfl, trivial, trivial⟩
    split at h
    · next hline =>
      obtain ⟨rfl, hhead⟩ := hline
      obtain ⟨ds, rfl⟩ := List.head?_eq_some_iff.mp hhead
      cases h
      refine ⟨?_, fun c hc => ?_, fun c hc => ?_⟩
      · show _ = '-' :: '-' :: _ ++ _
        rw [List.cons_append, List.cons_append, List.takeWhile_append_dropWhile]
        rfl
      · simpa using List.mem_takeWhile_imp hc
      · simpa using head_dropWhile hc
    split at h
    · next hblock =>
      obtain ⟨rfl, hhead⟩ := hblock
      obtain ⟨ds, rfl⟩ := List.head?_eq_some_iff.mp hhead
      obtain ⟨⟨body, rest'⟩, hread, heq⟩ := Option.map_eq_some_iff.mp h
      cases heq
      obtain ⟨htext, hvalid⟩ := of_readBlock hread
      refine ⟨?_, hvalid, trivial⟩
      have hds : ds = body ++ '*' :: '/' :: rest' := htext
      rw [hds]
      simp [Piece.text]
    next hline hblock =>
    split at h
    · next hident =>
      dsimp only at h
      split at h
      · cases h
      · next hother =>
        cases h
        refine ⟨?_, ⟨c, _, rfl, hident, fun d hd => List.mem_takeWhile_imp hd⟩,
          fun d hd => head_dropWhile hd, hother⟩
        exact congrArg (List.cons c) List.takeWhile_append_dropWhile.symm
    split at h
    · next hdigit =>
      cases h
      refine ⟨?_, ⟨c, _, rfl, hdigit, fun d hd => List.mem_takeWhile_imp hd⟩,
        fun d hd => head_dropWhile hd⟩
      exact congrArg (List.cons c) List.takeWhile_append_dropWhile.symm
    split at h
    · next hmark =>
      cases h
      exact ⟨rfl, hmark, fun hc hhead => hline ⟨hc, hhead⟩, fun hc hhead => hblock ⟨hc, hhead⟩⟩
    cases h

/-- A character of a word or a number begins nothing else. -/
theorem next_cons {cs : Text} (h : isIdentCont c = true) (hc : c ≠ '$') :
    next (c :: cs) =
      if isIdentStart c then
        if BeginsOtherQuotation (c :: cs.takeWhile isIdentCont) (cs.dropWhile isIdentCont) then none
        else some (.word (c :: cs.takeWhile isIdentCont), cs.dropWhile isIdentCont)
      else if c.isDigit then
        some (.digits (c :: cs.takeWhile isNumberCont), cs.dropWhile isNumberCont)
      else if isMark c then some (.mark c, cs)
      else none := by
  have hne : ∀ d, isIdentCont d = false → c ≠ d := fun d hd hcd => by
    rw [hcd, hd] at h
    exact Bool.false_ne_true h
  rw [next, if_neg (Bool.eq_false_iff.mp (isSpace_of_isIdentCont h)), if_neg (hne _ (by decide)),
    if_neg (hne _ (by decide)), if_neg hc, if_neg (hne _ (by decide)),
    if_neg fun hline => hne _ (by decide) hline.1, if_neg fun hblock => hne _ (by decide) hblock.1]

theorem next_word {cs : Text} (hc : isIdentStart c = true) (hcs : ∀ d ∈ cs, isIdentCont d = true)
    (hrest : ∀ d ∈ rest.head?, isIdentCont d = false)
    (hother : ¬ BeginsOtherQuotation (c :: cs) rest) :
    next (c :: (cs ++ rest)) = some (.word (c :: cs), rest) := by
  obtain ⟨htake, hdrop⟩ := span_append hcs hrest
  have hcont := isIdentCont_of_isNumberCont (isNumberCont_of_isIdentStart hc)
  rw [next_cons hcont (ne_of_isIdentStart hc (by decide)), if_pos hc, htake, hdrop,
    if_neg hother]

theorem next_digits {cs : Text} (hc : c.isDigit = true) (hcs : ∀ d ∈ cs, isNumberCont d = true)
    (hrest : ∀ d ∈ rest.head?, isNumberCont d = false) :
    next (c :: (cs ++ rest)) = some (.digits (c :: cs), rest) := by
  obtain ⟨htake, hdrop⟩ := span_append hcs hrest
  have hdollar : c ≠ '$' := by
    rintro rfl
    cases hc
  rw [next_cons (isIdentCont_of_isNumberCont (isNumberCont_of_isDigit hc)) hdollar,
    if_neg (Bool.eq_false_iff.mp (isIdentStart_of_isDigit hc)), if_pos hc, htake, hdrop]

theorem next_mark (hc : isMark c = true) (hline : c = '-' → rest.head? ≠ some '-')
    (hblock : c = '/' → rest.head? ≠ some '*') : next (c :: rest) = some (.mark c, rest) := by
  have hmarks : ∀ d ∈ "()[],.:+-*/<>=~!@#%^&|`?".toList, isSpace d = false ∧ d ≠ '\'' ∧ d ≠ '"'
      ∧ d ≠ '$' ∧ d ≠ ';' ∧ isIdentStart d = false ∧ d.isDigit = false :=
    List.all_iff_forall_prop.mp (by decide)
  obtain ⟨hspace, hsingle, hdouble, hdollar, hsemicolon, hident, hdigit⟩ :=
    hmarks c (List.contains_iff_mem.mp hc)
  rw [next, if_neg (Bool.eq_false_iff.mp hspace), if_neg hsingle, if_neg hdouble, if_neg hdollar,
    if_neg hsemicolon, if_neg fun h => hline h.1 h.2, if_neg fun h => hblock h.1 h.2,
    if_neg (Bool.eq_false_iff.mp hident), if_neg (Bool.eq_false_iff.mp hdigit), if_pos hc]

theorem next_dollar {tag : Text} (htag : IsTag tag)
    (hbody : readUntil (delimiter tag) (body ++ delimiter tag) = some (body, [])) :
    next ((Piece.dollar tag body).text ++ rest) = some (.dollar tag body, rest) := by
  have htext : (Piece.dollar tag body).text ++ rest
      = '$' :: (tag ++ '$' :: (body ++ (delimiter tag ++ rest))) := by
    simp [Piece.text, delimiter]
  obtain ⟨htake, hdrop⟩ := span_append (b := '$' :: (body ++ (delimiter tag ++ rest))) htag.2
    fun d hd => by
      cases hd
      decide
  rw [htext, next, if_neg (by decide), if_neg (by decide), if_neg (by decide), if_pos rfl,
    readDollar, htake, hdrop, if_pos ⟨htag, rfl⟩]
  exact congrArg (Option.map _) (readUntil_append hbody)

/-- **A piece is read where it stands**, if what follows does not belong to it. -/
theorem next_piece (hp : p.Valid) (hrest : p.Follows rest) :
    next (p.text ++ rest) = some (p, rest) := by
  cases p with
  | space c => exact if_pos hp
  | word t =>
    obtain ⟨c, cs, rfl, hc, hcs⟩ := hp
    exact next_word hc hcs hrest.1 hrest.2
  | digits t =>
    obtain ⟨c, cs, rfl, hc, hcs⟩ := hp
    exact next_digits hc hcs hrest
  | mark c => exact next_mark hp hrest.1 hrest.2
  | semicolon => rfl
  | single body =>
    have htext : (Piece.single body).text ++ rest
        = '\'' :: (doubled '\'' body ++ '\'' :: rest) := by
      simp [Piece.text]
    rw [htext, next, if_neg (by decide), if_pos rfl, readQuoted_doubled body hrest]
    rfl
  | double body =>
    have htext : (Piece.double body).text ++ rest = '"' :: (doubled '"' body ++ '"' :: rest) := by
      simp [Piece.text]
    rw [htext, next, if_neg (by decide), if_neg (by decide), if_pos rfl,
      readQuoted_doubled body hrest]
    exact if_neg hp
  | dollar tag body => exact next_dollar hp.1 hp.2
  | line body =>
    obtain ⟨htake, hdrop⟩ := span_append (p := fun d => !isLineBreak d)
      (fun c hc => by rw [hp c hc]; rfl) (fun c hc => by rw [hrest c hc]; rfl)
    have hnext : next ('-' :: '-' :: (body ++ rest)) = some (.line _, _) := rfl
    exact hnext.trans (congrArg some (congrArg₂ (Piece.line · , ·) htake hdrop))
  | block body =>
    have htext : (Piece.block body).text ++ rest
        = '/' :: '*' :: (body ++ ['*', '/'] ++ rest) := by
      simp [Piece.text]
    have hread : readBlock 0 (body ++ ['*', '/'] ++ rest) = some (body, [] ++ rest) :=
      readBlock_append hp
    rw [htext, next, if_neg (by decide), if_neg (by decide), if_neg (by decide),
      if_neg (by decide), if_neg (by decide), if_neg fun hline => absurd hline.1 (by decide),
      if_pos ⟨rfl, rfl⟩]
    exact congrArg (Option.map _) hread

theorem Piece.Valid.exists_cons (h : p.Valid) : ∃ c cs, p.text = c :: cs := by
  cases p with
  | word t =>
    obtain ⟨c, cs, rfl, -⟩ := h
    exact ⟨c, cs, rfl⟩
  | digits t =>
    obtain ⟨c, cs, rfl, -⟩ := h
    exact ⟨c, cs, rfl⟩
  | _ => exact ⟨_, _, rfl⟩

theorem textOf_cons (p : Piece) (ps : List Piece) : textOf (p :: ps) = p.text ++ textOf ps :=
  List.flatMap_cons

theorem textOf_append (ps qs : List Piece) : textOf (ps ++ qs) = textOf ps ++ textOf qs :=
  List.flatMap_append

theorem of_lexFuel {n : ℕ} {ps : List Piece} (h : lexFuel n t = some ps) :
    textOf ps = t ∧ Lexed ps := by
  induction n generalizing t ps with
  | zero =>
    cases t with
    | nil =>
      cases h
      exact ⟨rfl, trivial⟩
    | cons c cs => cases h
  | succ n ih =>
    cases t with
    | nil =>
      cases h
      exact ⟨rfl, trivial⟩
    | cons c cs =>
      obtain ⟨⟨p, rest⟩, hnext, hrest⟩ := Option.bind_eq_some_iff.mp h
      obtain ⟨qs, hqs, rfl⟩ := Option.map_eq_some_iff.mp hrest
      obtain ⟨htext, hvalid, hfollows⟩ := of_next hnext
      obtain ⟨rfl, hlexed⟩ := ih hqs
      exact ⟨(textOf_cons p qs).trans htext.symm, hvalid, hfollows, hlexed⟩

theorem lexFuel_textOf {n : ℕ} {ps : List Piece} (h : Lexed ps) (hn : (textOf ps).length ≤ n) :
    lexFuel n (textOf ps) = some ps := by
  induction ps generalizing n with
  | nil => cases n <;> rfl
  | cons p ps ih =>
    obtain ⟨hvalid, hfollows, hlexed⟩ := h
    obtain ⟨c, cs, hcons⟩ := hvalid.exists_cons
    have htext : textOf (p :: ps) = c :: (cs ++ textOf ps) := by
      rw [textOf_cons, hcons, List.cons_append]
    have hlength : (textOf (p :: ps)).length = cs.length + (textOf ps).length + 1 := by
      rw [htext, List.length_cons, List.length_append]
    obtain ⟨m, rfl⟩ : ∃ m, n = m + 1 := ⟨n - 1, by omega⟩
    rw [htext, lexFuel, ← htext, textOf_cons, next_piece hvalid hfollows, Option.bind_some,
      ih hlexed (by omega)]
    rfl

/-- **The pieces of a text** are those that make it up and are read as what they are. -/
theorem lex_eq_some_iff {ps : List Piece} : lex t = some ps ↔ textOf ps = t ∧ Lexed ps := by
  refine ⟨of_lexFuel, ?_⟩
  rintro ⟨rfl, h⟩
  exact lexFuel_textOf h (Nat.le_refl _)

end Reading

/-! ## Pieces without those that follow -/

section Prefix

variable {t t' w : Text} {c : Char} {p : Piece} {ps qs : List Piece}

theorem head?_of_isPrefix (h : t' <+: t) (hc : t'.head? = some c) : t.head? = some c := by
  obtain ⟨cs, rfl⟩ := List.head?_eq_some_iff.mp hc
  obtain ⟨ds, rfl⟩ := h
  rfl

theorem BeginsOtherQuotation.of_isPrefix (h : t' <+: t) (hw : BeginsOtherQuotation w t') :
    BeginsOtherQuotation w t := by
  have htwo : ∀ c d, t'.take 2 = [c, d] → t.take 2 = [c, d] := fun c d htake =>
    (List.prefix_iff_eq_take.mp ((List.prefix_iff_eq_take.mpr htake.symm).trans h)).symm
  exact hw.imp (fun hw => ⟨hw.1, head?_of_isPrefix h hw.2⟩)
    fun hw => ⟨hw.1, hw.2.imp (htwo _ _) (htwo _ _)⟩

/-- What does not belong to a piece is no part of it if the text ends sooner. -/
theorem Piece.Follows.of_isPrefix (hp : p.Follows t) (h : t' <+: t) : p.Follows t' := by
  cases p with
  | word w =>
    exact ⟨fun c hc => hp.1 c (head?_of_isPrefix h hc), fun hother => hp.2 (hother.of_isPrefix h)⟩
  | mark c =>
    exact ⟨fun hc hhead => hp.1 hc (head?_of_isPrefix h hhead),
      fun hc hhead => hp.2 hc (head?_of_isPrefix h hhead)⟩
  | digits w => exact fun c hc => hp c (head?_of_isPrefix h hc)
  | line body => exact fun c hc => hp c (head?_of_isPrefix h hc)
  | single body => exact fun hhead => hp (head?_of_isPrefix h hhead)
  | double body => exact fun hhead => hp (head?_of_isPrefix h hhead)
  | _ => exact trivial

theorem Lexed.forall_valid (h : Lexed ps) : ∀ p ∈ ps, p.Valid := by
  induction ps with
  | nil => exact fun p hp => absurd hp List.not_mem_nil
  | cons p ps ih => exact List.forall_mem_cons.mpr ⟨h.1, ih h.2.2⟩

theorem Lexed.right (h : Lexed (ps ++ qs)) : Lexed qs := by
  induction ps with
  | nil => exact h
  | cons p ps ih => exact ih h.2.2

/-- Pieces are read as what they are without those that follow. -/
theorem Lexed.left (h : Lexed (ps ++ qs)) : Lexed ps := by
  induction ps with
  | nil => exact trivial
  | cons p ps ih =>
    have hprefix : textOf ps <+: textOf (ps ++ qs) := ⟨textOf qs, (textOf_append ps qs).symm⟩
    exact ⟨h.1, h.2.1.of_isPrefix hprefix, ih h.2.2⟩

end Prefix

/-! ## Statements -/

/-- A piece is neither white space nor a comment. -/
def Piece.isSignificant : Piece → Bool
  | .space _ => false
  | .line _ => false
  | .block _ => false
  | _ => true

def Piece.isBlock : Piece → Bool
  | .block _ => true
  | _ => false

def Piece.isLine : Piece → Bool
  | .line _ => true
  | _ => false

theorem isSignificant_of_isLine {p : Piece} (h : p.isLine = true) : p.isSignificant = false := by
  cases p with
  | line body => rfl
  | _ => cases h

theorem isLine_of_isBlock {p : Piece} (h : p.isBlock = true) : p.isLine = false := by
  cases p with
  | block body => rfl
  | _ => cases h

theorem ne_space_of_isBlock {p : Piece} {c : Char} (h : p.isBlock = true) : p ≠ .space c := by
  rintro rfl
  cases h

/-- **The statements** of pieces: what is between the semicolons. -/
def statements (ps : List Piece) : List (List Piece) := ps.splitOn .semicolon

section Statements

variable {p : Piece} {ps s : List Piece} {ss : List (List Piece)}

theorem statements_semicolon (ps : List Piece) :
    statements (.semicolon :: ps) = [] :: statements ps :=
  (List.splitOnP_cons_eq_if_modifyHead (p := (· == Piece.semicolon)) _ ps).trans (if_pos BEq.rfl)

theorem statements_cons (hp : p ≠ .semicolon) (h : statements ps = s :: ss) :
    statements (p :: ps) = (p :: s) :: ss := by
  have hsplit := (List.splitOnP_cons_eq_if_modifyHead (p := (· == Piece.semicolon)) p ps).trans
    (if_neg (by simpa using hp))
  exact hsplit.trans (congrArg (List.modifyHead (List.cons p)) h)

theorem exists_statements (ps : List Piece) : ∃ s ss, statements ps = s :: ss :=
  List.exists_cons_of_ne_nil (List.splitOnP_ne_nil _ ps)

/-- What is shown of pieces is shown of their statements, from the last piece to the first. -/
theorem statements_induction {motive : List Piece → List (List Piece) → Prop}
    (hnil : motive [] [[]])
    (hsemicolon : ∀ ps ss, motive ps ss → motive (.semicolon :: ps) ([] :: ss))
    (hcons : ∀ p ps s ss, p ≠ .semicolon → motive ps (s :: ss) → motive (p :: ps) ((p :: s) :: ss))
    (ps : List Piece) : motive ps (statements ps) := by
  induction ps with
  | nil => exact hnil
  | cons p ps ih =>
    by_cases hp : p = .semicolon
    · subst hp
      rw [statements_semicolon]
      exact hsemicolon ps _ ih
    · obtain ⟨s, ss, hs⟩ := exists_statements ps
      rw [statements_cons hp hs]
      exact hcons p ps s ss hp (hs ▸ ih)

theorem isInfix_of_mem_statements (h : s ∈ statements ps) : s <:+: ps := by
  have hall : (∀ s ∈ (statements ps).head?, s <+: ps) ∧ ∀ s ∈ statements ps, s <:+: ps := by
    refine statements_induction (motive := fun ps ss => (∀ s ∈ ss.head?, s <+: ps)
      ∧ ∀ s ∈ ss, s <:+: ps) ?_ (fun ps ss ih => ?_) (fun p ps s ss _ ih => ?_) ps
    · exact ⟨fun s hs => by cases hs; exact List.prefix_rfl, by simp⟩
    · refine ⟨fun s hs => by cases hs; exact List.nil_prefix, fun s hs => ?_⟩
      obtain rfl | hs := List.mem_cons.mp hs
      · exact List.nil_infix
      · exact (ih.2 s hs).trans (List.suffix_cons _ ps).isInfix
    · have hhead : p :: s <+: p :: ps := List.cons_prefix_cons.mpr ⟨rfl, ih.1 s rfl⟩
      refine ⟨fun s' hs => by cases hs; exact hhead, fun s' hs => ?_⟩
      obtain rfl | hs := List.mem_cons.mp hs
      · exact hhead.isInfix
      · exact (ih.2 s' (List.mem_cons_of_mem s hs)).trans (List.suffix_cons p ps).isInfix
  exact hall.2 s h

/-- The statements of pieces are read as what they are, each on its own. -/
theorem Lexed.of_mem_statements (h : Lexed ps) (hs : s ∈ statements ps) : Lexed s := by
  obtain ⟨a, b, rfl⟩ := isInfix_of_mem_statements hs
  exact h.left.right

end Statements

/-! ## Comments -/

/-- Pieces without the block comments. -/
def withoutBlocks (ps : List Piece) : List Piece := ps.filter fun p => !p.isBlock

/-- Pieces with a line break in place of each line comment. What follows a comment up to the
next line feed is in it, if there has been a comment already. -/
def withoutLines : Bool → List Piece → List Piece
  | _, [] => []
  | true, p :: ps => if p = .space '\n' then withoutLines false ps else withoutLines true ps
  | false, p :: ps =>
    if p.isLine then .space '\n' :: withoutLines true ps else p :: withoutLines false ps

/-- There is nothing but white space and comments, with no line feed in them, between a line
comment and the next line feed. -/
def QuietAfterLines : Bool → List Piece → Prop
  | _, [] => True
  | true, p :: ps =>
    if p = .space '\n' then QuietAfterLines false ps
    else p.isSignificant = false ∧ '\n' ∉ p.text ∧ QuietAfterLines true ps
  | false, p :: ps => QuietAfterLines p.isLine ps

section Comments

variable {inLine : Bool} {p : Piece} {ps s : List Piece} {ss : List (List Piece)}

theorem withoutBlocks_cons (h : p.isBlock = false) :
    withoutBlocks (p :: ps) = p :: withoutBlocks ps :=
  List.filter_cons_of_pos (by rw [h]; rfl)

theorem withoutBlocks_cons_of_isBlock (h : p.isBlock = true) :
    withoutBlocks (p :: ps) = withoutBlocks ps :=
  List.filter_cons_of_neg (by rw [h]; exact Bool.false_ne_true)

theorem statements_withoutBlocks (ps : List Piece) :
    statements (withoutBlocks ps) = (statements ps).map withoutBlocks := by
  refine statements_induction (motive := fun ps ss => statements (withoutBlocks ps)
    = ss.map withoutBlocks) rfl (fun ps ss ih => ?_) (fun p ps s ss hp ih => ?_) ps
  · exact (statements_semicolon _).trans (congrArg (List.cons []) ih)
  · unfold withoutBlocks at ih ⊢
    rw [List.filter_cons, List.map_cons, List.filter_cons]
    split
    · exact statements_cons hp ih
    · exact ih

theorem QuietAfterLines.withoutBlocks (h : QuietAfterLines inLine ps) :
    QuietAfterLines inLine (withoutBlocks ps) := by
  induction ps generalizing inLine with
  | nil => exact trivial
  | cons p ps ih =>
    cases hblock : p.isBlock with
    | true =>
      rw [withoutBlocks_cons_of_isBlock hblock]
      cases inLine with
      | true =>
        rw [QuietAfterLines, if_neg (ne_space_of_isBlock hblock)] at h
        exact ih h.2.2
      | false =>
        rw [QuietAfterLines, isLine_of_isBlock hblock] at h
        exact ih h
    | false =>
      rw [withoutBlocks_cons hblock]
      cases inLine with
      | true =>
        rw [QuietAfterLines] at h ⊢
        split at h
        · next hp =>
          rw [if_pos hp]
          exact ih h
        · next hp =>
          rw [if_neg hp]
          exact ⟨h.1, h.2.1, ih h.2.2⟩
      | false => exact ih h

/-- It does not matter which comments are taken out first. -/
theorem withoutLines_withoutBlocks (inLine : Bool) (ps : List Piece) :
    withoutLines inLine (withoutBlocks ps) = withoutBlocks (withoutLines inLine ps) := by
  fun_induction withoutLines inLine ps with
  | case1 inLine => cases inLine <;> rfl
  | case2 ps ih =>
    rw [withoutBlocks_cons rfl, withoutLines, if_pos rfl]
    exact ih
  | case3 p ps hp ih =>
    cases hblock : p.isBlock with
    | true => rw [withoutBlocks_cons_of_isBlock hblock, ih]
    | false => rw [withoutBlocks_cons hblock, withoutLines, if_neg hp, ih]
  | case4 p ps hp ih =>
    have hblock : p.isBlock = false := Bool.eq_false_iff.mpr fun hblock => by
      rw [isLine_of_isBlock hblock] at hp
      cases hp
    rw [withoutBlocks_cons hblock, withoutBlocks_cons rfl, withoutLines, if_pos hp, ih]
  | case5 p ps hp ih =>
    cases hblock : p.isBlock with
    | true => rw [withoutBlocks_cons_of_isBlock hblock, withoutBlocks_cons_of_isBlock hblock, ih]
    | false =>
      rw [withoutBlocks_cons hblock, withoutBlocks_cons hblock, withoutLines, if_neg hp, ih]

/-- No statement ends in a line that a comment has begun. -/
theorem QuietAfterLines.not_semicolon (h : QuietAfterLines inLine (.semicolon :: ps)) :
    inLine = false ∧ QuietAfterLines false ps := by
  cases inLine with
  | true =>
    rw [QuietAfterLines, if_neg (by simp)] at h
    cases h.1
  | false => exact ⟨rfl, h⟩

theorem QuietAfterLines.cons_statements (h : QuietAfterLines inLine ps)
    (hs : statements ps = s :: ss) :
    QuietAfterLines inLine s ∧ ∀ s' ∈ ss, QuietAfterLines false s' := by
  induction ps generalizing inLine s ss with
  | nil =>
    cases hs
    exact ⟨trivial, by simp⟩
  | cons p ps ih =>
    obtain ⟨s', ss', hs'⟩ := exists_statements ps
    by_cases hp : p = .semicolon
    · subst hp
      obtain ⟨rfl, h⟩ := h.not_semicolon
      rw [statements_semicolon, hs'] at hs
      cases hs
      exact ⟨trivial, List.forall_mem_cons.mpr (ih h hs')⟩
    · rw [statements_cons hp hs'] at hs
      cases hs
      cases inLine with
      | true =>
        rw [QuietAfterLines] at h ⊢
        split at h
        · next hline =>
          rw [if_pos hline]
          exact ih h hs'
        · next hline =>
          rw [if_neg hline]
          exact ⟨⟨h.1, h.2.1, (ih h.2.2 hs').1⟩, (ih h.2.2 hs').2⟩
      | false =>
        rw [QuietAfterLines] at h ⊢
        exact ih h hs'

theorem QuietAfterLines.of_mem_statements (h : QuietAfterLines false ps) (hs : s ∈ statements ps) :
    QuietAfterLines false s := by
  obtain ⟨s', ss, hcons⟩ := exists_statements ps
  exact List.forall_mem_cons.mpr (h.cons_statements hcons) s (hcons ▸ hs)

/-- Line comments are cut out of each statement. -/
theorem statements_withoutLines (h : QuietAfterLines inLine ps) (hs : statements ps = s :: ss) :
    statements (withoutLines inLine ps)
      = withoutLines inLine s :: ss.map (withoutLines false) := by
  induction ps generalizing inLine s ss with
  | nil =>
    cases hs
    cases inLine <;> rfl
  | cons p ps ih =>
    obtain ⟨s', ss', hs'⟩ := exists_statements ps
    by_cases hp : p = .semicolon
    · subst hp
      obtain ⟨rfl, h⟩ := h.not_semicolon
      rw [statements_semicolon, hs'] at hs
      cases hs
      exact (statements_semicolon _).trans (congrArg (List.cons []) (ih h hs'))
    · rw [statements_cons hp hs'] at hs
      cases hs
      cases inLine with
      | true =>
        rw [QuietAfterLines] at h
        rw [withoutLines, withoutLines]
        split at h
        · next hline =>
          rw [if_pos hline, if_pos hline]
          exact ih h hs'
        · next hline =>
          rw [if_neg hline, if_neg hline]
          exact ih h.2.2 hs'
      | false =>
        rw [withoutLines, withoutLines]
        rw [QuietAfterLines] at h
        cases hline : p.isLine with
        | true =>
          rw [hline] at h
          exact statements_cons (by simp) (ih h hs')
        | false =>
          rw [hline] at h
          exact statements_cons hp (ih h hs')

theorem of_mem_withoutLines (h : p ∈ withoutLines inLine ps) :
    p.isLine = false ∧ (p = .space '\n' ∨ p ∈ ps) := by
  fun_induction withoutLines inLine ps with
  | case1 => cases h
  | case2 ps ih => exact (ih h).imp_right (Or.imp_right (List.mem_cons_of_mem _))
  | case3 q ps _ ih => exact (ih h).imp_right (Or.imp_right (List.mem_cons_of_mem q))
  | case4 q ps _ ih =>
    obtain rfl | h := List.mem_cons.mp h
    · exact ⟨rfl, .inl rfl⟩
    · exact (ih h).imp_right (Or.imp_right (List.mem_cons_of_mem q))
  | case5 q ps hq ih =>
    obtain rfl | h := List.mem_cons.mp h
    · exact ⟨Bool.eq_false_iff.mpr hq, .inr List.mem_cons_self⟩
    · exact (ih h).imp_right (Or.imp_right (List.mem_cons_of_mem q))

/-- What is no comment stays as it is. -/
theorem filter_withoutLines (h : QuietAfterLines inLine ps) :
    (withoutLines inLine ps).filter Piece.isSignificant = ps.filter Piece.isSignificant := by
  fun_induction withoutLines inLine ps with
  | case1 => rfl
  | case2 ps ih =>
    rw [QuietAfterLines, if_pos rfl] at h
    exact ih h
  | case3 q ps hq ih =>
    rw [QuietAfterLines, if_neg hq] at h
    rw [List.filter_cons_of_neg (by simp [h.1])]
    exact ih h.2.2
  | case4 q ps hq ih =>
    rw [QuietAfterLines, hq] at h
    rw [List.filter_cons_of_neg (Bool.eq_false_iff.mp (isSignificant_of_isLine hq)),
      List.filter_cons_of_neg Bool.false_ne_true]
    exact ih h
  | case5 q ps hq ih =>
    rw [QuietAfterLines, Bool.eq_false_iff.mpr hq] at h
    rw [List.filter_cons, List.filter_cons, ih h]

theorem filter_withoutBlocks (ps : List Piece) :
    (withoutBlocks ps).filter Piece.isSignificant = ps.filter Piece.isSignificant := by
  refine List.filter_filter.trans (List.filter_congr fun p _ => ?_)
  cases p <;> rfl

end Comments

/-! ## Tokens of pieces without comments -/

section Tokens

variable {inLine lineBreak lineBreak' : Bool} {c : Char} {p : Piece} {ps qs : List Piece}
  {last : Last}

theorem pass_tokens : (last.pass plain lineBreak).1 ++ (last.pass plain lineBreak).2.tokens plain
    = last.tokens plain := by
  cases last with
  | string => rfl
  | _ => exact List.append_nil _

/-- White space after white space. -/
theorem pass_pass : (last.pass plain lineBreak).2.pass plain lineBreak'
    = ([], (last.pass plain (lineBreak || lineBreak')).2) := by
  cases last with
  | string body b => exact congrArg (fun b => ([], Last.string body b)) (Bool.or_assoc ..)
  | _ => rfl

theorem pass_fst : (last.pass plain lineBreak).1 = (last.pass plain lineBreak').1 := by
  cases last <;> rfl

/-- White space and line comments are passed. -/
theorem advance_blank (hp : p.isSignificant = false) (hblock : p.isBlock = false) :
    ∃ b, ∀ last, advance plain last p = last.pass plain b := by
  cases p with
  | space c => exact ⟨isLineBreak c, fun _ => rfl⟩
  | line body => exact ⟨false, fun _ => rfl⟩
  | block body => cases hblock
  | _ => cases hp

/-- What is in a line that a comment has begun does not matter. -/
theorem tokensFrom_withoutLines_and (hblocks : ∀ p ∈ ps, p.isBlock = false) :
    (QuietAfterLines false ps → ∀ last,
      tokensFrom plain last (withoutLines false ps) = tokensFrom plain last ps)
    ∧ (QuietAfterLines true ps → ∀ (last : Last) b,
      tokensFrom plain (last.pass plain true).2 (withoutLines true ps)
        = tokensFrom plain (last.pass plain b).2 ps) := by
  induction ps with
  | nil => exact ⟨fun _ _ => rfl, fun _ last _ => by cases last <;> rfl⟩
  | cons p ps ih =>
    obtain ⟨hblock, hblocks⟩ := List.forall_mem_cons.mp hblocks
    obtain ⟨ihcode, ihline⟩ := ih hblocks
    refine ⟨fun h last => ?_, fun h last b => ?_⟩
    · rw [QuietAfterLines] at h
      rw [withoutLines]
      split
      · next hline =>
        obtain ⟨b, hadvance⟩ := advance_blank plain (isSignificant_of_isLine hline) hblock
        rw [tokensFrom, tokensFrom, hadvance]
        rw [hline] at h
        exact congrArg₂ (· ++ ·) (pass_fst plain) (ihline h last b)
      · next hline =>
        rw [Bool.eq_false_iff.mpr hline] at h
        exact congrArg (_ ++ ·) (ihcode h _)
    · rw [QuietAfterLines] at h
      rw [withoutLines]
      split at h
      · next hline =>
        subst hline
        have hadvance : advance plain (last.pass plain b).2 (.space '\n')
            = ([], (last.pass plain (b || true)).2) := pass_pass plain
        rw [if_pos rfl, tokensFrom, hadvance, Bool.or_true, List.nil_append]
        exact ihcode h _
      · next hline =>
        obtain ⟨b', hadvance⟩ := advance_blank plain h.1 hblock
        rw [if_neg hline, tokensFrom, hadvance, pass_pass, List.nil_append]
        exact ihline h.2.2 last _

/-- **Line comments are no tokens.** -/
theorem tokens_withoutLines (hblocks : ∀ p ∈ ps, p.isBlock = false)
    (h : QuietAfterLines false ps) : tokens plain (withoutLines false ps) = tokens plain ps :=
  (tokensFrom_withoutLines_and plain hblocks).1 h .none

/-- White space and comments end what was read last, and are no tokens. -/
theorem advance_tokens (hp : p.isSignificant = false) :
    (advance plain last p).1 ++ (advance plain last p).2.tokens plain = last.tokens plain := by
  cases p with
  | space c => exact pass_tokens plain
  | line body => exact pass_tokens plain
  | block body => exact List.append_nil _
  | _ => cases hp

theorem tokensFrom_eq (hqs : ∀ q ∈ qs, q.isSignificant = false) :
    tokensFrom plain last qs = last.tokens plain := by
  induction qs generalizing last with
  | nil => rfl
  | cons q qs ih =>
    obtain ⟨hq, hqs⟩ := List.forall_mem_cons.mp hqs
    rw [tokensFrom, ih hqs, advance_tokens plain hq]

/-- White space and comments behind pieces are no tokens. -/
theorem tokensFrom_append (hqs : ∀ q ∈ qs, q.isSignificant = false) :
    tokensFrom plain last (ps ++ qs) = tokensFrom plain last ps := by
  induction ps generalizing last with
  | nil => exact tokensFrom_eq plain hqs
  | cons p ps ih => exact congrArg (_ ++ ·) ih

/-- White space and comments in front of pieces are no tokens. -/
theorem tokens_append (hqs : ∀ q ∈ qs, q.isSignificant = false) :
    tokens plain (qs ++ ps) = tokens plain ps := by
  induction qs with
  | nil => rfl
  | cons q qs ih =>
    obtain ⟨hq, hqs⟩ := List.forall_mem_cons.mp hqs
    have hadvance : advance plain .none q = ([], .none) := by
      cases q with
      | space c => rfl
      | line body => rfl
      | block body => rfl
      | _ => cases hq
    refine Eq.trans ?_ (ih hqs)
    unfold tokens
    rw [List.cons_append, tokensFrom, hadvance]
    rfl

end Tokens

end SqlLexing
