import IntuitionCore.Entities.Actions
import IntuitionCore.Library.SqlLexing
import Mathlib.Data.List.DropRight

/-!
# The statements of a migration

A migration is a text of SQL. It is read twice, character by character: a first loop takes
the comments out, and a second one cuts what is left at its semicolons. Both leave quotations
alone.

The loops do not read all that PostgreSQL reads. They know no comments in comments, no line
that ends in a carriage return alone, no dollars in identifiers, and no tags beyond ASCII. A
line comment leaves a line feed behind, but a block comment leaves nothing, so what is on both
sides of it becomes one. And `trim` takes spaces that are letters in SQL. Where none of this
matters, a migration is cut into its statements, and these keep their tokens.
-/

namespace TimescaleParser

open SqlLexing

/-! ## The loops -/

/-- What a character is in. -/
inductive Mode where
  | code
  | singleQuote
  | doubleQuote
  | dollarQuote (tag : Text)
  deriving DecidableEq, Repr

/-- `[a-zA-Z0-9_]` -/
def isTagChar (c : Char) : Bool := c.isAlphanum || c == '_'

/-- What `/^\$[a-zA-Z0-9_]*\$/` matches, behind a first dollar. -/
def dollarTagMatch (cs : Text) : Option Text :=
  if (cs.dropWhile isTagChar).head? = some '$' then some (delimiter (cs.takeWhile isTagChar))
  else none

/-- What is added to the text in one turn of a loop, what the next character is in, and how
many characters are skipped before it. -/
structure Turn where
  added : Text
  mode : Mode
  skip : ℕ

/-- What both loops do with a character of a quotation. -/
def quotation (mode : Mode) (c : Char) (cs : Text) : Option Turn :=
  match mode with
  | .dollarQuote tag =>
    if tag.isPrefixOf (c :: cs) then some ⟨c :: tag.drop 1, .code, tag.length - 1⟩
    else some ⟨[c], .dollarQuote tag, 0⟩
  | .singleQuote =>
    if c = '\'' ∧ cs.head? = some '\'' then some ⟨[c, '\''], .singleQuote, 1⟩
    else if c = '\'' then some ⟨[c], .code, 0⟩
    else some ⟨[c], .singleQuote, 0⟩
  | .doubleQuote => if c = '"' then some ⟨[c], .code, 0⟩ else some ⟨[c], .doubleQuote, 0⟩
  | .code =>
    if c = '\'' then some ⟨[c], .singleQuote, 0⟩
    else if c = '"' then some ⟨[c], .doubleQuote, 0⟩
    else if c = '$' then
      (dollarTagMatch cs).map fun tag => ⟨tag, .dollarQuote tag, tag.length - 1⟩
    else none

/-- How many characters there are up to the next line feed, with it. -/
def lineLength (cs : Text) : ℕ := (cs.takeWhile (· != '\n')).length + 1

/-- How many characters there are up to the end of a block comment, with it. -/
def blockLength : Text → ℕ
  | [] => 0
  | c :: cs => if c = '*' ∧ cs.head? = some '/' then 2 else blockLength cs + 1

/-- The loop of `stripSqlComments`, after some characters that are skipped. -/
def stripFrom : Mode → ℕ → Text → Text
  | _, _, [] => []
  | mode, skip + 1, _ :: cs => stripFrom mode skip cs
  | mode, 0, c :: cs =>
    match quotation mode c cs with
    | some turn => turn.added ++ stripFrom turn.mode turn.skip cs
    | none =>
      if c = '-' ∧ cs.head? = some '-' then '\n' :: stripFrom .code (lineLength cs) cs
      else if c = '/' ∧ cs.head? = some '*' then
        stripFrom .code (1 + blockLength (cs.drop 1)) cs
      else c :: stripFrom .code 0 cs

def stripSqlComments (sql : Text) : Text := stripFrom .code 0 sql

/-- A statement, if there is anything in it. -/
def pushed (current : Text) : List Text :=
  let trimmed := jsTrim (String.ofList current)
  if trimmed = [] then [] else [trimmed]

/-- The loop of `splitStatements`, in which a statement has been begun. -/
def splitFrom : Mode → ℕ → Text → Text → List Text
  | _, _, current, [] => pushed current
  | mode, skip + 1, current, _ :: cs => splitFrom mode skip current cs
  | mode, 0, current, c :: cs =>
    match quotation mode c cs with
    | some turn => splitFrom turn.mode turn.skip (current ++ turn.added) cs
    | none =>
      if c = ';' then pushed current ++ splitFrom .code 0 [] cs
      else splitFrom .code 0 (current ++ [c]) cs

def splitStatements (sql : Text) : List Text := splitFrom .code 0 [] (stripSqlComments sql)

/-! ## What the loops leave as it is -/

/-- Both loops keep a text, and are outside of quotations behind it. -/
inductive Kept : Mode → Text → Text → Prop where
  | nil {rest} : Kept .code [] rest
  | quotation {mode c cs turn text rest} (hturn : quotation mode c cs = some turn)
      (htext : c :: cs = turn.added ++ (text ++ rest)) (hskip : cs.drop turn.skip = text ++ rest)
      (h : Kept turn.mode text rest) : Kept mode (turn.added ++ text) rest
  | code {c text rest} (hturn : TimescaleParser.quotation .code c (text ++ rest) = none)
      (hline : c = '-' → (text ++ rest).head? ≠ some '-')
      (hblock : c = '/' → (text ++ rest).head? ≠ some '*') (hcut : c ≠ ';')
      (h : Kept .code text rest) : Kept .code (c :: text) rest

section Kept

variable {mode : Mode} {text rest current body w : Text} {c : Char} {p : Piece}

theorem stripFrom_skip (n : ℕ) (cs : Text) :
    stripFrom mode n cs = stripFrom mode 0 (cs.drop n) := by
  induction n generalizing cs with
  | zero => rfl
  | succ n ih =>
    cases cs with
    | nil => rfl
    | cons c cs => exact ih cs

theorem splitFrom_skip (n : ℕ) (cs : Text) :
    splitFrom mode n current cs = splitFrom mode 0 current (cs.drop n) := by
  induction n generalizing cs with
  | zero => rfl
  | succ n ih =>
    cases cs with
    | nil => rfl
    | cons c cs => exact ih cs

theorem Kept.stripFrom (h : Kept mode text rest) :
    stripFrom mode 0 (text ++ rest) = text ++ stripFrom .code 0 rest := by
  induction h with
  | nil => rfl
  | quotation hturn htext hskip _ ih =>
    rw [List.append_assoc, ← htext, TimescaleParser.stripFrom, hturn]
    dsimp only
    rw [stripFrom_skip, hskip, ih, List.append_assoc]
  | code hturn hline hblock _ _ ih =>
    rw [List.cons_append, TimescaleParser.stripFrom, hturn]
    dsimp only
    rw [if_neg fun h => hline h.1 h.2, if_neg fun h => hblock h.1 h.2, ih]
    rfl

theorem Kept.splitFrom (h : Kept mode text rest) :
    splitFrom mode 0 current (text ++ rest) = splitFrom .code 0 (current ++ text) rest := by
  induction h generalizing current with
  | nil => rw [List.nil_append, List.append_nil]
  | quotation hturn htext hskip _ ih =>
    rw [List.append_assoc, ← htext, TimescaleParser.splitFrom, hturn]
    dsimp only
    rw [splitFrom_skip, hskip, ih, List.append_assoc]
  | code hturn _ _ hcut _ ih =>
    rw [List.cons_append, TimescaleParser.splitFrom, hturn]
    dsimp only
    rw [if_neg hcut, ih, List.append_assoc]
    rfl

/-! ### Quotations -/

theorem kept_doubled_single (body : Text) (h : rest.head? ≠ some '\'') :
    Kept .singleQuote (doubled '\'' body ++ ['\'']) rest := by
  induction body with
  | nil =>
    have hturn : quotation .singleQuote '\'' rest = some ⟨['\''], .code, 0⟩ :=
      (if_neg fun hquote => h hquote.2).trans (if_pos rfl)
    exact .quotation hturn rfl rfl .nil
  | cons c body ih =>
    by_cases hc : c = '\''
    · subst hc
      rw [doubled_cons_self]
      have hturn : ∀ cs, quotation .singleQuote '\'' ('\'' :: cs)
          = some ⟨['\'', '\''], .singleQuote, 1⟩ := fun _ => rfl
      exact .quotation (hturn _) rfl rfl ih
    · have hturn : ∀ cs, quotation .singleQuote c cs = some ⟨[c], .singleQuote, 0⟩ :=
        fun cs => (if_neg fun hquote => hc hquote.1).trans (if_neg hc)
      rw [doubled_cons hc]
      exact .quotation (hturn _) rfl rfl ih

/-- A quote that is doubled ends a quotation, and begins another. -/
theorem kept_doubled_double (body : Text) :
    Kept .doubleQuote (doubled '"' body ++ ['"']) rest := by
  have hclose : ∀ cs, quotation .doubleQuote '"' cs = some ⟨['"'], .code, 0⟩ := fun _ => rfl
  have hopen : ∀ cs, quotation .code '"' cs = some ⟨['"'], .doubleQuote, 0⟩ := fun _ => rfl
  induction body with
  | nil => exact .quotation (hclose rest) rfl rfl .nil
  | cons c body ih =>
    by_cases hc : c = '"'
    · subst hc
      rw [doubled_cons_self]
      exact .quotation (hclose _) rfl rfl (.quotation (hopen _) rfl rfl ih)
    · have hturn : ∀ cs, quotation .doubleQuote c cs = some ⟨[c], .doubleQuote, 0⟩ :=
        fun cs => if_neg hc
      rw [doubled_cons hc]
      exact .quotation (hturn _) rfl rfl ih

theorem kept_dollarQuote (hw : w ≠ []) (h : readUntil w (body ++ w) = some (body, [])) :
    Kept (.dollarQuote w) (body ++ w) rest := by
  induction body with
  | nil =>
    obtain ⟨d, ds, rfl⟩ := List.exists_cons_of_ne_nil hw
    have hprefix : (d :: ds).isPrefixOf (d :: (ds ++ rest)) = true :=
      List.isPrefixOf_iff_prefix.mpr (List.prefix_append (d :: ds) rest)
    have hturn : quotation (.dollarQuote (d :: ds)) d (ds ++ rest)
        = some ⟨d :: ds, .code, ds.length⟩ := if_pos hprefix
    have hkept : Kept (.dollarQuote (d :: ds)) ((d :: ds) ++ []) rest :=
      .quotation hturn rfl List.drop_left .nil
    rwa [List.append_nil] at hkept
  | cons c body ih =>
    obtain ⟨hnot, h⟩ := of_readUntil_cons h
    have hturn : quotation (.dollarQuote w) c (body ++ w ++ rest)
        = some ⟨[c], .dollarQuote w, 0⟩ := by
      rw [List.append_assoc]
      exact if_neg (Bool.eq_false_iff.mp (hnot rest))
    exact .quotation hturn rfl rfl (ih h)

theorem dollarTagMatch_append {tag : Text} (h : ∀ c ∈ tag, isTagChar c = true) :
    dollarTagMatch (tag ++ '$' :: rest) = some (delimiter tag) := by
  obtain ⟨htake, hdrop⟩ := span_append (b := '$' :: rest) h fun c hc => by
    cases hc
    decide
  unfold dollarTagMatch
  rw [htake, hdrop]
  exact if_pos rfl

theorem kept_dollar {tag : Text} (htag : ∀ c ∈ tag, isTagChar c = true)
    (h : readUntil (delimiter tag) (body ++ delimiter tag) = some (body, [])) :
    Kept .code (Piece.dollar tag body).text rest := by
  have hturn : quotation .code '$' (tag ++ '$' :: (body ++ delimiter tag ++ rest))
      = some ⟨delimiter tag, .dollarQuote (delimiter tag), (delimiter tag).length - 1⟩ := by
    unfold quotation
    dsimp only
    rw [if_neg (by decide), if_neg (by decide), if_pos rfl, dollarTagMatch_append htag]
    rfl
  refine .quotation hturn (by simp [delimiter]) ?_ (kept_dollarQuote (List.cons_ne_nil _ _) h)
  show ((tag ++ '$' :: (body ++ delimiter tag ++ rest)).drop (tag ++ ['$']).length) = _
  rw [List.append_cons tag '$' (body ++ delimiter tag ++ rest), List.drop_left]

/-! ### Characters outside of quotations -/

theorem quotation_code (hsingle : c ≠ '\'') (hdouble : c ≠ '"')
    (hdollar : c = '$' → dollarTagMatch text = none) : quotation .code c text = none := by
  unfold quotation
  dsimp only
  rw [if_neg hsingle, if_neg hdouble]
  split
  · next hc => rw [hdollar hc, Option.map_none]
  · rfl

/-- Letters, digits and dollars begin nothing, unless there is a tag. -/
theorem kept_isIdentCont (htext : ∀ c ∈ text, isIdentCont c = true)
    (htags : ∀ a b, text = a ++ '$' :: b → dollarTagMatch (b ++ rest) = none) :
    Kept .code text rest := by
  induction text with
  | nil => exact .nil
  | cons c text ih =>
    obtain ⟨hc, htext⟩ := List.forall_mem_cons.mp htext
    have hne : ∀ d, isIdentCont d = false → c ≠ d := fun d hd hcd => by
      rw [hcd, hd] at hc
      exact Bool.false_ne_true hc
    have hkept := ih htext fun a b hab => htags (c :: a) b (congrArg (List.cons c) hab)
    refine .code ?_ (fun hline => absurd hline (hne _ (by decide)))
      (fun hblock => absurd hblock (hne _ (by decide))) (hne _ (by decide)) hkept
    refine quotation_code (hne _ (by decide)) (hne _ (by decide)) fun hdollar => ?_
    exact htags [] text (congrArg (· :: text) hdollar)

theorem isIdentCont_of_isTagChar (h : isTagChar c = true) : isIdentCont c = true := by
  simp only [isTagChar, Char.isAlphanum, Bool.or_eq_true] at h
  simp only [isIdentCont, isNumberCont, isIdentStart, Bool.or_eq_true]
  tauto

/-- What begins no tag in a word begins none behind it. -/
theorem dollarTagMatch_eq_none (h : dollarTagMatch text = none)
    (hrest : ∀ c ∈ rest.head?, isIdentCont c = false) : dollarTagMatch (text ++ rest) = none := by
  have hstart : ∀ {cs}, dollarTagMatch cs = none ↔ (cs.dropWhile isTagChar).head? ≠ some '$' := by
    intro cs
    unfold dollarTagMatch
    split <;> simp [*]
  rw [hstart] at h ⊢
  rw [List.dropWhile_append]
  split
  · intro hdollar
    cases rest with
    | nil => cases hdollar
    | cons c cs =>
      have hc : isIdentCont c = false := hrest c rfl
      have htag : ¬ isTagChar c = true := fun htag => by
        rw [isIdentCont_of_isTagChar htag] at hc
        cases hc
      rw [List.dropWhile_cons_of_neg htag] at hdollar
      cases hdollar
      cases hc
  · next hne =>
    obtain ⟨d, ds, hds⟩ : ∃ d ds, text.dropWhile isTagChar = d :: ds :=
      List.exists_cons_of_ne_nil fun hnil => hne (List.isEmpty_iff.mpr hnil)
    rw [hds] at h ⊢
    exact h

/-! ### Pieces -/

/-- The loops read a piece as what it is. -/
def IsUnderstood : Piece → Prop
  | .word t => ∀ a b, t = a ++ '$' :: b → dollarTagMatch b = none
  | .dollar tag _ => ∀ c ∈ tag, isTagChar c = true
  | .block body => ¬ ['/', '*'] <:+: body
  | _ => True

/-- **What is no comment is left as it is.** -/
theorem kept_piece (hp : p.Valid) (hrest : p.Follows rest) (hloop : IsUnderstood p)
    (hline : p.isLine = false) (hblock : p.isBlock = false) (hcut : p ≠ .semicolon) :
    Kept .code p.text rest := by
  cases p with
  | space c =>
    have hspaces : ∀ d ∈ [' ', '\t', '\n', '\r', '\x0b', '\x0c'], d ≠ '\'' ∧ d ≠ '"' ∧ d ≠ '$'
        ∧ d ≠ '-' ∧ d ≠ '/' ∧ d ≠ ';' :=
      List.all_iff_forall_prop.mp (by decide)
    obtain ⟨hsingle, hdouble, hdollar, hminus, hslash, hcut⟩ :=
      hspaces c (List.contains_iff_mem.mp hp)
    exact .code (quotation_code hsingle hdouble fun hc => absurd hc hdollar)
      (fun hc => absurd hc hminus) (fun hc => absurd hc hslash) hcut .nil
  | word t =>
    obtain ⟨c, cs, rfl, hc, hcs⟩ := hp
    have hstart := isIdentCont_of_isNumberCont (isNumberCont_of_isIdentStart hc)
    exact kept_isIdentCont (List.forall_mem_cons.mpr ⟨hstart, hcs⟩) fun a b hab =>
      dollarTagMatch_eq_none (hloop a b hab) hrest.1
  | digits t =>
    obtain ⟨c, cs, rfl, hc, hcs⟩ := hp
    have hall : ∀ d ∈ c :: cs, isNumberCont d = true :=
      List.forall_mem_cons.mpr ⟨isNumberCont_of_isDigit hc, hcs⟩
    refine kept_isIdentCont (fun d hd => isIdentCont_of_isNumberCont (hall d hd)) fun a b hab => ?_
    have hab' : c :: cs = a ++ '$' :: b := hab
    cases hall '$' (hab' ▸ List.mem_append_right a List.mem_cons_self)
  | mark c =>
    have hmarks : ∀ d ∈ "()[],.:+-*/<>=~!@#%^&|`?".toList, d ≠ '\'' ∧ d ≠ '"' ∧ d ≠ '$'
        ∧ d ≠ ';' :=
      List.all_iff_forall_prop.mp (by decide)
    obtain ⟨hsingle, hdouble, hdollar, hcut⟩ := hmarks c (List.contains_iff_mem.mp hp)
    exact .code (quotation_code hsingle hdouble fun hc => absurd hc hdollar) hrest.1 hrest.2 hcut
      .nil
  | semicolon => exact absurd rfl hcut
  | single body =>
    have hturn : ∀ cs, quotation .code '\'' cs = some ⟨['\''], .singleQuote, 0⟩ := fun _ => rfl
    exact .quotation (hturn _) rfl rfl (kept_doubled_single body hrest)
  | double body =>
    have hturn : ∀ cs, quotation .code '"' cs = some ⟨['"'], .doubleQuote, 0⟩ := fun _ => rfl
    exact .quotation (hturn _) rfl rfl (kept_doubled_double body)
  | dollar tag body => exact kept_dollar hloop hp.2
  | line body => cases hline
  | block body => cases hblock

end Kept

/-! ## Comments -/

section Comments

variable {body text rest current : Text} {p : Piece} {ps s : List Piece} {ss : List (List Piece)}

/-- What is left of a text behind its next line feed. -/
def afterLine (text : Text) : Text := (text.dropWhile (· != '\n')).drop 1

theorem afterLine_append (h : '\n' ∉ text) : afterLine (text ++ rest) = afterLine rest := by
  unfold afterLine
  rw [List.dropWhile_append_of_pos fun c hc => bne_iff_ne.mpr (ne_of_mem_of_not_mem hc h)]

theorem drop_lineLength (cs : Text) : cs.drop (lineLength cs) = afterLine cs := by
  have hdrop : cs.drop (cs.takeWhile (· != '\n')).length = cs.dropWhile (· != '\n') :=
    calc cs.drop (cs.takeWhile (· != '\n')).length
      _ = (cs.takeWhile (· != '\n') ++ cs.dropWhile (· != '\n')).drop
          (cs.takeWhile (· != '\n')).length := by rw [List.takeWhile_append_dropWhile]
      _ = cs.dropWhile (· != '\n') := List.drop_left
  unfold lineLength afterLine
  rw [← List.drop_drop, hdrop]

/-- A comment in which no other begins is as long as the loop takes it to be. -/
theorem blockLength_append (h : readBlock 0 (body ++ ['*', '/']) = some (body, []))
    (hnested : ¬ ['/', '*'] <:+: body) :
    blockLength (body ++ '*' :: '/' :: rest) = body.length + 2 := by
  induction body with
  | nil => rfl
  | cons c body ih =>
    obtain ⟨d, ds, hds⟩ : ∃ d ds, body ++ ['*', '/'] = d :: ds :=
      List.exists_cons_of_ne_nil (by simp)
    have hhead : (body ++ '*' :: '/' :: rest).head? = some d := by
      have happend : body ++ '*' :: '/' :: rest = d :: (ds ++ rest) := by
        rw [← List.cons_append, ← hds, List.append_assoc]
        rfl
      rw [happend]
      rfl
    rw [List.cons_append, hds, readBlock] at h
    split at h
    · cases h
    next hend =>
    split at h
    · next hopen =>
      -- a mark that opens a comment would be in the body, or share a character with the last one
      obtain ⟨rfl, rfl⟩ := hopen
      cases body with
      | nil =>
        cases hds
        cases h
      | cons e es =>
        cases hds
        exact absurd ⟨[], es, rfl⟩ hnested
    · obtain ⟨⟨body', rest'⟩, hread, heq⟩ := Option.map_eq_some_iff.mp h
      simp only [Prod.mk.injEq, List.cons.injEq, true_and] at heq
      obtain ⟨rfl, rfl⟩ := heq
      have hbody := ih (hds ▸ hread) fun hmark =>
        hnested (hmark.trans (List.suffix_cons c _).isInfix)
      rw [List.cons_append, blockLength, if_neg fun hstar => hend ⟨hstar.1, ?_⟩, hbody]
      · rfl
      · exact Option.some.inj (hhead.symm.trans hstar.2)

/-- The loop of `stripSqlComments` skips block comments. -/
theorem stripFrom_block (hp : (Piece.block body).Valid) (hloop : IsUnderstood (.block body)) :
    stripFrom .code 0 ((Piece.block body).text ++ rest) = stripFrom .code 0 rest := by
  have htext : (Piece.block body).text ++ rest = '/' :: '*' :: (body ++ '*' :: '/' :: rest) := by
    simp [Piece.text]
  have hskip : ('*' :: (body ++ '*' :: '/' :: rest)).drop (1 + (body.length + 2)) = rest := by
    rw [Nat.add_comm 1, List.drop_succ_cons, ← List.drop_drop, List.drop_left]
    rfl
  rw [htext, stripFrom, quotation_code (by decide) (by decide) (fun h => by cases h)]
  dsimp only
  rw [if_neg fun h => absurd h.1 (by decide), if_pos ⟨rfl, rfl⟩, stripFrom_skip,
    List.drop_succ_cons, List.drop_zero, blockLength_append hp hloop, hskip]

/-- It leaves a line feed in place of a line comment. -/
theorem stripFrom_line (hp : (Piece.line body).Valid) :
    stripFrom .code 0 ((Piece.line body).text ++ rest)
      = '\n' :: stripFrom .code 0 (afterLine rest) := by
  have hbody : '\n' ∉ '-' :: body := by
    rw [List.mem_cons, not_or]
    exact ⟨by decide, fun hmem => by cases hp _ hmem⟩
  have hturn : stripFrom .code 0 ((Piece.line body).text ++ rest)
      = '\n' :: stripFrom .code (lineLength ('-' :: body ++ rest)) ('-' :: body ++ rest) := rfl
  rw [hturn, stripFrom_skip, drop_lineLength, afterLine_append hbody]

theorem stripFrom_semicolon (rest : Text) :
    stripFrom .code 0 (';' :: rest) = ';' :: stripFrom .code 0 rest := rfl

/-- What the loop takes out of pieces: from code, and from a line that a comment has begun. -/
theorem stripFrom_and (h : Lexed ps) :
    (QuietAfterLines false ps → (∀ p ∈ withoutLines false ps, IsUnderstood p) →
      stripFrom .code 0 (textOf ps) = textOf (withoutLines false (withoutBlocks ps)))
    ∧ (QuietAfterLines true ps → (∀ p ∈ withoutLines true ps, IsUnderstood p) →
      stripFrom .code 0 (afterLine (textOf ps))
        = textOf (withoutLines true (withoutBlocks ps))) := by
  induction ps with
  | nil => exact ⟨fun _ _ => rfl, fun _ _ => rfl⟩
  | cons p ps ih =>
    obtain ⟨hvalid, hfollows, h⟩ := h
    obtain ⟨ihcode, ihline⟩ := ih h
    refine ⟨fun hquiet hloop => ?_, fun hquiet hloop => ?_⟩
    · rw [QuietAfterLines] at hquiet
      rw [textOf_cons]
      rw [withoutLines] at hloop
      cases hline : p.isLine with
      | true =>
        obtain ⟨body, rfl⟩ : ∃ body, p = .line body := by
          cases p with
          | line body => exact ⟨body, rfl⟩
          | _ => cases hline
        have hquiet' := ihline hquiet (List.forall_mem_cons.mp hloop).2
        exact (stripFrom_line hvalid).trans (congrArg (List.cons '\n') hquiet')
      | false =>
        rw [hline, if_neg Bool.false_ne_true] at hloop
        rw [hline] at hquiet
        obtain ⟨hp, hloops⟩ := List.forall_mem_cons.mp hloop
        cases hblock : p.isBlock with
        | true =>
          obtain ⟨body, rfl⟩ : ∃ body, p = .block body := by
            cases p with
            | block body => exact ⟨body, rfl⟩
            | _ => cases hblock
          exact (stripFrom_block hvalid hp).trans (ihcode hquiet hloops)
        | false =>
          rw [withoutBlocks_cons hblock, withoutLines, hline, if_neg Bool.false_ne_true,
            textOf_cons, ← ihcode hquiet hloops]
          by_cases hcut : p = .semicolon
          · subst hcut
            exact stripFrom_semicolon _
          · exact (kept_piece hvalid hfollows hp hline hblock hcut).stripFrom
    · rw [QuietAfterLines] at hquiet
      rw [withoutLines] at hloop
      split at hquiet
      · next hp =>
        subst hp
        exact ihcode hquiet hloop
      · next hp =>
        obtain ⟨hblank, hmem, hquiet⟩ := hquiet
        rw [if_neg hp] at hloop
        rw [textOf_cons, afterLine_append hmem, ihline hquiet hloop]
        cases hblock : p.isBlock with
        | true => rw [withoutBlocks_cons_of_isBlock hblock]
        | false => rw [withoutBlocks_cons hblock, withoutLines, if_neg hp]

/-- **Comments are taken out.** -/
theorem stripSqlComments_textOf (h : Lexed ps) (hquiet : QuietAfterLines false ps)
    (hloop : ∀ p ∈ withoutLines false ps, IsUnderstood p) :
    stripSqlComments (textOf ps) = textOf (withoutLines false (withoutBlocks ps)) :=
  (stripFrom_and h).1 hquiet hloop

/-! ## Cuts -/

/-- **What has no comments is cut at its semicolons.** -/
theorem splitFrom_textOf (h : Lexed ps) (hloop : ∀ p ∈ ps, IsUnderstood p)
    (hcode : ∀ p ∈ ps, p.isLine = false ∧ p.isBlock = false) (hs : statements ps = s :: ss) :
    splitFrom .code 0 current (textOf ps)
      = pushed (current ++ textOf s) ++ ss.flatMap fun s => pushed (textOf s) := by
  induction ps generalizing current s ss with
  | nil =>
    cases hs
    show pushed current = pushed (current ++ []) ++ []
    rw [List.append_nil, List.append_nil]
  | cons p ps ih =>
    obtain ⟨hvalid, hfollows, h⟩ := h
    obtain ⟨hp, hloops⟩ := List.forall_mem_cons.mp hloop
    obtain ⟨⟨hline, hblock⟩, hcodes⟩ := List.forall_mem_cons.mp hcode
    obtain ⟨s', ss', hs'⟩ := exists_statements ps
    by_cases hcut : p = .semicolon
    · subst hcut
      rw [statements_semicolon, hs'] at hs
      cases hs
      have hturn : splitFrom .code 0 current (textOf (.semicolon :: ps))
          = pushed current ++ splitFrom .code 0 [] (textOf ps) := rfl
      rw [hturn, ih h hloops hcodes hs', List.flatMap_cons]
      show _ = pushed (current ++ []) ++ _
      rw [List.append_nil]
      rfl
    · rw [statements_cons hcut hs'] at hs
      cases hs
      rw [textOf_cons, (kept_piece hvalid hfollows hp hline hblock hcut).splitFrom,
        ih h hloops hcodes hs', textOf_cons, List.append_assoc]

end Comments

/-! ## Spaces around a statement -/

/-- What is between the white space at both ends. -/
def trimmed (ps : List Piece) : List Piece :=
  (ps.dropWhile fun p => !p.isSignificant).rdropWhile fun p => !p.isSignificant

/-- What is no white space has no space at its ends that `trim` takes. -/
structure IsTight (s : List Piece) : Prop where
  head : ∀ p ∈ (s.filter Piece.isSignificant).head?, ∀ c ∈ p.text.head?, isJsSpace c = false
  last : ∀ p ∈ (s.filter Piece.isSignificant).getLast?, ∀ c ∈ p.text.getLast?,
    isJsSpace c = false

theorem isTight_iff {s : List Piece} : IsTight s ↔
    (s.filter Piece.isSignificant).head?.all
        (fun p => p.text.head?.all fun c => !isJsSpace c) = true
      ∧ (s.filter Piece.isSignificant).getLast?.all
        (fun p => p.text.getLast?.all fun c => !isJsSpace c) = true := by
  simp only [Option.all_eq_true, Bool.not_eq_true']
  exact ⟨fun h => ⟨h.head, h.last⟩, fun h => ⟨h.1, h.2⟩⟩

instance (s : List Piece) : Decidable (IsTight s) := decidable_of_iff' _ isTight_iff

section Trimmed

variable {ps : List Piece}

/-- Spaces are dropped piece by piece, whichever way the pieces are read. -/
theorem dropWhile_flatMap {text : Piece → Text}
    (hblank : ∀ p ∈ ps, p.isSignificant = false → ∀ c ∈ text p, isJsSpace c = true)
    (hvalid : ∀ p ∈ ps, text p ≠ [])
    (hhead : ∀ p ∈ (ps.filter Piece.isSignificant).head?, ∀ c ∈ (text p).head?,
      isJsSpace c = false) :
    (ps.flatMap text).dropWhile isJsSpace
      = (ps.dropWhile fun p => !p.isSignificant).flatMap text := by
  induction ps with
  | nil => rfl
  | cons p ps ih =>
    obtain ⟨hp, hblank⟩ := List.forall_mem_cons.mp hblank
    obtain ⟨hne, hvalid⟩ := List.forall_mem_cons.mp hvalid
    rw [List.flatMap_cons]
    cases hsignificant : p.isSignificant with
    | true =>
      obtain ⟨c, cs, hcons⟩ := List.exists_cons_of_ne_nil hne
      rw [List.filter_cons_of_pos hsignificant] at hhead
      have hc : ¬ isJsSpace c = true := Bool.eq_false_iff.mp (hhead p rfl c (by rw [hcons]; rfl))
      rw [List.dropWhile_cons_of_neg (by simp [hsignificant]), List.flatMap_cons, hcons,
        List.cons_append, List.dropWhile_cons_of_neg hc]
    | false =>
      rw [List.filter_cons_of_neg (by simp [hsignificant])] at hhead
      rw [List.dropWhile_append_of_pos (hp hsignificant),
        List.dropWhile_cons_of_pos (by simp [hsignificant]), ih hblank hvalid hhead]

theorem rdropWhile_textOf
    (hblank : ∀ p ∈ ps, p.isSignificant = false → ∀ c ∈ p.text, isJsSpace c = true)
    (hvalid : ∀ p ∈ ps, p.text ≠ [])
    (hlast : ∀ p ∈ (ps.filter Piece.isSignificant).getLast?,
      ∀ c ∈ p.text.getLast?, isJsSpace c = false) :
    (textOf ps).rdropWhile isJsSpace = textOf (ps.rdropWhile fun p => !p.isSignificant) := by
  have hreverse : (ps.reverse.flatMap (List.reverse ∘ Piece.text)).dropWhile isJsSpace
      = (ps.reverse.dropWhile fun p => !p.isSignificant).flatMap (List.reverse ∘ Piece.text) := by
    refine dropWhile_flatMap (fun p hp hspace c hc => ?_) (fun p hp hnil => ?_)
      fun p hp c hc => ?_
    · exact hblank p (List.mem_reverse.mp hp) hspace c (List.mem_reverse.mp hc)
    · exact hvalid p (List.mem_reverse.mp hp) (List.reverse_eq_nil_iff.mp hnil)
    · rw [List.filter_reverse, List.head?_reverse] at hp
      rw [Function.comp_apply, List.head?_reverse] at hc
      exact hlast p hp c hc
  unfold textOf List.rdropWhile
  rw [List.reverse_flatMap, hreverse, List.flatMap_reverse]

/-- Only white space and comments are taken away. -/
theorem exists_trimmed (ps : List Piece) : ∃ a b, ps = a ++ trimmed ps ++ b
    ∧ (∀ p ∈ a, p.isSignificant = false) ∧ ∀ p ∈ b, p.isSignificant = false := by
  refine ⟨ps.takeWhile fun p => !p.isSignificant,
    (ps.dropWhile fun p => !p.isSignificant).rtakeWhile fun p => !p.isSignificant, ?_,
    fun p hp => by simpa using List.mem_takeWhile_imp hp,
    fun p hp => by simpa using List.mem_rtakeWhile_imp hp⟩
  rw [trimmed, List.append_assoc, List.rdropWhile_append_rtakeWhile,
    List.takeWhile_append_dropWhile]

theorem filter_dropWhile (ps : List Piece) :
    (ps.dropWhile fun p => !p.isSignificant).filter Piece.isSignificant
      = ps.filter Piece.isSignificant := by
  have hnone : (ps.takeWhile fun p => !p.isSignificant).filter Piece.isSignificant = [] :=
    List.filter_eq_nil_iff.mpr fun p hp => by simpa using List.mem_takeWhile_imp hp
  calc (ps.dropWhile fun p => !p.isSignificant).filter Piece.isSignificant
    _ = ((ps.takeWhile fun p => !p.isSignificant)
          ++ ps.dropWhile fun p => !p.isSignificant).filter Piece.isSignificant := by
      rw [List.filter_append, hnone, List.nil_append]
    _ = ps.filter Piece.isSignificant := by rw [List.takeWhile_append_dropWhile]

/-- `trim` takes white space from a statement, piece by piece. -/
theorem jsTrim_textOf
    (hblank : ∀ p ∈ ps, p.isSignificant = false → ∀ c ∈ p.text, isJsSpace c = true)
    (hvalid : ∀ p ∈ ps, p.text ≠ []) (h : IsTight ps) :
    jsTrim (String.ofList (textOf ps)) = textOf (trimmed ps) := by
  have hmem : ∀ p ∈ ps.dropWhile fun p => !p.isSignificant, p ∈ ps :=
    fun p hp => (List.dropWhile_sublist _).subset hp
  have htrim : jsTrim (String.ofList (textOf ps))
      = ((textOf ps).dropWhile isJsSpace).rdropWhile isJsSpace := by
    unfold jsTrim
    rw [String.toList_ofList]
    rfl
  rw [htrim, textOf, dropWhile_flatMap hblank hvalid h.head]
  refine rdropWhile_textOf (fun p hp => hblank p (hmem p hp)) (fun p hp => hvalid p (hmem p hp)) ?_
  rw [filter_dropWhile]
  exact h.last

end Trimmed

/-! ## Statements -/

/-- Pieces without comments: a line feed is left in place of a line comment. -/
def withoutComments (ps : List Piece) : List Piece := withoutLines false (withoutBlocks ps)

section Statements

variable {τ : Type} (plain : Text → List τ) {sql : Text} {ps s : List Piece}

/-- The texts of statements have the tokens of what is between the semicolons of a text, and
there is one for each that has any. -/
def SplitsRight (sql : Text) (ps : List Piece) : Prop :=
  (splitStatements sql).map (fun t => (lex t).map (tokens plain))
    = ((statements ps).filter fun s => s.any Piece.isSignificant).map fun s => some (tokens plain s)

/-- **A statement without comments** keeps its tokens. -/
theorem map_pushed_textOf (h : Lexed s) (hcode : ∀ p ∈ s, p.isLine = false ∧ p.isBlock = false)
    (htight : IsTight s) :
    (pushed (textOf s)).map (fun t => (lex t).map (tokens plain))
      = if s.any Piece.isSignificant then [some (tokens plain s)] else [] := by
  have hvalid : ∀ p ∈ s, p.text ≠ [] := fun p hp hnil => by
    obtain ⟨c, cs, hcons⟩ := (h.forall_valid p hp).exists_cons
    rw [hnil] at hcons
    cases hcons
  have hblank : ∀ p ∈ s, p.isSignificant = false → ∀ c ∈ p.text, isJsSpace c = true := by
    intro p hp hsignificant
    have hspaces : ∀ d ∈ [' ', '\t', '\n', '\r', '\x0b', '\x0c'], isJsSpace d = true :=
      List.all_iff_forall_prop.mp (by decide)
    cases p with
    | space c =>
      have hc : isSpace c = true := h.forall_valid _ hp
      exact List.forall_mem_singleton.mpr (hspaces c (List.contains_iff_mem.mp hc))
    | line body => cases (hcode _ hp).1
    | block body => cases (hcode _ hp).2
    | _ => cases hsignificant
  obtain ⟨a, b, hs, ha, hb⟩ := exists_trimmed s
  have hlexed : Lexed (trimmed s) := by
    have hall : Lexed (a ++ (trimmed s ++ b)) := by rwa [← List.append_assoc, ← hs]
    exact hall.right.left
  have htokens : tokens plain (trimmed s) = tokens plain s := by
    calc tokens plain (trimmed s)
      _ = tokens plain (trimmed s ++ b) := (tokensFrom_append plain hb).symm
      _ = tokens plain (a ++ (trimmed s ++ b)) := (tokens_append plain ha).symm
      _ = tokens plain s := by rw [← List.append_assoc, ← hs]
  unfold pushed
  dsimp only
  rw [jsTrim_textOf hblank hvalid htight]
  cases hany : s.any Piece.isSignificant with
  | false =>
    have hnone : trimmed s = [] := by
      unfold trimmed
      rw [List.dropWhile_eq_nil_iff.mpr fun p hp => by simpa using List.any_eq_false.mp hany p hp]
      rfl
    rw [hnone]
    rfl
  | true =>
    obtain ⟨p, hp, hsignificant⟩ := List.any_eq_true.mp hany
    have hmem : p ∈ trimmed s := by
      rw [hs, List.append_assoc, List.mem_append, List.mem_append] at hp
      obtain hp | hp | hp := hp
      · exact absurd hsignificant (Bool.eq_false_iff.mp (ha p hp))
      · exact hp
      · exact absurd hsignificant (Bool.eq_false_iff.mp (hb p hp))
    have hne : textOf (trimmed s) ≠ [] := fun hnil => by
      obtain ⟨c, cs, hcons⟩ := (hlexed.forall_valid p hmem).exists_cons
      have htext : c ∈ textOf (trimmed s) :=
        List.mem_flatMap.mpr ⟨p, hmem, hcons ▸ List.mem_cons_self⟩
      rw [hnil] at htext
      cases htext
    rw [if_neg hne, if_pos rfl, List.map_singleton, lex_eq_some_iff.mpr ⟨rfl, hlexed⟩,
      Option.map_some, htokens]

theorem map_filter_eq_flatMap {α β : Type} (f : α → β) (p : α → Bool) (xs : List α) :
    (xs.filter p).map f = xs.flatMap fun x => if p x then [f x] else [] := by
  induction xs with
  | nil => rfl
  | cons x xs ih =>
    rw [List.filter_cons, List.flatMap_cons, ← ih]
    split <;> rfl

theorem isBlock_of_mem_withoutBlocks : ∀ p ∈ withoutBlocks ps, p.isBlock = false := fun p hp => by
  simpa using (List.mem_filter.mp hp).2

theorem of_mem_withoutComments {p : Piece} (hp : p ∈ withoutComments ps) :
    (p.isLine = false ∧ p.isBlock = false) ∧ (p = .space '\n' ∨ p ∈ ps) := by
  obtain ⟨hline, rfl | hp⟩ := of_mem_withoutLines hp
  · exact ⟨⟨rfl, rfl⟩, .inl rfl⟩
  · exact ⟨⟨hline, isBlock_of_mem_withoutBlocks p hp⟩, .inr (List.mem_of_mem_filter hp)⟩

theorem statements_withoutComments (h : QuietAfterLines false ps) :
    statements (withoutComments ps) = (statements ps).map withoutComments := by
  obtain ⟨s, ss, hs⟩ := exists_statements ps
  have hblocks : statements (withoutBlocks ps) = withoutBlocks s :: ss.map withoutBlocks := by
    rw [statements_withoutBlocks, hs, List.map_cons]
  refine (statements_withoutLines h.withoutBlocks hblocks).trans ?_
  rw [hs, List.map_cons, List.map_map]
  rfl

/-- What is no comment stays. -/
theorem filter_withoutComments (h : QuietAfterLines false s) :
    (withoutComments s).filter Piece.isSignificant = s.filter Piece.isSignificant :=
  (filter_withoutLines h.withoutBlocks).trans (filter_withoutBlocks s)

/-- **The loops read a text as PostgreSQL does.** -/
structure IsReadAlike (ps : List Piece) : Prop where
  /-- Each piece is read as what it is, unless it is in the line of a comment. -/
  understood : ∀ p ∈ withoutLines false ps, IsUnderstood p
  /-- The line of a comment ends with it. -/
  quiet : QuietAfterLines false ps
  /-- No pieces run into each other where a block comment has been. -/
  apart : Lexed (withoutComments ps)
  /-- `trim` takes nothing but white space. -/
  tight : ∀ s ∈ statements ps, IsTight s

/-- **A migration is cut at its semicolons**, and its comments are taken out. -/
theorem splitStatements_textOf (h : Lexed ps) (halike : IsReadAlike ps) :
    splitStatements (textOf ps)
      = (statements ps).flatMap fun s => pushed (textOf (withoutComments s)) := by
  obtain ⟨s, ss, hs⟩ := exists_statements ps
  have hloop : ∀ p ∈ withoutComments ps, IsUnderstood p := fun p hp => by
    rw [withoutComments, withoutLines_withoutBlocks] at hp
    exact halike.understood p (List.mem_of_mem_filter hp)
  have hcomments := statements_withoutComments halike.quiet
  rw [hs, List.map_cons] at hcomments
  have hsplit : splitFrom .code 0 [] (textOf (withoutComments ps)) = _ := splitFrom_textOf
    halike.apart hloop (fun p hp => (of_mem_withoutComments hp).1) hcomments
  unfold splitStatements
  rw [stripSqlComments_textOf h halike.quiet halike.understood, ← withoutComments, hsplit, hs,
    List.flatMap_cons, List.flatMap_map]
  rfl

/-- What is returned for a statement. -/
theorem map_pushed_withoutComments (halike : IsReadAlike ps) (hs : s ∈ statements ps) :
    (pushed (textOf (withoutComments s))).map (fun t => (lex t).map (tokens plain))
      = if s.any Piece.isSignificant then [some (tokens plain (withoutBlocks s))] else [] := by
  have hquiet : QuietAfterLines false s := halike.quiet.of_mem_statements hs
  have hcode : ∀ p ∈ withoutComments s, p.isLine = false ∧ p.isBlock = false :=
    fun p hp => (of_mem_withoutComments hp).1
  have hmem : withoutComments s ∈ statements (withoutComments ps) := by
    rw [statements_withoutComments halike.quiet]
    exact List.mem_map_of_mem hs
  have htight : IsTight (withoutComments s) := by
    refine ⟨?_, ?_⟩ <;> rw [filter_withoutComments hquiet]
    · exact (halike.tight s hs).head
    · exact (halike.tight s hs).last
  have hany : (withoutComments s).any Piece.isSignificant = s.any Piece.isSignificant := by
    have hfilter := congrArg (List.any · fun _ => true) (filter_withoutComments hquiet)
    simpa only [List.any_filter, Bool.and_true] using hfilter
  have htokens : tokens plain (withoutComments s) = tokens plain (withoutBlocks s) :=
    tokens_withoutLines plain isBlock_of_mem_withoutBlocks hquiet.withoutBlocks
  rw [map_pushed_textOf plain (halike.apart.of_mem_statements hmem) hcode htight, hany, htokens]

/-- **A migration is cut into its statements**, and each keeps its tokens, if it is read
alike and its block comments keep no tokens apart. -/
theorem splitsRight_iff (h : lex sql = some ps) (halike : IsReadAlike ps) :
    SplitsRight plain sql ps
      ↔ ∀ s ∈ statements ps, tokens plain (withoutBlocks s) = tokens plain s := by
  obtain ⟨rfl, hlexed⟩ := lex_eq_some_iff.mp h
  have hreturned : (splitStatements (textOf ps)).map (fun t => (lex t).map (tokens plain))
      = ((statements ps).filter fun s => s.any Piece.isSignificant).map
        fun s => some (tokens plain (withoutBlocks s)) := by
    rw [splitStatements_textOf hlexed halike, List.map_flatMap, map_filter_eq_flatMap]
    exact List.flatMap_congr fun s hs => map_pushed_withoutComments plain halike hs
  unfold SplitsRight
  rw [hreturned, List.map_inj_left]
  refine ⟨fun hsame s hs => ?_,
    fun hsame s hs => congrArg some (hsame s (List.mem_of_mem_filter hs))⟩
  cases hany : s.any Piece.isSignificant with
  | true => exact Option.some.inj (hsame s (List.mem_filter.mpr ⟨hs, hany⟩))
  | false =>
    -- a statement that is not returned has no tokens, with its comments or without them
    have hnone : ∀ p ∈ s, p.isSignificant = false := fun p hp => by
      simpa using List.any_eq_false.mp hany p hp
    have hnone' : ∀ p ∈ withoutBlocks s, p.isSignificant = false :=
      fun p hp => hnone p (List.mem_of_mem_filter hp)
    exact (tokensFrom_eq plain hnone').trans (tokensFrom_eq plain hnone).symm

theorem isUnderstood_word {t : Text} (h : '$' ∉ t) : IsUnderstood (.word t) := by
  rintro a b rfl
  exact absurd (List.mem_append_right a List.mem_cons_self) h

/-- A semicolon in a string, and one in a comment, end no statement. -/
theorem splitsRight_quoted : SplitsRight (fun t => [t]) "a/* ; */ ';'--x\n;b".toList
    [.word ['a'], .block " ; ".toList, .space ' ', .single [';'], .line ['x'], .space '\n',
      .semicolon, .word ['b']] := by
  refine (splitsRight_iff _ (by decide) ⟨?_, ?_, ?_, by decide⟩).mpr (by decide)
  · show ∀ p ∈ [Piece.word ['a'], .block " ; ".toList, .space ' ', .single [';'], .space '\n',
      .semicolon, .word ['b']], IsUnderstood p
    simp only [List.forall_mem_cons]
    exact ⟨isUnderstood_word (by decide), by unfold IsUnderstood; decide, trivial, trivial, trivial,
      trivial, isUnderstood_word (by decide), by simp⟩
  · simp [QuietAfterLines, Piece.isLine]
  · have hlex : lex "a ';'\n;b".toList = some [.word ['a'], .space ' ', .single [';'], .space '\n',
        .semicolon, .word ['b']] := by
      decide
    exact (lex_eq_some_iff.mp hlex).2

/-- What a block comment keeps apart becomes one identifier. -/
theorem not_splitsRight_joined : ¬ ∀ (τ : Type) (plain : Text → List τ) sql ps,
    lex sql = some ps → SplitsRight plain sql ps := by
  intro hall
  have hjoined := hall Text (fun t => [t]) "CREATE/**/TABLE t;".toList
    [.word "CREATE".toList, .block [], .word "TABLE".toList, .space ' ', .word ['t'], .semicolon]
    (by decide)
  revert hjoined
  unfold SplitsRight
  decide

end Statements

end TimescaleParser
