import IntuitionCore.Surreal.Literals

/-!
# Statements for SurrealDB

The sink writes its statements as texts, with the identities of records and the values of
fields between quotes. What anybody put into them is escaped character by character, in
one pass, so that no character is escaped twice. A reader that takes a quoted text up to
the first quote without a backslash before it then finds the statement that the template
was meant for: the same characters of its own, and the same texts between them.

The names of fields and of tables of edges are written as they are. They are constants
of the projections, and have no quotes.
-/

open QuoteStyle

/-! ## What is written -/

/-- The fields of a node, as an object. -/
def fieldsToSurqlObject (fields : List (String × SinkValue)) : String :=
  if fields.isEmpty then "\x7b\x7d"
  else
    "\x7b" ++ String.intercalate ", " (fields.map fun (k, v) => k ++ ": " ++ surqlLiteral v)
      ++ "\x7d"

def normalizeNodeFields (table : String) (fields : List (String × SinkValue)) :
    List (String × SinkValue) :=
  fields.map fun (k, v) => (k, normalizeNodeField table k v)

/-- The statement that gives a node some fields. -/
def buildUpsertNode (id : RecordId) (fields : List (String × SinkValue)) : String :=
  "UPSERT type::record('" ++ escapeSurrealString id.table ++ "', '" ++ escapeSurrealString id.id
    ++ "') MERGE " ++ fieldsToSurqlObject (normalizeNodeFields id.table fields) ++ ";"

/-- The identity of an edge. -/
def buildEdgeId (edgeTable : String) (source target : RecordId) (idSuffix : Option String) :
    String :=
  let fromLit := "'" ++ escapeSurrealString source.id ++ "'"
  let toLit := "'" ++ escapeSurrealString target.id ++ "'"
  match idSuffix with
  | none => edgeTable ++ ":[" ++ fromLit ++ ", " ++ toLit ++ "]"
  | some suffix =>
    edgeTable ++ ":[" ++ fromLit ++ ", " ++ toLit ++ ", '" ++ escapeSurrealString suffix ++ "']"

/-! ## What is meant -/

namespace Surql

/-- Characters of a statement itself. -/
def code (s : String) : List (Token Char) := codeTokens s.toList

/-- A text between quotes. -/
def text (s : String) : List (Token Char) := [.literal s.toList]

/-- A value. -/
def value : SinkValue → List (Token Char)
  | .null => code "NONE"
  | .bool b => code (if b then "true" else "false")
  | .number n =>
    if -2 ^ 63 ≤ n ∧ n < 2 ^ 63 then code (toString n) else code "<decimal>" ++ text (toString n)
  | .string s =>
    match stripPrefix decimalPrefix s with
    | some raw => code "<decimal>" ++ text raw
    | none =>
      match stripPrefix datetimePrefix s with
      | some raw => code "type::datetime(" ++ text raw ++ code ")"
      | none =>
        match parseRecordLink s with
        | some (table, id) => code "type::record(" ++ text table ++ code ", " ++ text id ++ code ")"
        | none => text s

/-- The fields of a node: the name of each, and its value. -/
def object (fields : List (String × SinkValue)) : List (Token Char) :=
  code "\x7b"
    ++ (code ", ").intercalate (fields.map fun (k, v) => code k ++ code ": " ++ value v)
    ++ code "\x7d"

/-- The statement that gives a node some fields. -/
def upsertNode (id : RecordId) (fields : List (String × SinkValue)) : List (Token Char) :=
  code "UPSERT type::record(" ++ text id.table ++ code ", " ++ text id.id ++ code ") MERGE "
    ++ object (normalizeNodeFields id.table fields) ++ code ";"

/-- The identity of an edge. -/
def edgeId (edgeTable : String) (source target : RecordId) (idSuffix : Option String) :
    List (Token Char) :=
  code edgeTable ++ code ":[" ++ text source.id ++ code ", " ++ text target.id
    ++ (match idSuffix with
      | none => []
      | some suffix => code ", " ++ text suffix)
    ++ code "]"

/-! ## The one writes the other -/

@[simp] theorem render_code (s : String) : surqlQuotes.render (code s) = s.toList :=
  surqlQuotes.render_codeTokens s.toList

theorem toList_escapeSurrealString (s : String) :
    (escapeSurrealString s).toList = surqlQuotes.escape s.toList := String.toList_ofList

@[simp] theorem render_text (s : String) :
    surqlQuotes.render (text s) = '\x27' :: ((escapeSurrealString s).toList ++ ['\x27']) := by
  rw [text, render_literal_cons, toList_escapeSurrealString]
  rfl

/-- What has no character to escape is written as it is. -/
theorem escapeSurrealString_of_plain {s : String} (h : ∀ c ∈ s.toList, surqlQuotes.code c = none) :
    escapeSurrealString s = s := by
  have hchar : ∀ c ∈ s.toList, surqlQuotes.escapeChar c = [c] := fun c hc => by
    rw [QuoteStyle.escapeChar, h c hc]
  have hchars : surqlQuotes.escape s.toList = s.toList := by
    rw [QuoteStyle.escape, List.flatMap_congr hchar]
    exact List.flatMap_singleton' _
  rw [escapeSurrealString, hchars, String.ofList_toList]

/-- The digits of a number, and its sign, are written as they are. -/
theorem code_toString (n : ℤ) : ∀ c ∈ (toString n).toList, surqlQuotes.code c = none := by
  have hdigit : ∀ c : Char, c.isDigit → surqlQuotes.code c = none := fun c hc => by
    refine (if_neg ?_).trans <| (if_neg ?_).trans <| (if_neg ?_).trans (if_neg ?_) <;>
      rintro rfl <;> exact absurd hc (by decide)
  have hnat : ∀ k : ℕ, ∀ c ∈ (toString k).toList, surqlQuotes.code c = none := fun k c hc =>
    hdigit c (Nat.isDigit_of_mem_toDigits (b := 10) (by decide) (by decide)
      (by simpa [toString, Nat.repr] using hc))
  cases n with
  | ofNat k => exact hnat k
  | negSucc k =>
    intro c hc
    have : toString (Int.negSucc k) = "-" ++ toString (k + 1) := rfl
    rw [this, String.toList_append] at hc
    obtain hc | hc := List.mem_append.mp hc
    · have : c = '-' := by simpa using hc
      subst this
      rfl
    · exact hnat (k + 1) c hc

/-- **A value is written as its literal.** -/
@[simp] theorem render_value (v : SinkValue) :
    surqlQuotes.render (value v) = (surqlLiteral v).toList := by
  cases v with
  | null => exact render_code _
  | bool b => exact render_code _
  | number n =>
    simp only [value, surqlLiteral]
    split
    · exact render_code _
    · rw [render_append, render_code, render_text, escapeSurrealString_of_plain (code_toString n)]
      simp
  | string s =>
    simp only [value, surqlLiteral]
    cases stripPrefix decimalPrefix s with
    | some raw => simp
    | none =>
      cases stripPrefix datetimePrefix s with
      | some raw => simp
      | none =>
        cases parseRecordLink s with
        | some link => simp
        | none => simp

theorem render_intercalate (sep : List (Token Char)) (parts : List (List (Token Char))) :
    surqlQuotes.render (sep.intercalate parts)
      = (surqlQuotes.render sep).intercalate (parts.map surqlQuotes.render) := by
  induction parts with
  | nil => rfl
  | cons part parts ih => cases parts <;> simp_all

@[simp] theorem render_object (fields : List (String × SinkValue)) :
    surqlQuotes.render (object fields) = (fieldsToSurqlObject fields).toList := by
  have hfields : ∀ field : String × SinkValue,
      surqlQuotes.render (code field.1 ++ code ": " ++ value field.2)
        = (field.1 ++ ": " ++ surqlLiteral field.2).toList := fun field => by
    rw [render_append, render_append, render_code, render_code, render_value,
      String.toList_append, String.toList_append]
  unfold object fieldsToSurqlObject
  rw [render_append, render_append, render_intercalate, render_code, render_code, render_code,
    List.map_map]
  cases fields with
  | nil => rfl
  | cons field fields =>
    rw [if_neg (by simp), String.toList_append, String.toList_append, String.toList_intercalate,
      List.map_map]
    congr 3
    exact List.map_congr_left fun field _ => hfields field

/-- **The statement that is written is the one that is meant.** -/
theorem render_upsertNode (id : RecordId) (fields : List (String × SinkValue)) :
    surqlQuotes.render (upsertNode id fields) = (buildUpsertNode id fields).toList := by
  unfold upsertNode buildUpsertNode
  simp

theorem render_edgeId (edgeTable : String) (source target : RecordId) (idSuffix : Option String) :
    surqlQuotes.render (edgeId edgeTable source target idSuffix)
      = (buildEdgeId edgeTable source target idSuffix).toList := by
  unfold edgeId buildEdgeId
  cases idSuffix with
  | none => simp
  | some suffix => simp

/-! ## Nothing else is a quote -/

@[simp] theorem code_mem_code {c : Char} {s : String} : .code c ∈ code s ↔ c ∈ s.toList := by
  simp [code, codeTokens]

@[simp] theorem code_notMem_text {c : Char} {s : String} : .code c ∉ text s := by
  simp [text]

theorem mem_intercalate {t : Token Char} {sep : List (Token Char)}
    {parts : List (List (Token Char))} (h : t ∈ sep.intercalate parts) :
    t ∈ sep ∨ ∃ part ∈ parts, t ∈ part := by
  induction parts with
  | nil => simp at h
  | cons part parts ih =>
    cases parts with
    | nil =>
      rw [List.intercalate_singleton] at h
      exact .inr ⟨part, List.mem_cons_self, h⟩
    | cons next parts =>
      rw [List.intercalate_cons_cons, List.mem_append, List.mem_append] at h
      obtain (h | h) | h := h
      · exact .inr ⟨part, List.mem_cons_self, h⟩
      · exact .inl h
      · exact (ih h).imp id fun ⟨other, hother, ht⟩ => ⟨other, List.mem_cons_of_mem _ hother, ht⟩

theorem quote_notMem_value (v : SinkValue) : .code '\x27' ∉ value v := by
  have hnumber : ∀ n : ℤ, '\x27' ∉ (toString n).toList := fun n hmem => by
    cases code_toString n _ hmem
  cases v with
  | null => simp [value]
  | bool b => cases b <;> simp [value]
  | number n =>
    simp only [value]
    split
    · exact mt code_mem_code.mp (hnumber n)
    · simp
  | string s =>
    simp only [value]
    cases stripPrefix decimalPrefix s with
    | some raw => simp
    | none =>
      cases stripPrefix datetimePrefix s with
      | some raw => simp
      | none =>
        cases parseRecordLink s with
        | some link => simp
        | none => simp

theorem quote_notMem_upsertNode {id : RecordId} {fields : List (String × SinkValue)}
    (hnames : ∀ field ∈ fields, '\x27' ∉ field.1.toList) :
    .code '\x27' ∉ upsertNode id fields := by
  have hobject : .code '\x27' ∉ object (normalizeNodeFields id.table fields) := by
    intro hmem
    simp only [object, List.mem_append, code_mem_code] at hmem
    obtain (hmem | hmem) | hmem := hmem
    · simp at hmem
    · obtain hmem | ⟨part, hpart, hmem⟩ := mem_intercalate hmem
      · simp at hmem
      · obtain ⟨field', hfield', rfl⟩ := List.mem_map.mp hpart
        obtain ⟨field, hfield, rfl⟩ := List.mem_map.mp hfield'
        simp only [List.mem_append, code_mem_code] at hmem
        obtain (hmem | hmem) | hmem := hmem
        · exact hnames field hfield hmem
        · simp at hmem
        · exact quote_notMem_value _ hmem
    · simp at hmem
  simp [upsertNode, hobject]

theorem quote_notMem_edgeId {edgeTable : String} {source target : RecordId}
    {idSuffix : Option String} (htable : '\x27' ∉ edgeTable.toList) :
    .code '\x27' ∉ edgeId edgeTable source target idSuffix := by
  cases idSuffix <;> simp [edgeId, htable]

end Surql

/-! ## Reading -/

/-- **What is escaped is read as it was**, however it is interpolated: between quotes, as
one text; before anything else, up to its own closing quote; and a statement, as its
template with the texts that were put into it. -/
theorem escaping_round_trips :
    (∀ s : String, surqlQuotes.lex ("'" ++ escapeSurrealString s ++ "'").toList
      = some [.literal s.toList])
    ∧ (∀ s rest : String, surqlQuotes.read (escapeSurrealString s ++ "'" ++ rest).toList
      = some (s.toList, rest.toList))
    ∧ (∀ (id : RecordId) (fields : List (String × SinkValue)),
      (∀ field ∈ fields, '\x27' ∉ field.1.toList) →
        surqlQuotes.lex (buildUpsertNode id fields).toList = some (Surql.upsertNode id fields))
    ∧ (∀ (edgeTable : String) (source target : RecordId) (idSuffix : Option String),
      '\x27' ∉ edgeTable.toList →
        surqlQuotes.lex (buildEdgeId edgeTable source target idSuffix).toList
          = some (Surql.edgeId edgeTable source target idSuffix)) := by
  refine ⟨fun s => ?_, fun s rest => ?_, fun id fields hnames => ?_,
    fun edgeTable source target idSuffix htable => ?_⟩
  · have htext : ("'" ++ escapeSurrealString s ++ "'").toList
        = surqlQuotes.render (Surql.text s) := by simp
    rw [htext]
    exact surqlQuotes.lex_render Surql.code_notMem_text
  · have hread := (quotes_escapeSurrealString s).read rest.toList
    simpa using hread
  · rw [← Surql.render_upsertNode]
    exact surqlQuotes.lex_render (Surql.quote_notMem_upsertNode hnames)
  · rw [← Surql.render_edgeId]
    exact surqlQuotes.lex_render (Surql.quote_notMem_edgeId htable)

theorem escaping_round_trips_quotedId :
    surqlQuotes.lex (buildUpsertNode ⟨"account", "o'\\"⟩ [("label", .string "'; \\'\n")]).toList
      = some (Surql.upsertNode ⟨"account", "o'\\"⟩ [("label", .string "'; \\'\n")]) :=
  escaping_round_trips.2.2.1 ⟨"account", "o'\\"⟩ [("label", .string "'; \\'\n")] (by decide)
