import IntuitionCore.Api.Paging
import Mathlib.Data.List.Infix

/-!
# Search is literal

A search lists the atoms whose text has what is searched for in it, up to case. It is a pattern,
in which some characters are wildcards and backslashes take the meaning of the next character
away, so these characters are escaped, one after the other.
-/

namespace KgApi

/-- `replaceAll`, of a character. -/
def replaceAll (c : Char) (replacement input : List Char) : List Char :=
  input.flatMap fun d => if d = c then replacement else [d]

/-- The pattern of a search, with its wildcards escaped one after the other. -/
def searchPattern (q : List Char) : List Char :=
  '%' :: replaceAll '_' ['\\', '_'] (replaceAll '%' ['\\', '%']
    (replaceAll '\\' ['\\', '\\'] q)) ++ ['%']

/-- Whether a pattern ends in a backslash that escapes nothing. -/
def endsInEscape : List Char → Bool
  | [] => false
  | ['\\'] => true
  | '\\' :: _ :: pattern => endsInEscape pattern
  | _ :: pattern => endsInEscape pattern

/-- A text has what is searched for in it, up to case. -/
def OccursIn (lower : Char → Char) (q text : List Char) : Prop :=
  ∃ before found after, text = before ++ found ++ after ∧ found.map lower = q.map lower

/-- **Replacements do not escape each other's output**: each character is escaped once. -/
theorem searchPattern_eq (q : List Char) :
    searchPattern q = '%' :: escapeLikePattern q ++ ['%'] := by
  have hescape : replaceAll '_' ['\\', '_'] (replaceAll '%' ['\\', '%']
      (replaceAll '\\' ['\\', '\\'] q)) = escapeLikePattern q := by
    unfold replaceAll escapeLikePattern
    rw [List.flatMap_assoc, List.flatMap_assoc]
    refine congrArg (q.flatMap ·) (funext fun c => ?_)
    by_cases hbackslash : c = '\\'
    · subst hbackslash; rfl
    · by_cases hpercent : c = '%'
      · subst hpercent; rfl
      · by_cases hunderscore : c = '_'
        · subst hunderscore; rfl
        · simp [hbackslash, hpercent, hunderscore]
  rw [searchPattern, hescape]

variable {lower : Char → Char} {q text : List Char}

/-- A character that is escaped stands for itself. -/
theorem ilike_escape_cons (c : Char) (pattern text : List Char) :
    ilike lower ((if c = '\\' ∨ c = '%' ∨ c = '_' then ['\\', c] else [c]) ++ pattern) text
      = match text with
        | [] => false
        | d :: text => lower c == lower d && ilike lower pattern text := by
  by_cases h : c = '\\' ∨ c = '%' ∨ c = '_'
  · rw [if_pos h]
    cases text with
    | nil => simp [ilike]
    | cons d text => simp [ilike]
  · rw [if_neg h]
    obtain ⟨hbackslash, hpercent, hunderscore⟩ : c ≠ '\\' ∧ c ≠ '%' ∧ c ≠ '_' := by
      simpa [not_or] using h
    cases text with
    | nil => simp [ilike]
    | cons d text => simp [ilike, hbackslash]

/-- **An escaped text matches itself**, up to case, where a text begins. -/
theorem ilike_escapeLikePattern (q text : List Char) :
    ilike lower (escapeLikePattern q ++ ['%']) text = true
      ↔ ∃ found after, text = found ++ after ∧ found.map lower = q.map lower := by
  induction q generalizing text with
  | nil =>
    have hany : ilike lower ['%'] text = true := by
      rw [ilike]
      exact List.any_eq_true.mpr ⟨[], (List.mem_tails _ _).mpr List.nil_suffix, rfl⟩
    exact iff_of_true hany ⟨[], text, rfl, rfl⟩
  | cons c q ih =>
    rw [escapeLikePattern, List.flatMap_cons, List.append_assoc, ilike_escape_cons]
    cases text with
    | nil =>
      refine iff_of_false Bool.false_ne_true ?_
      rintro ⟨found, after, hnil, hfound⟩
      rw [(List.append_eq_nil_iff.mp hnil.symm).1] at hfound
      exact absurd hfound (by simp)
    | cons d text =>
      rw [Bool.and_eq_true, beq_iff_eq, ← escapeLikePattern, ih]
      constructor
      · rintro ⟨hd, found, after, rfl, hfound⟩
        exact ⟨d :: found, after, rfl, by rw [List.map_cons, List.map_cons, hfound, hd]⟩
      · rintro ⟨found, after, htext, hfound⟩
        cases found with
        | nil => exact absurd hfound.symm (by simp)
        | cons e found =>
          obtain ⟨hde, hrest⟩ := List.cons.inj htext
          obtain ⟨he, hfound⟩ := List.cons.inj hfound
          exact ⟨hde ▸ he.symm, found, after, hrest, hfound⟩

/-- **A search matches where what is searched for occurs.** -/
theorem ilike_searchPattern (q text : List Char) :
    ilike lower (searchPattern q) text = true ↔ OccursIn lower q text := by
  rw [searchPattern_eq, List.cons_append, ilike, List.any_eq_true]
  constructor
  · rintro ⟨suffix, hsuffix, hmatch⟩
    obtain ⟨before, rfl⟩ := (List.mem_tails _ _).mp hsuffix
    obtain ⟨found, after, rfl, hfound⟩ := (ilike_escapeLikePattern q suffix).mp hmatch
    exact ⟨before, found, after, (List.append_assoc _ _ _).symm, hfound⟩
  · rintro ⟨before, found, after, rfl, hfound⟩
    refine ⟨found ++ after, (List.mem_tails _ _).mpr ⟨before, ?_⟩, ?_⟩
    · exact (List.append_assoc _ _ _).symm
    · exact (ilike_escapeLikePattern q _).mpr ⟨found, after, rfl, hfound⟩

/-- An escaped character is not at the end. -/
theorem endsInEscape_escape_cons (c : Char) {pattern : List Char} (hne : pattern ≠ []) :
    endsInEscape ((if c = '\\' ∨ c = '%' ∨ c = '_' then ['\\', c] else [c]) ++ pattern)
      = endsInEscape pattern := by
  by_cases h : c = '\\' ∨ c = '%' ∨ c = '_'
  · rw [if_pos h]
    simp [endsInEscape]
  · rw [if_neg h]
    obtain ⟨hbackslash, -⟩ := not_or.mp h
    obtain ⟨d, pattern, rfl⟩ := List.exists_cons_of_ne_nil hne
    simp [endsInEscape, hbackslash]

/-- **No backslash is left at the end of a search.** -/
theorem endsInEscape_searchPattern (q : List Char) : endsInEscape (searchPattern q) = false := by
  have hescaped : endsInEscape (escapeLikePattern q ++ ['%']) = false := by
    induction q with
    | nil => rfl
    | cons c q ih =>
      rw [escapeLikePattern, List.flatMap_cons, List.append_assoc,
        endsInEscape_escape_cons c (by simp)]
      exact ih
  rw [searchPattern_eq, List.cons_append, ← hescaped]
  simp [endsInEscape]

/-- `GET /api/atoms` lists the atoms whose text has in it what is searched for. -/
theorem listedAtom_iff (lower : Char → Char) (query : QueryParams) (row : AtomRow) :
    ListedAtom lower query row ↔ publicNodes row
      ∧ (∀ type ∈ query.given "classification_type", row.classificationType = type)
      ∧ ∀ text ∈ query.given "q", OccursIn lower text.toList row.searchText.toList := by
  unfold ListedAtom
  simp only [← searchPattern_eq, ilike_searchPattern]

/-- **Search is literal**: the condition that `GET /api/atoms` builds holds where what is
searched for occurs up to case, and its pattern ends in no dangling escape. -/
theorem ilike_search (lower : Char → Char) (q searchText : String) :
    (ilike lower (searchPattern q.toList) searchText.toList = true
        ↔ OccursIn lower q.toList searchText.toList)
      ∧ endsInEscape (searchPattern q.toList) = false :=
  ⟨ilike_searchPattern _ _, endsInEscape_searchPattern _⟩

end KgApi
