import IntuitionCore.Library.JsText
import IntuitionCore.Library.Table
import Mathlib.Data.Fin.Basic
import Mathlib.Data.List.Lex
import Mathlib.Data.List.Sort

/-!
# What the id of an artifact is made from

The id of an artifact is the hash of a text that is made from its node, its kind and version,
where it comes from, and the hash of its payload. The hash of a payload is that of a text of it,
in which the keys of objects are sorted, so that a payload that is produced again gets the same
one, in whatever order its keys come.

The texts are told apart: two values of JSON have one text exactly if they are equal but for the
order of keys. So artifacts that differ in one of the things the id is made from are not taken
for each other before they are hashed, and a retry upserts the row that it has written.
-/

namespace ArtifactHash

open JsText PrefixCode

/-- A value, as far as its text depends on it. -/
inductive JsValue (ν : Type) where
  | undefined
  | null
  | boolean (b : Bool)
  | number (x : ν)
  /-- Not a number, or an infinite one. -/
  | notFinite
  | bigint (z : ℤ)
  /-- A function or a symbol, by what `String` makes of it. -/
  | described (text : JsString)
  | string (s : JsString)
  | array (items : List (JsValue ν))
  /-- An object, by its properties in their order. -/
  | object (properties : List (JsString × JsValue ν))

variable {ν : Type} (format : NumberFormat ν)

/-- The keys of an object in order. -/
def sortedKeys {α : Type} (properties : List (JsString × α)) : List JsString :=
  (properties.map Prod.fst).mergeSort

/-- The digits of an integer. -/
def bigintText (z : ℤ) : JsString :=
  units ((if z < 0 then ['-'] else []) ++ Nat.toDigits 10 z.natAbs)

def undefinedText : JsString := quote (units "__undefined__".toList)

def nullText : JsString := units ['n', 'u', 'l', 'l']

def booleanText (b : Bool) : JsString :=
  units (if b then ['t', 'r', 'u', 'e'] else ['f', 'a', 'l', 's', 'e'])

mutual

def stableJsonStringify : JsValue ν → JsString
  | .undefined => undefinedText
  | .bigint z => quote (bigintText z)
  | .described text => quote text
  | .null => nullText
  | .notFinite => nullText
  | .boolean b => booleanText b
  | .number x => format.toString x
  | .string s => quote s
  | .array items => unit '[' :: ([unit ','].intercalate (itemTexts items) ++ [unit ']'])
  | .object properties =>
    unit '{' :: ([unit ','].intercalate ((sortedKeys properties).map fun key =>
      quote key ++ unit ':' :: ((propertyTexts properties).lookup key).getD undefinedText)
      ++ [unit '}'])

/-- The texts of the items of an array. -/
def itemTexts : List (JsValue ν) → List JsString
  | [] => []
  | x :: items => stableJsonStringify x :: itemTexts items

/-- The texts of the properties of an object. -/
def propertyTexts : List (JsString × JsValue ν) → List (JsString × JsString)
  | [] => []
  | (key, x) :: properties => (key, stableJsonStringify x) :: propertyTexts properties

end

/-- **A value of JSON.** -/
inductive IsJson : JsValue ν → Prop
  | null : IsJson .null
  | boolean (b : Bool) : IsJson (.boolean b)
  | number (x : ν) : IsJson (.number x)
  | string (s : JsString) : IsJson (.string s)
  | array {items : List (JsValue ν)} (h : ∀ x ∈ items, IsJson x) : IsJson (.array items)
  | object {properties : List (JsString × JsValue ν)} (hkeys : (properties.map Prod.fst).Nodup)
      (h : ∀ p ∈ properties, IsJson p.2) : IsJson (.object properties)

/-- **Values are equal up to the order of keys**, of the objects in them too. -/
inductive EqualUpToOrder : JsValue ν → JsValue ν → Prop
  | refl (x : JsValue ν) : EqualUpToOrder x x
  | array {xs ys : List (JsValue ν)} (hlength : xs.length = ys.length)
      (h : ∀ x y, (x, y) ∈ xs.zip ys → EqualUpToOrder x y) : EqualUpToOrder (.array xs) (.array ys)
  | object {ps qs : List (JsString × JsValue ν)}
      (hkeys : (ps.map Prod.fst).Perm (qs.map Prod.fst))
      (h : ∀ key x y, (key, x) ∈ ps → (key, y) ∈ qs → EqualUpToOrder x y) :
      EqualUpToOrder (.object ps) (.object qs)

/-! ## The id of an artifact -/

/-- What an id is made from. A field that is missing counts as one that is null. -/
structure ArtifactIdInput (ν : Type) where
  nodeId : JsString
  artifactKind : JsString
  artifactVersion : JsString
  sourceUri : Option JsString := none
  sourceHash : Option JsString := none
  data : JsValue ν := .undefined

/-- The value, or another one in the place of nothing. -/
def JsValue.orElse (x other : JsValue ν) : JsValue ν :=
  match x with
  | .undefined => other
  | .null => other
  | x => x

/-- A text that may be missing. -/
def orNull : Option JsString → JsValue ν
  | none => .null
  | some s => .string s

variable (sha256 : JsString → JsString)

def hashArtifactPayload (data : JsValue ν) : JsString := sha256 (stableJsonStringify format data)

namespace ArtifactIdInput

/-- The hash that an id is made from. -/
def hash (input : ArtifactIdInput ν) : JsString :=
  input.sourceHash.getD (hashArtifactPayload format sha256 (input.data.orElse (.object [])))

/-- The object that an id is made from. -/
def identity (input : ArtifactIdInput ν) : JsValue ν :=
  .object
    [(units "nodeId".toList, .string input.nodeId),
      (units "artifactKind".toList, .string input.artifactKind),
      (units "artifactVersion".toList, .string input.artifactVersion),
      (units "sourceUri".toList, orNull input.sourceUri),
      (units "sourceHash".toList, .string (input.hash format sha256))]

def material (input : ArtifactIdInput ν) : JsString :=
  stableJsonStringify format (input.identity format sha256)

end ArtifactIdInput

def createArtifactId (input : ArtifactIdInput ν) : JsString :=
  units "artifact:".toList ++ sha256 (input.material format sha256)

/-! ## Upserts -/

/-- The input of `createArtifact`, as far as the id depends on it. The id of the node is a
normal one. -/
structure CreateArtifactInput (ν : Type) where
  id : Option JsString := none
  nodeId : JsString
  artifactKind : JsString
  artifactVersion : JsString
  sourceUri : Option JsString := none
  sourceHash : Option JsString := none
  data : JsValue ν

/-- The id of the row of an artifact. -/
def CreateArtifactInput.artifactId (input : CreateArtifactInput ν) : JsString :=
  let sourceHash := input.sourceHash.getD (hashArtifactPayload format sha256 input.data)
  input.id.getD (createArtifactId format sha256
    { nodeId := input.nodeId, artifactKind := input.artifactKind
      artifactVersion := input.artifactVersion, sourceUri := input.sourceUri
      sourceHash := some sourceHash })

/-- The upsert, and the id that is returned. What the row becomes is any function of the row
that is there. -/
def createArtifact {ρ : Type} (columns : Option ρ → ρ) (db : Table JsString ρ)
    (input : CreateArtifactInput ν) : Table JsString ρ × JsString :=
  let artifactId := input.artifactId format sha256
  (db.upsert artifactId columns, artifactId)

/-- An artifact of an enrichment. -/
structure NodeEnrichmentArtifactInput (ν : Type) where
  artifactKind : JsString
  artifactVersion : Option JsString := none
  sourceUri : Option JsString := none
  sourceHash : Option JsString := none
  data : JsValue ν
  «meta» : JsValue ν := .undefined
  extracted : JsValue ν := .undefined
  error : JsValue ν := .undefined

/-- What is hashed of an artifact of an enrichment. -/
def NodeEnrichmentArtifactInput.payload (artifact : NodeEnrichmentArtifactInput ν) : JsValue ν :=
  .object
    [(units "data".toList, artifact.data),
      (units "extracted".toList, artifact.extracted.orElse (.object [])),
      (units "error".toList, artifact.error.orElse .null)]

def stableEnrichmentArtifactSourceHash (artifact : NodeEnrichmentArtifactInput ν) : JsString :=
  hashArtifactPayload format sha256 artifact.payload

/-- What the artifacts of one run have in common. The last four belong to the run. -/
structure EnrichmentRun (ν : Type) where
  nodeId : JsString
  artifactVersion : JsString
  targetUrl : Option JsString := none
  traceId : JsValue ν := .undefined
  timings : JsValue ν := .undefined
  errors : JsValue ν := .undefined
  skipped : JsValue ν := .undefined

/-- The artifact that is created for one of an enrichment. -/
def persistedArtifact (run : EnrichmentRun ν) (artifact : NodeEnrichmentArtifactInput ν) :
    CreateArtifactInput ν where
  nodeId := run.nodeId
  artifactKind := artifact.artifactKind
  artifactVersion := artifact.artifactVersion.getD run.artifactVersion
  sourceUri := artifact.sourceUri <|> run.targetUrl
  sourceHash := some
    (artifact.sourceHash.getD (stableEnrichmentArtifactSourceHash format sha256 artifact))
  data := .object
    [(units "classification".toList, .string artifact.artifactKind),
      (units "data".toList, artifact.data), (units "meta".toList, artifact.«meta»),
      (units "traceId".toList, run.traceId), (units "timings".toList, run.timings),
      (units "errors".toList, run.errors), (units "skipped".toList, run.skipped)]

/-! ## The parts of a text -/

theorem itemTexts_eq (items : List (JsValue ν)) :
    itemTexts format items = items.map (stableJsonStringify format) := by
  induction items with
  | nil => rfl
  | cons x items ih => rw [itemTexts, ih, List.map_cons]

theorem lookup_propertyTexts (properties : List (JsString × JsValue ν)) (key : JsString) :
    (propertyTexts format properties).lookup key
      = (properties.lookup key).map (stableJsonStringify format) := by
  induction properties with
  | nil => rfl
  | cons p properties ih =>
    obtain ⟨key', x⟩ := p
    rw [propertyTexts, List.lookup_cons, List.lookup_cons, ih]
    split <;> rfl

/-- The properties of an object in the order of their keys. -/
def sortedProperties {α : Type} (properties : List (JsString × α)) : List (JsString × α) :=
  (sortedKeys properties).filterMap fun key => (properties.lookup key).map (key, ·)

section Properties

variable {α : Type} {properties : List (JsString × α)} {key : JsString} {x y : α}

theorem mem_of_lookup (h : properties.lookup key = some x) : (key, x) ∈ properties := by
  obtain ⟨before, after, hsplit, -⟩ := List.lookup_eq_some_iff.mp h
  exact hsplit ▸ List.mem_append_right _ List.mem_cons_self

theorem lookup_of_mem (hkeys : (properties.map Prod.fst).Nodup) (h : (key, x) ∈ properties) :
    properties.lookup key = some x := by
  obtain ⟨before, after, rfl⟩ := List.append_of_mem h
  refine List.lookup_eq_some_iff.mpr ⟨before, after, rfl, fun p hp => ?_⟩
  rw [List.map_append, List.nodup_append] at hkeys
  have hne := hkeys.2.2 p.1 (List.mem_map_of_mem hp) key List.mem_cons_self
  exact bne_iff_ne.mpr hne.symm

/-- A key has one value. -/
theorem eq_of_mem (hkeys : (properties.map Prod.fst).Nodup) (hx : (key, x) ∈ properties)
    (hy : (key, y) ∈ properties) : x = y :=
  Option.some.inj ((lookup_of_mem hkeys hx).symm.trans (lookup_of_mem hkeys hy))

theorem exists_lookup (h : key ∈ properties.map Prod.fst) :
    ∃ x, properties.lookup key = some x := by
  cases hx : properties.lookup key with
  | some x => exact ⟨x, rfl⟩
  | none =>
    obtain ⟨p, hp, rfl⟩ := List.mem_map.mp h
    have hne := List.lookup_eq_none_iff.mp hx p hp
    exact absurd rfl (bne_iff_ne.mp hne)

theorem mem_sortedKeys : key ∈ sortedKeys properties ↔ key ∈ properties.map Prod.fst :=
  List.mem_mergeSort

theorem mem_of_mem_sortedProperties (h : (key, x) ∈ sortedProperties properties) :
    (key, x) ∈ properties := by
  obtain ⟨key', -, hx⟩ := List.mem_filterMap.mp h
  obtain ⟨x', hlookup, heq⟩ := Option.map_eq_some_iff.mp hx
  cases heq
  exact mem_of_lookup hlookup

theorem mem_sortedProperties (hkeys : (properties.map Prod.fst).Nodup) (h : (key, x) ∈ properties) :
    (key, x) ∈ sortedProperties properties := by
  refine List.mem_filterMap.mpr ⟨key, mem_sortedKeys.mpr (List.mem_map_of_mem h), ?_⟩
  rw [lookup_of_mem hkeys h]
  rfl

/-- Something that is made for each sorted key from its value. -/
theorem map_sortedKeys {β : Type} (f : JsString → Option α → β) :
    (sortedKeys properties).map (fun key => f key (properties.lookup key))
      = (sortedProperties properties).map fun p => f p.1 (some p.2) := by
  unfold sortedProperties
  have hall : ∀ key ∈ sortedKeys properties, ∃ x, properties.lookup key = some x :=
    fun key hkey => exists_lookup (mem_sortedKeys.mp hkey)
  generalize sortedKeys properties = keys at hall
  induction keys with
  | nil => rfl
  | cons key keys ih =>
    obtain ⟨⟨x, hx⟩, hall⟩ := List.forall_mem_cons.mp hall
    rw [List.map_cons, ih hall, List.filterMap_cons, hx]
    rfl

theorem map_fst_sortedProperties :
    (sortedProperties properties).map Prod.fst = sortedKeys properties :=
  (map_sortedKeys fun key _ => key).symm.trans (List.map_id' _)

theorem perm_sortedKeys : (sortedKeys properties).Perm (properties.map Prod.fst) :=
  List.mergeSort_perm _ _

/-- The order of keys does not matter. -/
theorem sortedKeys_eq_iff {properties' : List (JsString × α)} :
    sortedKeys properties = sortedKeys properties'
      ↔ (properties.map Prod.fst).Perm (properties'.map Prod.fst) := by
  constructor
  · intro h
    refine perm_sortedKeys.symm.trans ?_
    rw [h]
    exact perm_sortedKeys
  · intro h
    exact (perm_sortedKeys.trans (h.trans perm_sortedKeys.symm)).eq_of_sortedLE
      List.sortedLE_mergeSort List.sortedLE_mergeSort

end Properties

/-- The text of a property. -/
def propertyText (p : JsString × JsValue ν) : JsString :=
  quote p.1 ++ unit ':' :: stableJsonStringify format p.2

theorem stableJsonStringify_array (items : List (JsValue ν)) :
    stableJsonStringify format (.array items)
      = unit '[' :: listed (stableJsonStringify format) (unit ',') (unit ']') items := by
  rw [stableJsonStringify, itemTexts_eq, listed_eq_intercalate]

theorem stableJsonStringify_object (properties : List (JsString × JsValue ν)) :
    stableJsonStringify format (.object properties) = unit '{'
      :: listed (propertyText format) (unit ',') (unit '}') (sortedProperties properties) := by
  simp only [stableJsonStringify, lookup_propertyTexts]
  rw [listed_eq_intercalate, map_sortedKeys (fun key x => quote key ++ unit ':' ::
    (x.map (stableJsonStringify format)).getD undefinedText)]
  rfl

/-! ## Texts are told apart -/

/-- What may follow the text of a value: nothing, or what separates or closes. -/
def IsFollowed : JsString → Prop := BeginsOutside (· ∉ units [',', ']', '}'])

/-- The characters that values other than words begin or end with, or are separated by. -/
def structural : List Char := [',', ']', '}', '"', '[', '{']

theorem structural_ascii : ∀ c ∈ structural, c.toNat < 128 :=
  List.all_iff_forall_prop.mp (by decide)

/-- A value that is written as a word: it has no other values in it, and is not a string. -/
inductive IsWord : JsValue ν → Prop
  | null : IsWord .null
  | boolean (b : Bool) : IsWord (.boolean b)
  | number (x : ν) : IsWord (.number x)

variable {format} {x y : JsValue ν}

variable (format) in
theorem IsWord.exists_cons (h : IsWord x) : ∃ u t, stableJsonStringify format x = u :: t
    ∧ ∀ v ∈ u :: t, v ∉ units structural := by
  have hplain : ∀ cs : List Char, (cs.all fun c => c.toNat < 128 ∧ c ∉ structural) →
      ∀ v ∈ units cs, v ∉ units structural := by
    intro cs hcs v hv
    obtain ⟨c, hc, rfl⟩ := List.mem_map.mp hv
    obtain ⟨hascii, hnot⟩ := List.all_iff_forall_prop.mp hcs c hc
    exact (mem_units hascii structural_ascii).not.mpr hnot
  cases h with
  | null => exact ⟨_, _, rfl, hplain ['n', 'u', 'l', 'l'] (by decide)⟩
  | boolean b =>
    cases b with
    | true => exact ⟨_, _, rfl, hplain ['t', 'r', 'u', 'e'] (by decide)⟩
    | false => exact ⟨_, _, rfl, hplain ['f', 'a', 'l', 's', 'e'] (by decide)⟩
  | number n =>
    obtain ⟨u, t, htext⟩ := List.exists_cons_of_ne_nil (format.toString_ne_nil n)
    refine ⟨u, t, htext, fun v hv => ?_⟩
    rw [← htext] at hv
    obtain ⟨c, hc, rfl⟩ := format.exists_of_mem_toString hv
    refine (mem_units hc.toNat_lt structural_ascii).not.mpr fun hmem => ?_
    have hnot : ∀ c ∈ structural, ¬ IsNumberChar c := List.all_iff_forall_prop.mp (by decide)
    exact hnot c hmem hc

/-- The literals are no numbers. -/
theorem toString_ne {n : ν} {c : Char} {t : JsString} (hc : c ∈ ['n', 't', 'f']) :
    format.toString n ≠ unit c :: t := by
  intro h
  obtain ⟨d, hd, heq⟩ := format.exists_of_mem_toString (h ▸ List.mem_cons_self : unit c ∈ _)
  have hmem : unit d ∈ units ['n', 't', 'f'] := heq ▸ List.mem_map_of_mem hc
  have hletters : ∀ d ∈ ['n', 't', 'f'], d.toNat < 128 ∧ ¬ IsNumberChar d :=
    List.all_iff_forall_prop.mp (by decide)
  rw [mem_units hd.toNat_lt fun d hd => (hletters d hd).1] at hmem
  exact (hletters d hmem).2 hd

theorem toString_ne_nullText {n : ν} : format.toString n ≠ nullText := toString_ne (by decide)

theorem toString_ne_booleanText {n : ν} {b : Bool} : format.toString n ≠ booleanText b := by
  cases b with
  | true => exact toString_ne (by decide)
  | false => exact toString_ne (by decide)

/-- **Words are told apart.** -/
theorem IsWord.eq_of_text_eq (hx : IsWord x) (hy : IsWord y)
    (h : stableJsonStringify format x = stableJsonStringify format y) : x = y := by
  have hnull : ∀ b, nullText ≠ booleanText b := by decide
  have hboolean : ∀ b b', booleanText b = booleanText b' → b = b' := by decide
  cases hx with
  | null =>
    cases hy with
    | null => rfl
    | boolean b => exact absurd h (hnull b)
    | number n => exact absurd h.symm toString_ne_nullText
  | boolean b =>
    cases hy with
    | null => exact absurd h.symm (hnull b)
    | boolean b' => rw [hboolean b b' h]
    | number n => exact absurd h.symm toString_ne_booleanText
  | number n =>
    cases hy with
    | null => exact absurd h toString_ne_nullText
    | boolean b => exact absurd h toString_ne_booleanText
    | number n' => rw [format.toString_injective h]

/-- The character that a value begins with, unless it is a word. -/
def opening : JsValue ν → Option Char
  | .string _ => some '"'
  | .array _ => some '['
  | .object _ => some '{'
  | _ => none

theorem IsJson.isWord (h : IsJson x) (hnone : opening x = none) : IsWord x := by
  cases h with
  | null => exact .null
  | boolean b => exact .boolean b
  | number n => exact .number n
  | string => cases hnone
  | array => cases hnone
  | object => cases hnone

variable (format) in
/-- How the text of a value begins. -/
theorem IsJson.exists_cons (h : IsJson x) : ∃ u t, stableJsonStringify format x = u :: t
    ∧ ((opening x).elim (u ∉ units structural) fun c =>
      u = unit c ∧ c ∈ ['"', '[', '{']) := by
  cases hopening : opening x with
  | none =>
    obtain ⟨u, t, htext, hword⟩ := (h.isWord hopening).exists_cons format
    exact ⟨u, t, htext, hword u List.mem_cons_self⟩
  | some c =>
    cases h with
    | null => cases hopening
    | boolean => cases hopening
    | number => cases hopening
    | string s => cases hopening; exact ⟨_, _, rfl, rfl, by decide⟩
    | array => cases hopening; exact ⟨_, _, rfl, rfl, by decide⟩
    | object => cases hopening; exact ⟨_, _, rfl, rfl, by decide⟩

/-- Values that begin differently are told apart. -/
theorem toldApart_of_opening_ne {same : Prop} (hx : IsJson x) (hy : IsJson y)
    (hne : opening x ≠ opening y) : ToldApart IsFollowed same (stableJsonStringify format x)
      (stableJsonStringify format y) := by
  obtain ⟨u, t, hxt, hu⟩ := hx.exists_cons format
  obtain ⟨v, t', hyt, hv⟩ := hy.exists_cons format
  have hunits : ∀ c ∈ ['"', '[', '{'], unit c ∈ units structural :=
    fun c hc => List.mem_map_of_mem (List.mem_append_right [',', ']', '}'] hc)
  have hascii : ∀ c ∈ ['"', '[', '{'], c.toNat < 128 := List.all_iff_forall_prop.mp (by decide)
  rw [hxt, hyt]
  refine .of_head_ne fun heq => ?_
  cases hox : opening x with
  | none =>
    cases hoy : opening y with
    | none => exact hne (hox.trans hoy.symm)
    | some d =>
      rw [hox] at hu
      rw [hoy] at hv
      exact hu (heq ▸ hv.1 ▸ hunits d hv.2)
  | some c =>
    rw [hox] at hu
    cases hoy : opening y with
    | none =>
      rw [hoy] at hv
      exact hv (heq ▸ hu.1 ▸ hunits c hu.2)
    | some d =>
      rw [hoy] at hv
      have hcd := unit_injOn (hascii c hu.2) (hascii d hv.2) (hu.1.symm.trans (heq.trans hv.1))
      exact hne (hox.trans (hcd ▸ hoy.symm))

theorem isFollowed_cons {c : Char} (hc : c ∈ [',', ']', '}']) (r : JsString) :
    IsFollowed (unit c :: r) := by
  intro v hv
  obtain rfl := Option.some.inj hv
  exact not_not.mpr (List.mem_map_of_mem hc)

/-- The text of a value does not begin like one that closes. -/
theorem IsJson.goesOn (h : IsJson x) {c : Char} (hc : c ∈ [',', ']', '}']) :
    GoesOn (stableJsonStringify format) (unit c) x := by
  obtain ⟨u, t, htext, hu⟩ := h.exists_cons format
  refine ⟨u, t, htext, ?_⟩
  rintro rfl
  cases hopening : opening x with
  | none =>
    rw [hopening] at hu
    exact hu (List.mem_map_of_mem (List.mem_append_left ['"', '[', '{'] hc))
  | some d =>
    rw [hopening] at hu
    have hcloses : ∀ c ∈ [',', ']', '}'], c.toNat < 128 ∧ c ∉ ['"', '[', '{'] :=
      List.all_iff_forall_prop.mp (by decide)
    have hopens : ∀ d ∈ ['"', '[', '{'], d.toNat < 128 := List.all_iff_forall_prop.mp (by decide)
    have hcd := unit_injOn (hcloses c hc).1 (hopens d hu.2) hu.1
    exact (hcloses c hc).2 (hcd ▸ hu.2)

/-- Properties are told apart if their values are. -/
theorem toldApart_propertyText {p q : JsString × JsValue ν} {same : Prop}
    (h : ToldApart IsFollowed same (stableJsonStringify format p.2)
      (stableJsonStringify format q.2)) :
    ToldApart IsFollowed (p.1 = q.1 ∧ same) (propertyText format p) (propertyText format q) :=
  (toldApart_quote p.1 q.1).append (h.cons (unit ':')) (fun _ _ => trivial) fun _ _ => trivial

theorem exists_of_forall₂ {α β : Type} {R : α → β → Prop} {as : List α} {bs : List β}
    (h : List.Forall₂ R as bs) {a : α} (ha : a ∈ as) : ∃ b ∈ bs, R a b := by
  induction h with
  | nil => cases ha
  | cons hab _ ih =>
    obtain rfl | ha := List.mem_cons.mp ha
    · exact ⟨_, List.mem_cons_self, hab⟩
    · obtain ⟨b, hb, hab⟩ := ih ha
      exact ⟨b, List.mem_cons_of_mem _ hb, hab⟩

/-- Objects whose sorted properties agree are equal up to the order of keys. -/
theorem equalUpToOrder_of_sorted {ps qs : List (JsString × JsValue ν)}
    (hps : (ps.map Prod.fst).Nodup) (hqs : (qs.map Prod.fst).Nodup)
    (h : List.Forall₂ (fun p q => p.1 = q.1 ∧ EqualUpToOrder p.2 q.2) (sortedProperties ps)
      (sortedProperties qs)) : EqualUpToOrder (.object ps) (.object qs) := by
  have hkeys : (sortedProperties ps).map Prod.fst = (sortedProperties qs).map Prod.fst := by
    rw [← List.forall₂_eq_eq_eq, List.forall₂_map_left_iff, List.forall₂_map_right_iff]
    exact h.imp fun _ _ hpq => hpq.1
  rw [map_fst_sortedProperties, map_fst_sortedProperties] at hkeys
  refine .object (sortedKeys_eq_iff.mp hkeys) fun key x y hx hy => ?_
  obtain ⟨⟨key', y'⟩, hy', hkey, hxy⟩ := exists_of_forall₂ h (mem_sortedProperties hps hx)
  cases hkey
  rw [eq_of_mem hqs hy (mem_of_mem_sortedProperties hy')]
  exact hxy

/-- A word ends where something separates or closes. -/
theorem IsWord.toldApart (hx : IsWord x) (hy : IsWord y) : ToldApart IsFollowed
    (EqualUpToOrder x y) (stableJsonStringify format x) (stableJsonStringify format y) := by
  have hplain : ∀ {z : JsValue ν}, IsWord z → ∀ v ∈ stableJsonStringify format z,
      v ∉ units [',', ']', '}'] := by
    intro z hz v hv hmem
    obtain ⟨u, t, htext, hu⟩ := hz.exists_cons format
    rw [htext] at hv
    obtain ⟨c, hc, rfl⟩ := List.mem_map.mp hmem
    exact hu _ hv (List.mem_map_of_mem (List.mem_append_left ['"', '[', '{'] hc))
  refine (toldApart_run (hplain hx) (hplain hy)).mono (fun _ => id) fun heq => ?_
  rw [hx.eq_of_text_eq hy heq]
  exact .refl y

/-- Only values that begin with one character are still to be told apart. -/
theorem toldApart_of_opening (hx : IsJson x) (hy : IsJson y)
    (h : opening x = opening y → ToldApart IsFollowed (EqualUpToOrder x y)
      (stableJsonStringify format x) (stableJsonStringify format y)) :
    ToldApart IsFollowed (EqualUpToOrder x y) (stableJsonStringify format x)
      (stableJsonStringify format y) := by
  by_cases hopening : opening x = opening y
  · exact h hopening
  · exact toldApart_of_opening_ne hx hy hopening

/-- **Values of JSON are told apart by their texts**, up to the order of keys. -/
theorem toldApart_stableJsonStringify (hx : IsJson x) (hy : IsJson y) :
    ToldApart IsFollowed (EqualUpToOrder x y) (stableJsonStringify format x)
      (stableJsonStringify format y) := by
  have hseparator : ∀ r, IsFollowed (unit ',' :: r) := isFollowed_cons (by decide)
  induction hx generalizing y with
  | null =>
    refine toldApart_of_opening .null hy fun hopening => ?_
    exact IsWord.null.toldApart (hy.isWord hopening.symm)
  | boolean b =>
    refine toldApart_of_opening (.boolean b) hy fun hopening => ?_
    exact (IsWord.boolean b).toldApart (hy.isWord hopening.symm)
  | number n =>
    refine toldApart_of_opening (.number n) hy fun hopening => ?_
    exact (IsWord.number n).toldApart (hy.isWord hopening.symm)
  | string s =>
    refine toldApart_of_opening (.string s) hy fun hopening => ?_
    cases hy with
    | string s' => exact (toldApart_quote s s').mono (fun _ _ => trivial) fun heq => heq ▸ .refl _
    | _ => cases hopening
  | @array items hitems ih =>
    refine toldApart_of_opening (.array hitems) hy fun hopening => ?_
    cases hy with
    | array hitems' =>
      have hne : unit ',' ≠ unit ']' := by decide
      have hlisted := toldApart_listed hne hseparator (isFollowed_cons (by decide))
        (fun x hx => (hitems x hx).goesOn (by decide))
        (fun y hy => (hitems' y hy).goesOn (by decide)) fun x hx y hy => ih x hx (hitems' y hy)
      rw [stableJsonStringify_array, stableJsonStringify_array]
      refine (hlisted.mono (fun _ _ => trivial) fun h => ?_).cons _
      obtain ⟨hlength, hzip⟩ := List.forall₂_iff_zip.mp h
      exact .array hlength fun x y hxy => hzip hxy
    | _ => cases hopening
  | @object properties hkeys hvalues ih =>
    refine toldApart_of_opening (.object hkeys hvalues) hy fun hopening => ?_
    cases hy with
    | object hkeys' hvalues' =>
      have hquote : ∀ p : JsString × JsValue ν,
          GoesOn (propertyText format) (unit '}') p := fun p => ⟨_, _, rfl, by decide⟩
      have hne : unit ',' ≠ unit '}' := by decide
      have hlisted := toldApart_listed hne hseparator (isFollowed_cons (by decide))
        (fun p _ => hquote p) (fun q _ => hquote q)
        fun p hp q hq => toldApart_propertyText (ih p (mem_of_mem_sortedProperties hp)
          (hvalues' q (mem_of_mem_sortedProperties hq)))
      rw [stableJsonStringify_object, stableJsonStringify_object]
      refine (hlisted.mono (fun _ _ => trivial) fun h => ?_).cons _
      exact equalUpToOrder_of_sorted hkeys hkeys' h
    | _ => cases hopening

/-- **Values that are equal up to the order of keys have one text.** -/
theorem EqualUpToOrder.text_eq (h : EqualUpToOrder x y) (hx : IsJson x) (hy : IsJson y) :
    stableJsonStringify format x = stableJsonStringify format y := by
  induction h with
  | refl => rfl
  | @array xs ys hlength _ ih =>
    cases hx with
    | array hitems =>
      cases hy with
      | array hitems' =>
        have htexts : xs.map (stableJsonStringify format)
            = ys.map (stableJsonStringify format) := by
          rw [← List.forall₂_eq_eq_eq, List.forall₂_map_left_iff, List.forall₂_map_right_iff]
          exact List.forall₂_iff_zip.mpr ⟨hlength, fun {x y} hxy => ih x y hxy
            (hitems x (List.of_mem_zip hxy).1) (hitems' y (List.of_mem_zip hxy).2)⟩
        rw [stableJsonStringify, stableJsonStringify, itemTexts_eq, itemTexts_eq, htexts]
  | @object ps qs hperm _ ih =>
    cases hx with
    | object hkeys hvalues =>
      cases hy with
      | object hkeys' hvalues' =>
        have hsorted := sortedKeys_eq_iff.mpr hperm
        simp only [stableJsonStringify, lookup_propertyTexts]
        rw [← hsorted]
        congr 3
        refine List.map_congr_left fun key hkey => ?_
        obtain ⟨a, ha⟩ := exists_lookup (mem_sortedKeys.mp hkey)
        obtain ⟨b, hb⟩ := exists_lookup (mem_sortedKeys.mp (hsorted ▸ hkey))
        rw [ha, hb]
        have hab := ih key a b (mem_of_lookup ha) (mem_of_lookup hb)
          (hvalues _ (mem_of_lookup ha)) (hvalues' _ (mem_of_lookup hb))
        rw [Option.map_some, Option.map_some, hab]

/-- **Two values of JSON have one text** exactly if they are equal up to the order of keys. -/
theorem text_eq_iff (hx : IsJson x) (hy : IsJson y) :
    stableJsonStringify format x = stableJsonStringify format y ↔ EqualUpToOrder x y := by
  refine ⟨(toldApart_stableJsonStringify hx hy).of_eq ?_, fun h => h.text_eq hx hy⟩
  intro c hc
  cases hc

example : stableJsonStringify .integers (.array [.null, .string (units ['"']), .number (-3)])
    = units "[null,\"\\\"\",-3]".toList := by decide +kernel

/-! ## Artifacts are told apart -/

variable {sha256 : JsString → JsString}

/-- Equal objects have equal values at a key. -/
theorem EqualUpToOrder.value {ps qs : List (JsString × JsValue ν)} {key : JsString}
    (h : EqualUpToOrder (.object ps) (.object qs)) (hkeys : (ps.map Prod.fst).Nodup) (i : ℕ)
    (hx : ps[i]? = some (key, x)) (hy : qs[i]? = some (key, y)) : EqualUpToOrder x y := by
  have hx := List.mem_of_getElem? hx
  have hy := List.mem_of_getElem? hy
  cases h with
  | refl =>
    rw [eq_of_mem hkeys hx hy]
    exact .refl y
  | object _ h => exact h key x y hx hy

theorem EqualUpToOrder.eq_of_string {s s' : JsString}
    (h : EqualUpToOrder (.string s : JsValue ν) (.string s')) : s = s' := by
  cases h
  rfl

theorem EqualUpToOrder.eq_of_orNull {s s' : Option JsString}
    (h : EqualUpToOrder (orNull s : JsValue ν) (orNull s')) : s = s' := by
  cases s with
  | none =>
    cases s' with
    | none => rfl
    | some t => cases h
  | some t =>
    cases s' with
    | none => cases h
    | some t' => rw [EqualUpToOrder.eq_of_string h]

theorem isJson_orNull (s : Option JsString) : IsJson (orNull s : JsValue ν) := by
  cases s with
  | none => exact .null
  | some s => exact .string s

namespace ArtifactIdInput

variable {input input' : ArtifactIdInput ν}

/-- The keys of what an id is made from. -/
theorem nodup_keys : [units "nodeId".toList, units "artifactKind".toList,
    units "artifactVersion".toList, units "sourceUri".toList, units "sourceHash".toList].Nodup := by
  decide +kernel

theorem isJson_identity (input : ArtifactIdInput ν) : IsJson (input.identity format sha256) := by
  refine .object nodup_keys ?_
  simp only [List.forall_mem_cons]
  exact ⟨.string _, .string _, .string _, isJson_orNull _, .string _, by simp⟩

/-- Two inputs name one artifact. -/
structure Same (format : NumberFormat ν) (sha256 : JsString → JsString)
    (input input' : ArtifactIdInput ν) : Prop where
  nodeId : input.nodeId = input'.nodeId
  artifactKind : input.artifactKind = input'.artifactKind
  artifactVersion : input.artifactVersion = input'.artifactVersion
  sourceUri : input.sourceUri = input'.sourceUri
  hash : input.hash format sha256 = input'.hash format sha256

/-- **The material of an id tells the artifact.** -/
theorem material_eq_iff :
    input.material format sha256 = input'.material format sha256
      ↔ input.Same format sha256 input' := by
  unfold material
  rw [text_eq_iff (isJson_identity input) (isJson_identity input')]
  constructor
  · intro h
    exact ⟨(h.value nodup_keys 0 rfl rfl).eq_of_string,
      (h.value nodup_keys 1 rfl rfl).eq_of_string, (h.value nodup_keys 2 rfl rfl).eq_of_string,
      (h.value nodup_keys 3 rfl rfl).eq_of_orNull, (h.value nodup_keys 4 rfl rfl).eq_of_string⟩
  · intro h
    have hidentity : input.identity format sha256 = input'.identity format sha256 := by
      rw [identity, identity, h.nodeId, h.artifactKind, h.artifactVersion, h.sourceUri, h.hash]
    rw [hidentity]
    exact .refl _

end ArtifactIdInput

/-! ## Retries -/

/-- Equal payloads have one hash. -/
theorem hashArtifactPayload_eq (h : EqualUpToOrder x y) (hx : IsJson x) (hy : IsJson y) :
    hashArtifactPayload format sha256 x = hashArtifactPayload format sha256 y :=
  congrArg sha256 (h.text_eq hx hy)

/-- A retry of an artifact: its payload is produced again, with its keys in any order. -/
structure CreateArtifactInput.IsRetry (first retry : CreateArtifactInput ν) : Prop where
  id : retry.id = first.id
  nodeId : retry.nodeId = first.nodeId
  artifactKind : retry.artifactKind = first.artifactKind
  artifactVersion : retry.artifactVersion = first.artifactVersion
  sourceUri : retry.sourceUri = first.sourceUri
  sourceHash : retry.sourceHash = first.sourceHash
  isJson : IsJson first.data
  isJson' : IsJson retry.data
  data : EqualUpToOrder retry.data first.data

/-- A retry of an artifact of an enrichment. -/
structure NodeEnrichmentArtifactInput.IsRetry (first retry : NodeEnrichmentArtifactInput ν) :
    Prop where
  artifactKind : retry.artifactKind = first.artifactKind
  artifactVersion : retry.artifactVersion = first.artifactVersion
  sourceUri : retry.sourceUri = first.sourceUri
  sourceHash : retry.sourceHash = first.sourceHash
  isJson : IsJson first.payload
  isJson' : IsJson retry.payload
  payload : EqualUpToOrder retry.payload first.payload

/-- **A retry upserts the row that is there**, and no other row. -/
def UpsertsSameRow (format : NumberFormat ν) (sha256 : JsString → JsString)
    (first retry : CreateArtifactInput ν) : Prop :=
  ∀ {ρ : Type} (columns columns' : Option ρ → ρ) (db : Table JsString ρ),
    let created := createArtifact format sha256 columns db first
    let retried := createArtifact format sha256 columns' created.1 retry
    retried.2 = created.2 ∧ created.2 ∈ created.1
      ∧ ∀ id, id ≠ created.2 → retried.1.lookup id = created.1.lookup id

theorem upsertsSameRow {first retry : CreateArtifactInput ν}
    (h : retry.artifactId format sha256 = first.artifactId format sha256) :
    UpsertsSameRow format sha256 first retry := by
  intro ρ columns columns' db created retried
  refine ⟨h, Table.mem_upsert.mpr (.inl rfl), fun id hid => ?_⟩
  have hne : id ≠ retry.artifactId format sha256 := fun heq => hid (heq.trans h)
  exact (Table.lookup_upsert _ _ _ _).trans (if_neg hne)

theorem CreateArtifactInput.IsRetry.artifactId_eq {first retry : CreateArtifactInput ν}
    (h : first.IsRetry retry) :
    retry.artifactId format sha256 = first.artifactId format sha256 := by
  unfold CreateArtifactInput.artifactId
  rw [h.id, h.nodeId, h.artifactKind, h.artifactVersion, h.sourceUri, h.sourceHash,
    hashArtifactPayload_eq h.data h.isJson' h.isJson]

theorem NodeEnrichmentArtifactInput.IsRetry.artifactId_eq {run run' : EnrichmentRun ν}
    {first retry : NodeEnrichmentArtifactInput ν} (h : first.IsRetry retry)
    (hnode : run'.nodeId = run.nodeId) (hversion : run'.artifactVersion = run.artifactVersion)
    (htarget : run'.targetUrl = run.targetUrl) :
    (persistedArtifact format sha256 run' retry).artifactId format sha256
      = (persistedArtifact format sha256 run first).artifactId format sha256 := by
  have hhash : stableEnrichmentArtifactSourceHash format sha256 retry
      = stableEnrichmentArtifactSourceHash format sha256 first :=
    hashArtifactPayload_eq h.payload h.isJson' h.isJson
  unfold CreateArtifactInput.artifactId persistedArtifact
  simp only [hnode, hversion, htarget, hhash, h.artifactKind, h.artifactVersion, h.sourceUri,
    h.sourceHash, Option.getD_some]

/-- **Artifact hashing is canonical.** -/
structure IsCanonical (format : NumberFormat ν) (sha256 : JsString → JsString) : Prop where
  text : ∀ x y, IsJson x → IsJson y →
    (stableJsonStringify format x = stableJsonStringify format y ↔ EqualUpToOrder x y)
  material : ∀ input input' : ArtifactIdInput ν,
    input.material format sha256 = input'.material format sha256 ↔ input.Same format sha256 input'
  retry : ∀ first retry : CreateArtifactInput ν, first.IsRetry retry →
    UpsertsSameRow format sha256 first retry
  /-- A retry may be one of another run. -/
  enrichmentRetry : ∀ (run run' : EnrichmentRun ν) (first retry : NodeEnrichmentArtifactInput ν),
    run'.nodeId = run.nodeId → run'.artifactVersion = run.artifactVersion →
    run'.targetUrl = run.targetUrl → first.IsRetry retry →
    UpsertsSameRow format sha256 (persistedArtifact format sha256 run first)
      (persistedArtifact format sha256 run' retry)

/-- **Payloads are told by their texts, artifacts by what their ids are made from**, and a retry
upserts the row of the artifact that it creates again. -/
theorem artifactHashing_canonical (format : NumberFormat ν) (sha256 : JsString → JsString) :
    IsCanonical format sha256 where
  text _ _ hx hy := text_eq_iff hx hy
  material _ _ := ArtifactIdInput.material_eq_iff
  retry _ _ h := upsertsSameRow h.artifactId_eq
  enrichmentRetry _ _ _ _ hnode hversion htarget h :=
    upsertsSameRow (h.artifactId_eq hnode hversion htarget)

end ArtifactHash
