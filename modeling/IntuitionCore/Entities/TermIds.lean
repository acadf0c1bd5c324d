import IntuitionCore.Entities.Actions
import Mathlib.Tactic.IntervalCases

/-!
# One term, one key

Rows are keyed by the ids of terms, which are texts. A text is normalized first: the
spaces around it and the prefix `atom:` or `triple:` are removed, and the rest has to be
32 bytes in hexadecimal digits. The digits are kept as they are written, in either case.

So two texts may stand for the same bytes and be two keys. They are one key, and the one
that the protocol computes, exactly if no letter of either is upper-case.
-/

/-- The bytes that the id of a term stands for. -/
def termBytes (id : String) : Option (List UInt8) := hexDecode (id.toList.drop 2)

/-- No letter of a text is upper-case. -/
def IsLowerCase (s : String) : Prop := ∀ c ∈ s.toList, c.isUpper = false

instance (s : String) : Decidable (IsLowerCase s) :=
  List.decidableBAll (fun c : Char => c.isUpper = false) s.toList

/-- **A key of a term**: its 32 bytes in lower-case digits. -/
def IsTermKey (id : String) : Prop := isProtocolTermId id.toList = true ∧ IsLowerCase id

instance (id : String) : Decidable (IsTermKey id) := inferInstanceAs (Decidable (_ ∧ _))

/-- What is assumed of the ids that the protocol computes. -/
structure ProtocolIds.AreKeys (ids : ProtocolIds) : Prop where
  atom : ∀ atomData, IsTermKey (ids.calculateAtomId atomData)
  triple : ∀ subject predicate object,
    IsTermKey (ids.calculateTripleId subject predicate object)

/-! ## Digits -/

/-- The hexadecimal digits. -/
def hexChars : List Char :=
  ['0', '1', '2', '3', '4', '5', '6', '7', '8', '9', 'a', 'b', 'c', 'd', 'e', 'f',
    'A', 'B', 'C', 'D', 'E', 'F']

/-- The lower-case digits of a byte. -/
def hexLower (b : UInt8) : List Char :=
  [hexChars.getD (b / 16).toNat '0', hexChars.getD (b % 16).toNat '0']

theorem mem_hexChars {c : Char} (h : (hexDigit? c).isSome = true) : c ∈ hexChars := by
  obtain ⟨n, hn⟩ : ∃ n, c.toNat = n := ⟨_, rfl⟩
  have hc : c = Char.ofNat n := by rw [← hn, Char.ofNat_toNat]
  have hrange : 48 ≤ n ∧ n ≤ 57 ∨ 97 ≤ n ∧ n ≤ 102 ∨ 65 ≤ n ∧ n ≤ 70 := by
    rw [← hn]
    unfold hexDigit? at h
    split at h
    · next hdigit => exact .inl hdigit
    split at h
    · next hlower => exact .inr (.inl hlower)
    split at h
    · next hupper => exact .inr (.inr hupper)
    · cases h
  subst hc
  obtain ⟨hlo, hhi⟩ | ⟨hlo, hhi⟩ | ⟨hlo, hhi⟩ := hrange <;> clear hn h <;>
    interval_cases n <;> decide

/-- A byte has the digits that it was read from, in lower case. -/
theorem hexLower_of_digits {c d : Char} {x y : UInt8} (hx : hexDigit? c = some x)
    (hy : hexDigit? d = some y) : hexLower (x * 16 + y) = [c.toLower, d.toLower] := by
  have hdigits : (hexChars.all fun c => hexChars.all fun d => (hexDigit? c).all fun x =>
      (hexDigit? d).all fun y => hexLower (x * 16 + y) == [c.toLower, d.toLower]) = true := by
    decide +kernel
  have hc := List.all_eq_true.mp hdigits c (mem_hexChars (Option.isSome_of_eq_some hx))
  have hd := List.all_eq_true.mp hc d (mem_hexChars (Option.isSome_of_eq_some hy))
  rw [hx, hy] at hd
  exact beq_iff_eq.mp hd

/-- **Bytes have the digits that they were read from**, in lower case. -/
theorem map_toLower_of_hexDecode {cs : List Char} {bytes : List UInt8}
    (h : hexDecode cs = some bytes) : cs.map Char.toLower = bytes.flatMap hexLower := by
  fun_induction hexDecode cs generalizing bytes with
  | case1 =>
    cases h
    rfl
  | case2 c => cases h
  | case3 c d cs ih =>
    obtain ⟨x, hx, h⟩ := Option.bind_eq_some_iff.mp h
    obtain ⟨y, hy, h⟩ := Option.bind_eq_some_iff.mp h
    obtain ⟨rest, hrest, h⟩ := Option.bind_eq_some_iff.mp h
    cases h
    rw [List.flatMap_cons, hexLower_of_digits hx hy, ← ih hrest]
    rfl

/-- An even number of digits is read. -/
theorem isSome_hexDecode {cs : List Char} (heven : 2 ∣ cs.length)
    (h : ∀ c ∈ cs, (hexDigit? c).isSome = true) : (hexDecode cs).isSome = true := by
  fun_induction hexDecode cs with
  | case1 => rfl
  | case2 c => exact absurd heven (show ¬ 2 ∣ 1 by decide)
  | case3 c d cs ih =>
    obtain ⟨hc, h⟩ := List.forall_mem_cons.mp h
    obtain ⟨hd, h⟩ := List.forall_mem_cons.mp h
    obtain ⟨x, hx⟩ := Option.isSome_iff_exists.mp hc
    obtain ⟨y, hy⟩ := Option.isSome_iff_exists.mp hd
    obtain ⟨rest, hrest⟩ := Option.isSome_iff_exists.mp (ih (by simpa using heven) h)
    simp [hx, hy, hrest]

/-- A letter that is not upper-case is its own lower-case letter. -/
theorem toLower_eq_self {c : Char} (h : c.isUpper = false) : c.toLower = c := by
  unfold Char.toLower
  exact dif_neg (of_decide_eq_false h)

/-- **Keys that stand for the same bytes are equal.** -/
theorem IsTermKey.eq_of_termBytes {a b : String} (ha : IsTermKey a) (hb : IsTermKey b)
    (h : termBytes a = termBytes b) : a = b := by
  have hdigits : ∀ id, IsTermKey id → ∃ bytes, termBytes id = some bytes
      ∧ id.toList = '0' :: 'x' :: bytes.flatMap hexLower := by
    rintro id ⟨hid, hlower⟩
    unfold isProtocolTermId at hid
    split at hid
    · next digits hid' =>
      rw [Bool.and_eq_true, beq_iff_eq, List.all_eq_true] at hid
      obtain ⟨hlength, hhex⟩ := hid
      obtain ⟨bytes, hbytes⟩ := Option.isSome_iff_exists.mp
        (isSome_hexDecode (hlength ▸ by decide) hhex)
      refine ⟨bytes, ?_, ?_⟩
      · rw [termBytes, hid']
        exact hbytes
      · rw [hid', ← map_toLower_of_hexDecode hbytes]
        have hdigits : digits.map Char.toLower = digits.map fun c => c := by
          refine List.map_congr_left fun c hc => toLower_eq_self (hlower c ?_)
          rw [hid']
          exact List.mem_cons_of_mem _ (List.mem_cons_of_mem _ hc)
        rw [hdigits, List.map_id']
    · cases hid
  obtain ⟨bytes, habytes, ha⟩ := hdigits a ha
  obtain ⟨bytes', hbbytes, hb⟩ := hdigits b hb
  obtain rfl := Option.some.inj (habytes.symm.trans (h.trans hbbytes))
  exact String.toList_inj.mp (ha.trans hb.symm)

/-! ## Normalization -/

/-- A space is no upper-case letter. -/
theorem isUpper_of_isJsSpace {c : Char} (h : isJsSpace c = true) : c.isUpper = false := by
  by_contra hupper
  have hrange : 'A'.val ≤ c.val ∧ c.val ≤ 'Z'.val :=
    of_decide_eq_true (Bool.eq_true_of_not_eq_false hupper)
  have hge : 65 ≤ c.toNat := UInt32.le_iff_toNat_le.mp hrange.1
  have hle : c.toNat ≤ 90 := UInt32.le_iff_toNat_le.mp hrange.2
  simp only [isJsSpace, Bool.or_eq_true, Bool.and_eq_true, decide_eq_true_eq, beq_iff_eq] at h
  omega

theorem forall_mem_dropWhile_iff {p : Char → Bool} {q : Char → Prop} (h : ∀ c, p c = true → q c)
    (cs : List Char) : (∀ c ∈ cs.dropWhile p, q c) ↔ ∀ c ∈ cs, q c := by
  induction cs with
  | nil => rfl
  | cons c cs ih =>
    by_cases hc : p c = true
    · rw [List.dropWhile_cons_of_pos hc, ih, List.forall_mem_cons]
      exact (and_iff_right (h c hc)).symm
    · rw [List.dropWhile_cons_of_neg hc]

theorem isLowerCase_jsTrim (value : String) :
    (∀ c ∈ jsTrim value, c.isUpper = false) ↔ IsLowerCase value := by
  unfold jsTrim IsLowerCase
  simp only [List.mem_reverse]
  rw [forall_mem_dropWhile_iff fun c => isUpper_of_isJsSpace]
  simp only [List.mem_reverse]
  exact forall_mem_dropWhile_iff (fun c => isUpper_of_isJsSpace) value.toList

/-- What is after the colon of a prefix in lower case. -/
theorem drop_dropWhile_of_isPrefixOf {p : List Char} (hp : ':' ∉ p) {cs : List Char}
    (h : (p ++ [':']).isPrefixOf cs = true) :
    cs = p ++ ':' :: (cs.dropWhile (· ≠ ':')).drop 1 := by
  obtain ⟨rest, rfl⟩ := List.isPrefixOf_iff_prefix.mp h
  have hdrop : ((p ++ [':']) ++ rest).dropWhile (· ≠ ':') = ':' :: rest := by
    rw [List.append_assoc, List.dropWhile_append_of_pos]
    · rfl
    · intro c hc
      exact decide_eq_true fun heq => hp (heq ▸ hc)
  rw [hdrop, List.append_assoc]
  rfl

/-- **Normalization removes no letter that is upper-case, and adds none.** -/
theorem isLowerCase_of_tryNormalize {value id : String}
    (h : tryNormalizeProtocolTermId value = some id) : IsLowerCase id ↔ IsLowerCase value := by
  refine Iff.trans ?_ (isLowerCase_jsTrim value)
  unfold tryNormalizeProtocolTermId at h
  obtain ⟨-, h⟩ := Option.ite_none_right_eq_some.mp h
  rw [IsLowerCase, ← Option.some.inj h, String.toList_ofList]
  split
  · next hprefix =>
    have hsplit : ∃ p : List Char, (∀ c ∈ p, c.isUpper = false)
        ∧ jsTrim value = p ++ ((jsTrim value).dropWhile (· ≠ ':')).drop 1 := by
      obtain hatom | htriple := Bool.or_eq_true_iff.mp hprefix
      · refine ⟨"atom:".toList, (by decide : IsLowerCase "atom:"), ?_⟩
        exact drop_dropWhile_of_isPrefixOf (p := "atom".toList) (by decide) hatom
      · refine ⟨"triple:".toList, (by decide : IsLowerCase "triple:"), ?_⟩
        exact drop_dropWhile_of_isPrefixOf (p := "triple".toList) (by decide) htriple
    obtain ⟨p, hp, hvalue⟩ := hsplit
    conv_rhs => rw [hvalue]
    rw [List.forall_mem_append]
    exact (and_iff_right hp).symm
  · rfl

theorem normalizeProtocolTermId_eq_ok {value label id : String} :
    normalizeProtocolTermId value label = .ok id ↔ tryNormalizeProtocolTermId value = some id :=
  Result.okOr_eq_ok

/-- **A normal id is a key** exactly if no letter of the text is upper-case. -/
theorem isTermKey_iff {value label id : String} (h : normalizeProtocolTermId value label = .ok id) :
    IsTermKey id ↔ IsLowerCase value := by
  replace h := normalizeProtocolTermId_eq_ok.mp h
  refine Iff.trans (and_iff_right ?_) (isLowerCase_of_tryNormalize h)
  unfold tryNormalizeProtocolTermId at h
  obtain ⟨hid, h⟩ := Option.ite_none_right_eq_some.mp h
  rwa [← Option.some.inj h, String.toList_ofList]

/-! ## What is stored -/

/-- A call that stores ids of terms. -/
inductive KgCall where
  | ensureNode (input : EnsureNodeInput) (now : ℤ)
  | ensureTriple (input : EnsureTripleInput) (now : ℤ)

namespace KgCall

/-- The ids that a call is given. -/
def termIds : KgCall → List String
  | ensureNode input _ => input.id.toList
  | ensureTriple input _ => [input.subject.id, input.predicate.id, input.object.id]

/-- What a call stores; one that throws stores nothing. -/
def store (ids : ProtocolIds) (db : KgGraph) : KgCall → KgGraph
  | ensureNode input now => (ensureNodeWithCreation ids db input now).toOption.elim db Prod.fst
  | ensureTriple input now => (ensureTripleWithCreation ids db input now).toOption.elim db Prod.fst

end KgCall

/-- The ids of terms that are stored. -/
def KgGraph.termIds (db : KgGraph) : Set String :=
  { id | id ∈ db.nodes ∨ id ∈ db.triples ∨ ∃ k r, db.triples.lookup k = some r
    ∧ (id = r.subjectId ∨ id = r.predicateId ∨ id = r.objectId) }

section Stored

variable {ids : ProtocolIds} {db db' : KgGraph} {r : EnsureResult} {now : ℤ}

theorem isTermKey_createNodeId (hids : ids.AreKeys) {input : EnsureNodeInput} {nodeId : String}
    (h : createNodeId ids input = .ok nodeId) : IsTermKey nodeId := by
  unfold createNodeId at h
  split at h
  · next atomData _ =>
    obtain ⟨-, rfl⟩ := Result.ite_error_eq_ok.mp h
    exact hids.atom atomData
  · cases h

/-- What `ensureNodeWithCreation` stores. -/
theorem isTermKey_ensureNode (hids : ids.AreKeys) {input : EnsureNodeInput}
    (hinput : ∀ id ∈ input.id, IsLowerCase id) (hdb : ∀ id ∈ db.termIds, IsTermKey id)
    (h : ensureNodeWithCreation ids db input now = .ok (db', r)) :
    ∀ id ∈ db'.termIds, IsTermKey id := by
  have hstore : ∀ nodeId db₁, IsTermKey nodeId → ensureCreator db input.createdBy = .ok db₁ →
      db' = { db₁ with nodes := db₁.nodes.insertIfAbsent nodeId (ensuredNode input now) } →
      ∀ id ∈ db'.termIds, IsTermKey id := by
    rintro nodeId db₁ hkey hdb₁ rfl id (hid | hid | hid)
    · obtain rfl | hid := Table.mem_upsert.mp hid
      · exact hkey
      · exact hdb id (.inl ((ensureCreator_keeps hdb₁).1 ▸ hid))
    · exact hdb id (.inr (.inl ((ensureCreator_keeps hdb₁).2 ▸ hid)))
    · exact hdb id (.inr (.inr ((ensureCreator_keeps hdb₁).2 ▸ hid)))
  simp only [ensureNodeWithCreation] at h
  split at h
  · next id hid =>
    split at h
    · obtain ⟨nodeId, hnodeId, h⟩ := Result.bind_eq_ok.mp h
      obtain ⟨db₁, hdb₁, h⟩ := Result.bind_eq_ok.mp h
      obtain ⟨-, -, ⟨⟩⟩ := Result.bind_eq_ok.mp h
      exact hstore nodeId db₁ (isTermKey_createNodeId hids hnodeId) hdb₁ rfl
    · obtain ⟨nodeId, hnodeId, h⟩ := Result.bind_eq_ok.mp h
      obtain ⟨db₁, hdb₁, h⟩ := Result.bind_eq_ok.mp h
      obtain ⟨-, -, ⟨⟩⟩ := Result.bind_eq_ok.mp h
      exact hstore nodeId db₁ ((isTermKey_iff hnodeId).mpr (hinput id hid)) hdb₁ rfl
  · obtain ⟨nodeId, hnodeId, h⟩ := Result.bind_eq_ok.mp h
    obtain ⟨db₁, hdb₁, h⟩ := Result.bind_eq_ok.mp h
    obtain ⟨-, -, ⟨⟩⟩ := Result.bind_eq_ok.mp h
    exact hstore nodeId db₁ (isTermKey_createNodeId hids hnodeId) hdb₁ rfl

/-- What `ensureTripleWithCreation` stores. -/
theorem isTermKey_ensureTriple (hids : ids.AreKeys) {input : EnsureTripleInput}
    (hinput : ∀ id ∈ [input.subject.id, input.predicate.id, input.object.id], IsLowerCase id)
    (hdb : ∀ id ∈ db.termIds, IsTermKey id)
    (h : ensureTripleWithCreation ids db input now = .ok (db', r)) :
    ∀ id ∈ db'.termIds, IsTermKey id := by
  have hpart : ∀ ref ∈ [input.subject, input.predicate, input.object], ∀ label ref',
      normalizeRef ref label = .ok ref' → IsTermKey ref'.id := by
    intro ref href label ref' h
    obtain ⟨id, hid, h⟩ := Result.bind_eq_ok.mp h
    cases h
    exact (isTermKey_iff hid).mpr (hinput ref.id (List.mem_map_of_mem (f := KgActionRef.id) href))
  obtain ⟨subject, hsubject, h⟩ := Result.bind_eq_ok.mp h
  obtain ⟨predicate, hpredicate, h⟩ := Result.bind_eq_ok.mp h
  obtain ⟨object, hobject, h⟩ := Result.bind_eq_ok.mp h
  obtain ⟨tripleId, htripleId, h⟩ := Result.bind_eq_ok.mp h
  obtain ⟨db₁, hdb₁, h⟩ := Result.bind_eq_ok.mp h
  obtain ⟨hnodes, htriples⟩ := ensureCreator_keeps hdb₁
  have hkey : IsTermKey tripleId := by
    obtain ⟨_, -, htripleId⟩ := Result.bind_eq_ok.mp htripleId
    obtain ⟨_, -, htripleId⟩ := Result.bind_eq_ok.mp htripleId
    obtain ⟨_, -, htripleId⟩ := Result.bind_eq_ok.mp htripleId
    cases htripleId
    exact hids.triple _ _ _
  cases h
  rintro id (hid | hid | ⟨k, row, hrow, hid⟩)
  · exact hdb id (.inl (hnodes ▸ hid))
  · obtain rfl | hid := Table.mem_upsert.mp hid
    · exact hkey
    · exact hdb id (.inr (.inl (htriples ▸ hid)))
  · have hold : ∀ k, db₁.triples.lookup k = some row → IsTermKey id :=
      fun k hrow => hdb id (.inr (.inr ⟨k, row, htriples ▸ hrow, hid⟩))
    change (db₁.triples.upsert tripleId _).lookup k = some row at hrow
    rw [Table.lookup_upsert] at hrow
    split at hrow
    · cases hpresent : db₁.triples.lookup tripleId with
      | some old =>
        rw [hpresent] at hrow
        cases hrow
        exact hold tripleId hpresent
      | none =>
        rw [hpresent] at hrow
        cases hrow
        obtain rfl | rfl | rfl := hid
        · exact hpart input.subject (by simp) _ _ hsubject
        · exact hpart input.predicate (by simp) _ _ hpredicate
        · exact hpart input.object (by simp) _ _ hobject
    · exact hold k hrow

/-- **Calls that are given ids in lower case store keys.** -/
theorem isTermKey_of_mem_termIds (hids : ids.AreKeys) {calls : List KgCall}
    (hcalls : ∀ call ∈ calls, ∀ id ∈ call.termIds, IsLowerCase id) :
    ∀ id ∈ (calls.foldl (KgCall.store ids) {}).termIds, IsTermKey id := by
  have hempty : ∀ id ∈ ({} : KgGraph).termIds, IsTermKey id := by
    rintro id (hid | hid | ⟨k, row, hrow, -⟩)
    · exact absurd hid Finmap.notMem_empty
    · exact absurd hid Finmap.notMem_empty
    · cases hrow
  generalize ({} : KgGraph) = db at hempty ⊢
  induction calls generalizing db with
  | nil => exact hempty
  | cons call calls ih =>
    obtain ⟨hcall, hcalls⟩ := List.forall_mem_cons.mp hcalls
    refine ih hcalls _ ?_
    cases call with
    | ensureNode input now =>
      show ∀ id ∈ ((ensureNodeWithCreation ids db input now).toOption.elim db Prod.fst).termIds, _
      cases h : (ensureNodeWithCreation ids db input now).toOption with
      | none => exact hempty
      | some result =>
        have hinput : ∀ id ∈ input.id, IsLowerCase id :=
          fun id hid => hcall id (Option.mem_toList.mpr hid)
        have hok := Result.toOption_eq_some.mp h
        exact isTermKey_ensureNode hids hinput hempty hok
    | ensureTriple input now =>
      show ∀ id ∈ ((ensureTripleWithCreation ids db input now).toOption.elim db Prod.fst).termIds, _
      cases h : (ensureTripleWithCreation ids db input now).toOption with
      | none => exact hempty
      | some result =>
        have hok := Result.toOption_eq_some.mp h
        exact isTermKey_ensureTriple hids hcall hempty hok

end Stored

/-- **One term, one key**: two texts that stand for the same bytes are normalized to one
key exactly if no letter of either is upper-case; and after any calls that are given ids
without upper-case letters, no two spellings of one term are stored. -/
theorem one_term_one_key {ids : ProtocolIds} (hids : ids.AreKeys) :
    (∀ a b label na nb : String, normalizeProtocolTermId a label = .ok na →
      normalizeProtocolTermId b label = .ok nb → termBytes na = termBytes nb →
        (na = nb ∧ IsTermKey na ↔ IsLowerCase a ∧ IsLowerCase b))
      ∧ ∀ calls : List KgCall, (∀ call ∈ calls, ∀ id ∈ call.termIds, IsLowerCase id) →
        ∀ id ∈ (calls.foldl (KgCall.store ids) {}).termIds, IsTermKey id
          ∧ ∀ id' ∈ (calls.foldl (KgCall.store ids) {}).termIds,
            termBytes id = termBytes id' → id = id' := by
  constructor
  · intro a b label na nb ha hb hbytes
    rw [← isTermKey_iff ha, ← isTermKey_iff hb]
    constructor
    · rintro ⟨rfl, hkey⟩
      exact ⟨hkey, hkey⟩
    · rintro ⟨hkeya, hkeyb⟩
      exact ⟨hkeya.eq_of_termBytes hkeyb hbytes, hkeya⟩
  · intro calls hcalls id hid
    have hkeys := isTermKey_of_mem_termIds hids hcalls
    exact ⟨hkeys id hid, fun id' hid' => (hkeys id hid).eq_of_termBytes (hkeys id' hid')⟩

/-- The ids of the atom `hello`, and of a triple that is known from tests. -/
def knownIds : ProtocolIds where
  calculateAtomId _ := "0xa0e157e5fa1b17d3b54ec73622ce3317296920a06502661617613d59f58e947e"
  calculateTripleId _ _ _ := "0x57946a02776dbd4eec339ecf5cdf6e0005b8de381fb3d9a2bf303da083bf5166"

/-- The parts of that triple; one is written with a prefix and spaces. -/
def knownTriple : EnsureTripleInput where
  subject :=
    ⟨"node", " atom:0x05bb6d28ed5ca3c5206f33f5818da27b3b0bbf6401cd40f082e8db7fcf481787 "⟩
  predicate := ⟨"node", "0xdb3dc8c92d6141c4e0c9b453b00fc1f237624ef8373b6ae9972d09557d8aaa8d"⟩
  object := ⟨"node", "0x39afce29ac0e4be2400fa0421b537f63ad2d78d7f8b4be4ff839a162ff3e5ffc"⟩

/-- The subject is one key in either spelling, and keys are stored. -/
theorem one_term_one_key_knownTriple :
    (∀ na nb, normalizeProtocolTermId knownTriple.subject.id "subject.id" = .ok na →
      normalizeProtocolTermId
        "0x05bb6d28ed5ca3c5206f33f5818da27b3b0bbf6401cd40f082e8db7fcf481787" "subject.id" = .ok nb →
          na = nb)
      ∧ ∀ id ∈ (KgCall.store knownIds {} (.ensureTriple knownTriple 0)).termIds, IsTermKey id := by
  have hatom : IsTermKey (knownIds.calculateAtomId "hello") := by decide +kernel
  have htriple : IsTermKey (knownIds.calculateTripleId "" "" "") := by decide +kernel
  have hids : knownIds.AreKeys := ⟨fun _ => hatom, fun _ _ _ => htriple⟩
  have hlower : ∀ id ∈ (KgCall.ensureTriple knownTriple 0).termIds, IsLowerCase id := by
    decide +kernel
  have hsubject : tryNormalizeProtocolTermId knownTriple.subject.id
      = some "0x05bb6d28ed5ca3c5206f33f5818da27b3b0bbf6401cd40f082e8db7fcf481787" := by
    decide +kernel
  have hkey : tryNormalizeProtocolTermId
      "0x05bb6d28ed5ca3c5206f33f5818da27b3b0bbf6401cd40f082e8db7fcf481787"
        = some "0x05bb6d28ed5ca3c5206f33f5818da27b3b0bbf6401cd40f082e8db7fcf481787" := by
    decide +kernel
  obtain ⟨hpairs, hcalls⟩ := one_term_one_key hids
  constructor
  · intro na nb ha hb
    have hna := Option.some.inj ((normalizeProtocolTermId_eq_ok.mp ha).symm.trans hsubject)
    have hnb := Option.some.inj ((normalizeProtocolTermId_eq_ok.mp hb).symm.trans hkey)
    have hbytes : termBytes na = termBytes nb := by rw [hna, hnb]
    refine ((hpairs _ _ _ na nb ha hb hbytes).mpr ⟨?_, by decide +kernel⟩).1
    exact hlower _ List.mem_cons_self
  · have hstored := hcalls [.ensureTriple knownTriple 0]
      fun call hcall => List.mem_singleton.mp hcall ▸ hlower
    rw [List.foldl_cons, List.foldl_nil] at hstored
    exact fun id hid => (hstored id hid).1

/-- **One term may be two keys**: one digit is written in upper case. -/
theorem upperCaseDigit_two_keys : ¬ ∀ a b label na nb : String,
    normalizeProtocolTermId a label = .ok na → normalizeProtocolTermId b label = .ok nb →
      termBytes na = termBytes nb → na = nb := by
  intro h
  have hupper : tryNormalizeProtocolTermId
      "0x05Bb6d28ed5ca3c5206f33f5818da27b3b0bbf6401cd40f082e8db7fcf481787"
        = some "0x05Bb6d28ed5ca3c5206f33f5818da27b3b0bbf6401cd40f082e8db7fcf481787" := by
    decide +kernel
  have hlower : tryNormalizeProtocolTermId
      "0x05bb6d28ed5ca3c5206f33f5818da27b3b0bbf6401cd40f082e8db7fcf481787"
        = some "0x05bb6d28ed5ca3c5206f33f5818da27b3b0bbf6401cd40f082e8db7fcf481787" := by
    decide +kernel
  have heq := h _ _ "termId" _ _ (normalizeProtocolTermId_eq_ok.mpr hupper)
    (normalizeProtocolTermId_eq_ok.mpr hlower) (by decide +kernel)
  exact absurd heq (by decide)
