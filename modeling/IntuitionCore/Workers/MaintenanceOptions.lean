import IntuitionCore.Entities.Actions
import IntuitionCore.Library.Doubles
import IntuitionCore.Library.Options
import IntuitionCore.Processing.Nodes
import IntuitionCore.Surreal.Sink

/-!
# The options of the maintenance commands

Operators reset stages of nodes, insert stored identifiers and parse nodes again by commands
of a worker. What a command changes is scoped by its arguments: statuses, a limit, ids of
nodes, a cursor; and it only changes something if it is confirmed. The commands read their
arguments each by a loop of its own.

An argument takes effect if the command does what it asks for. A command that takes an
argument it does not understand for nothing, or a part of a number for the whole of it, or one
of two arguments that ask for different things, has another scope than the one that was given.
-/

namespace KgCommands

/-! ## Numbers -/

/-- The number of the digits that a text starts with. -/
def leadingNumber (cs : List Char) : Option ℕ :=
  let digits := cs.takeWhile Char.isDigit
  if digits = [] then none else Doubles.ofNat (Nat.ofDigitChars 10 digits 0)

/-- `Number.parseInt(raw, 10)`, if that is an integer. -/
def parseInt (raw : String) : Option ℤ :=
  match raw.toList.dropWhile isJsSpace with
  | '-' :: cs => (leadingNumber cs).map fun n => -(n : ℤ)
  | '+' :: cs => (leadingNumber cs).map Int.ofNat
  | cs => (leadingNumber cs).map Int.ofNat

def parsePositiveIntegerFlag (command flag raw : String) (max : Option ℕ) : Except String ℕ :=
  match parseInt raw with
  | none => .error s!"{command}: {flag} must be a positive integer (got \"{raw}\")."
  | some value =>
    if value < 1 then .error s!"{command}: {flag} must be a positive integer (got \"{raw}\")."
    else
      match max with
      | none => .ok value.toNat
      | some max =>
        if (max : ℤ) < value then .error s!"{command}: {flag} must be <= {max} (got \"{raw}\")."
        else .ok value.toNat

def requireFlagValue (command flag value : String) : Except String String :=
  let trimmed := jsTrim value
  if trimmed = [] then .error s!"{command}: {flag} requires a non-empty value."
  else .ok (.ofList trimmed)

/-! ## Resetting a stage -/

/-- An argument of the commands that reset a stage. -/
inductive BackfillArg where
  | confirm
  | statuses (raw : String)
  | limit (raw : String)
  | nodeId (id : String)
  | flag (arg : String)
  | positional (arg : String)
  deriving DecidableEq, Repr

def BackfillArg.ofArg (arg : String) : BackfillArg :=
  if arg = "--yes" ∨ arg = "-y" then .confirm
  else
    match stripPrefix "--statuses=" arg, stripPrefix "--limit=" arg, stripPrefix "--node-id=" arg,
      stripPrefix "--" arg with
    | some raw, _, _, _ => .statuses raw
    | none, some raw, _, _ => .limit raw
    | none, none, some id, _ => .nodeId id
    | none, none, none, some _ => .flag arg
    | none, none, none, none => .positional arg

structure BackfillOptions where
  statuses : List NodeProcessingStatus := [.failed, .skipped]
  limit : Option ℕ := none
  /-- Without ids every matching row is reset. -/
  nodeIds : List String := []
  confirmed : Bool := false
  deriving DecidableEq, Repr

def validBackfillStatus : String → Option NodeProcessingStatus
  | "pending" => some .pending
  | "completed" => some .completed
  | "failed" => some .failed
  | "skipped" => some .skipped
  | _ => none

/-- The names between the commas of a text. -/
def statusNames (raw : String) : List String :=
  ((raw.toList.splitOn ',').map fun part => String.ofList (jsTrim (.ofList part))).filter (· ≠ "")

def parseStatuses (command raw : String) : Except String (List NodeProcessingStatus) := do
  let parsed ← (statusNames raw).mapM fun s =>
    match validBackfillStatus s with
    | some status => .ok status
    | none => .error <| s!"{command}: invalid --statuses value \"{s}\"; must be one of "
        ++ "pending, completed, failed, skipped."
  if parsed = [] then .error s!"{command}: --statuses requires at least one value."
  else .ok parsed

def backfillStep (command : String) (options : BackfillOptions) :
    BackfillArg → Except String BackfillOptions
  | .confirm => .ok { options with confirmed := true }
  | .statuses raw => do
    let statuses ← parseStatuses command raw
    return { options with statuses }
  | .limit raw => do
    let limit ← parsePositiveIntegerFlag command "--limit" raw none
    return { options with limit := some limit }
  | .nodeId id => .ok { options with nodeIds := options.nodeIds ++ [id] }
  | .flag arg => .error s!"{command}: unknown flag \"{arg}\"."
  -- neither a flag nor an error
  | .positional _ => .ok options

def parseBackfillOptions (rest : List String) (command : String) : Except String BackfillOptions :=
  (rest.map BackfillArg.ofArg).foldlM (backfillStep command) {}

/-! ## Inserting identifiers -/

/-- An argument, or two, of the command that inserts identifiers. -/
inductive IdentifierArg where
  | confirm
  | limit (raw : Option String)
  | after (raw : Option String)
  | unknown (arg : String)
  deriving DecidableEq, Repr

/-- A flag and its value, if it has one with it. -/
def splitFlag (arg : String) : String × Option String :=
  match arg.toList.span (· ≠ '=') with
  | (flag, []) => (.ofList flag, none)
  | (flag, _ :: raw) => (.ofList flag, some (.ofList raw))

/-- The arguments of a list. A flag without a value takes the next one. -/
def identifierArgs : List String → List IdentifierArg
  | [] => []
  | arg :: rest =>
    if arg = "--yes" ∨ arg = "-y" then .confirm :: identifierArgs rest
    else
      match splitFlag arg, rest with
      | ("--limit", some raw), rest => .limit raw :: identifierArgs rest
      | ("--after", some raw), rest => .after raw :: identifierArgs rest
      | ("--limit", none), raw :: rest => .limit raw :: identifierArgs rest
      | ("--after", none), raw :: rest => .after raw :: identifierArgs rest
      | ("--limit", none), [] => [.limit none]
      | ("--after", none), [] => [.after none]
      | _, rest => .unknown arg :: identifierArgs rest

structure IdentifierBackfillOptions where
  limit : ℕ := 100
  after : Option String := none
  confirmed : Bool := false
  deriving DecidableEq, Repr

/-- The value of a flag; what looks like a flag is none. -/
def identifierValue (flag : String) (raw : Option String) : Except String String :=
  match raw with
  | none => .error s!"kg-backfill-identifiers: {flag} requires a value."
  | some raw =>
    if (stripPrefix "--" raw).isSome then
      .error s!"kg-backfill-identifiers: {flag} requires a value."
    else requireFlagValue "kg-backfill-identifiers" flag raw

def maxSafeInteger : ℕ := 2 ^ 53 - 1

/-- A text of digits whose number is in range. -/
def identifierLimit (value : String) : Except String ℕ :=
  match (KgJson.digits? value.toList).bind Doubles.ofNat with
  | some n =>
    if n ≤ maxSafeInteger ∧ 1 ≤ n ∧ n ≤ 1000 then .ok n
    else .error "kg-backfill-identifiers: --limit must be an integer between 1 and 1000."
  | none => .error "kg-backfill-identifiers: --limit must be an integer between 1 and 1000."

def identifierStep (options : IdentifierBackfillOptions) :
    IdentifierArg → Except String IdentifierBackfillOptions
  | .confirm => .ok { options with confirmed := true }
  | .limit raw => do
    let value ← identifierValue "--limit" raw
    let limit ← identifierLimit value
    return { options with limit }
  | .after raw => do
    let value ← identifierValue "--after" raw
    return { options with after := some value }
  | .unknown arg => .error s!"kg-backfill-identifiers: unknown argument \"{arg}\"."

def parseIdentifierBackfillOptions (rest : List String) :
    Except String IdentifierBackfillOptions :=
  (identifierArgs rest).foldlM identifierStep {}

/-! ## Parsing nodes again -/

/-- A flag whose value is a text. -/
inductive TextFlag where
  | after
  | parseVersion
  | registryVersion
  | resolverVersion
  deriving DecidableEq, Repr

def TextFlag.name : TextFlag → String
  | after => "--after"
  | parseVersion => "--parse-version"
  | registryVersion => "--registry-version"
  | resolverVersion => "--resolver-version"

/-- An argument of the command that parses nodes again. -/
inductive ReconciliationArg where
  | confirm
  | force
  | limit (raw : String)
  | text (flag : TextFlag) (raw : String)
  | unknown (arg : String)
  deriving DecidableEq, Repr

def ReconciliationArg.ofArg (arg : String) : ReconciliationArg :=
  if arg = "--yes" ∨ arg = "-y" then .confirm
  else if arg = "--force" then .force
  else
    match stripPrefix "--limit=" arg with
    | some raw => .limit raw
    | none =>
      match [TextFlag.after, .parseVersion, .registryVersion, .resolverVersion].findSome?
        fun flag => (stripPrefix (flag.name ++ "=") arg).map (flag, ·) with
      | some (flag, raw) => .text flag raw
      | none => .unknown arg

structure IidReconciliationOptions where
  limit : ℕ := 100
  after : Option String := none
  confirmed : Bool := false
  force : Bool := false
  parseVersion : String := "unknown"
  registryVersion : String := "unknown"
  resolverVersion : String := "unknown"
  deriving DecidableEq, Repr

namespace IidReconciliationOptions

def setText (options : IidReconciliationOptions) (value : String) :
    TextFlag → IidReconciliationOptions
  | .after => { options with after := some value }
  | .parseVersion => { options with parseVersion := value }
  | .registryVersion => { options with registryVersion := value }
  | .resolverVersion => { options with resolverVersion := value }

/-- The text of a flag, if it has one. -/
def getText (options : IidReconciliationOptions) : TextFlag → Option String
  | .after => options.after
  | .parseVersion => some options.parseVersion
  | .registryVersion => some options.registryVersion
  | .resolverVersion => some options.resolverVersion

end IidReconciliationOptions

def reconciliationStep (command : String) (options : IidReconciliationOptions) :
    ReconciliationArg → Except String IidReconciliationOptions
  | .confirm => .ok { options with confirmed := true }
  | .force => .ok { options with force := true }
  | .limit raw => do
    let limit ← parsePositiveIntegerFlag command "--limit" raw (some 1000)
    return { options with limit }
  | .text flag raw => do
    let value ← requireFlagValue command flag.name raw
    return options.setText value flag
  | .unknown arg => .error s!"{command}: unknown argument \"{arg}\"."

def parseIidReconciliationOptions (rest : List String) (command : String) :
    Except String IidReconciliationOptions :=
  (rest.map ReconciliationArg.ofArg).foldlM (reconciliationStep command) {}

/-! ## Arguments that take effect -/

/-- A text is the decimal numeral of a number: digits only, up to the spaces around them. -/
def IsNumeral (raw : String) (n : ℕ) : Prop := KgJson.digits? (jsTrim raw) = some n

/-- What an argument asks for is what the command does. -/
def BackfillArg.TookEffect (options : BackfillOptions) (command : String) : BackfillArg → Prop
  | .confirm => options.confirmed = true
  | .statuses raw => parseStatuses command raw = .ok options.statuses
  | .limit raw => ∃ n, IsNumeral raw n ∧ options.limit = some n
  | .nodeId id => id ∈ options.nodeIds
  | .flag _ => False
  | .positional _ => False

def IdentifierArg.TookEffect (options : IdentifierBackfillOptions) : IdentifierArg → Prop
  | .confirm => options.confirmed = true
  | .limit raw => ∃ text n, raw = some text ∧ IsNumeral text n ∧ options.limit = n
  | .after raw => ∃ text, raw = some text ∧ options.after = some (.ofList (jsTrim text))
  | .unknown _ => False

def ReconciliationArg.TookEffect (options : IidReconciliationOptions) : ReconciliationArg → Prop
  | .confirm => options.confirmed = true
  | .force => options.force = true
  | .limit raw => ∃ n, IsNumeral raw n ∧ options.limit = n
  | .text flag raw => options.getText flag = some (.ofList (jsTrim raw))
  | .unknown _ => False

/-- The commands that reset a stage, insert identifiers, and parse nodes again. -/
inductive MaintenanceCommand where
  | backfill (stage : NodeProcessingStage)
  | backfillIdentifiers
  | reconcileIid
  deriving DecidableEq, Repr

def MaintenanceCommand.name : MaintenanceCommand → String
  | backfill stage => "kg-backfill-" ++ stage.asStr
  | backfillIdentifiers => "kg-backfill-identifiers"
  | reconcileIid => "kg-reconcile-iid"

/-- **The scope of a command is what was asked for**: its arguments are refused, or each of them
takes effect. -/
def MaintenanceCommand.KeepsScope (rest : List String) : MaintenanceCommand → Prop
  | command@(backfill _) => ∀ options, parseBackfillOptions rest command.name = .ok options →
      ∀ arg ∈ rest, (BackfillArg.ofArg arg).TookEffect options command.name
  | backfillIdentifiers => ∀ options, parseIdentifierBackfillOptions rest = .ok options →
      ∀ arg ∈ identifierArgs rest, arg.TookEffect options
  | command@reconcileIid => ∀ options,
      parseIidReconciliationOptions rest command.name = .ok options →
      ∀ arg ∈ rest, (ReconciliationArg.ofArg arg).TookEffect options

/-! ## Arguments that leave no doubt -/

/-- An argument that is not refused. -/
def BackfillArg.Accepted (command : String) : BackfillArg → Prop
  | .statuses raw => ∃ statuses, parseStatuses command raw = .ok statuses
  | .limit raw => ∃ n : ℕ, parseInt raw = some ↑n ∧ 1 ≤ n
  | .flag _ => False
  | _ => True

def IdentifierArg.Accepted : IdentifierArg → Prop
  | .limit raw =>
    ∃ value n, identifierValue "--limit" raw = .ok value ∧ identifierLimit value = .ok n
  | .after raw => ∃ value, identifierValue "--after" raw = .ok value
  | .unknown _ => False
  | .confirm => True

def ReconciliationArg.Accepted : ReconciliationArg → Prop
  | .limit raw => ∃ n : ℕ, parseInt raw = some ↑n ∧ 1 ≤ n ∧ n ≤ 1000
  | .text _ raw => jsTrim raw ≠ []
  | .unknown _ => False
  | _ => True

/-- No argument is a mere word, all limits are numerals of one number that is a double, and all
statuses are the same. -/
structure BackfillArg.Clear (command : String) (args : List BackfillArg) : Prop where
  flags : ∀ arg, .positional arg ∉ args
  limits : ∃ n, Doubles.ofNat n = some n ∧ ∀ raw, .limit raw ∈ args → IsNumeral raw n
  statuses : ∃ statuses, ∀ raw, .statuses raw ∈ args → parseStatuses command raw = .ok statuses

/-- All limits and all cursors are the same. -/
structure IdentifierArg.Clear (args : List IdentifierArg) : Prop where
  limits : ∃ n, ∀ raw, .limit (some raw) ∈ args → IsNumeral raw n
  afters : ∃ value, ∀ raw, .after (some raw) ∈ args → jsTrim raw = value

/-- All limits are numerals of one number, and all texts of a flag are the same. -/
structure ReconciliationArg.Clear (args : List ReconciliationArg) : Prop where
  limits : ∃ n, ∀ raw, .limit raw ∈ args → IsNumeral raw n
  texts : ∀ flag, ∃ value, ∀ raw, .text flag raw ∈ args → jsTrim raw = value

/-- If no argument is refused, they leave no doubt. -/
def MaintenanceCommand.Unambiguous (rest : List String) : MaintenanceCommand → Prop
  | command@(backfill _) =>
    (∀ arg ∈ rest, (BackfillArg.ofArg arg).Accepted command.name) →
      BackfillArg.Clear command.name (rest.map BackfillArg.ofArg)
  | backfillIdentifiers =>
    (∀ arg ∈ identifierArgs rest, arg.Accepted) → IdentifierArg.Clear (identifierArgs rest)
  | reconcileIid =>
    (∀ arg ∈ rest, (ReconciliationArg.ofArg arg).Accepted) →
      ReconciliationArg.Clear (rest.map ReconciliationArg.ofArg)

/-! ## Numerals -/

/-- A text without the spaces before it is the trimmed one and spaces. -/
lemma dropWhile_eq_jsTrim_append (raw : String) : ∃ spaces, (∀ c ∈ spaces, isJsSpace c = true)
    ∧ raw.toList.dropWhile isJsSpace = jsTrim raw ++ spaces := by
  refine ⟨((raw.toList.dropWhile isJsSpace).reverse.takeWhile isJsSpace).reverse, ?_, ?_⟩
  · intro c hc
    exact List.mem_takeWhile_imp (List.mem_reverse.mp hc)
  · rw [jsTrim, ← List.reverse_append, List.takeWhile_append_dropWhile, List.reverse_reverse]

lemma leadingNumber_append {cs spaces : List Char} (hne : cs ≠ [])
    (hcs : ∀ c ∈ cs, c.isDigit = true) (hspaces : ∀ c ∈ spaces, isJsSpace c = true) :
    leadingNumber (cs ++ spaces) = Doubles.ofNat (Nat.ofDigitChars 10 cs 0) := by
  have hrest : spaces.takeWhile Char.isDigit = [] := by
    cases spaces with
    | nil => rfl
    | cons c spaces =>
      rw [List.takeWhile_cons, isDigit_of_isJsSpace (hspaces c List.mem_cons_self)]
      rfl
  have htake : (cs ++ spaces).takeWhile Char.isDigit = cs := by
    rw [List.takeWhile_append_of_pos hcs, hrest, List.append_nil]
  unfold leadingNumber
  rw [htake]
  exact if_neg hne

/-- **A numeral is read as the double of its number.** -/
lemma parseInt_of_isNumeral {raw : String} {n : ℕ} (h : IsNumeral raw n) :
    parseInt raw = (Doubles.ofNat n).map Int.ofNat := by
  unfold IsNumeral KgJson.digits? at h
  split at h
  case isFalse => cases h
  case isTrue hdigits =>
    obtain ⟨hne, hall⟩ := hdigits
    rw [List.all_eq_true] at hall
    obtain ⟨spaces, hspaces, hdrop⟩ := dropWhile_eq_jsTrim_append raw
    have hlead := leadingNumber_append hne hall hspaces
    rw [Option.some.inj h] at hlead
    unfold parseInt
    rw [hdrop]
    -- the first character is a digit, so it is no sign
    cases hc : jsTrim raw with
    | nil => exact absurd hc hne
    | cons c cs =>
      rw [hc] at hall hlead
      have hdigit := hall c List.mem_cons_self
      rw [List.cons_append] at hlead ⊢
      split
      case h_1 heq =>
        cases heq
        exact absurd hdigit (by decide)
      case h_2 heq =>
        cases heq
        exact absurd hdigit (by decide)
      case h_3 => rw [hlead]

lemma parseInt_eq_some_iff {raw : String} {n m : ℕ} (h : IsNumeral raw n) :
    parseInt raw = some ↑m ↔ Doubles.ofNat n = some m := by
  rw [parseInt_of_isNumeral h]
  cases Doubles.ofNat n with
  | none => simp
  | some v => simp

/-- A small number is read from its own numeral only. -/
lemma eq_of_parseInt {raw : String} {n m : ℕ} (h : IsNumeral raw n) (hm : parseInt raw = some ↑m)
    (hle : m ≤ 1000) : m = n :=
  Doubles.eq_of_ofNat ((parseInt_eq_some_iff h).mp hm) (by omega)

/-- A limit is read if it is a positive integer that is not too great. -/
lemma parsePositiveIntegerFlag_eq_ok {command flag raw : String} {max : Option ℕ} {n : ℕ} :
    parsePositiveIntegerFlag command flag raw max = .ok n
      ↔ parseInt raw = some ↑n ∧ 1 ≤ n ∧ ∀ m ∈ max, n ≤ m := by
  unfold parsePositiveIntegerFlag
  cases hv : parseInt raw with
  | none => simp
  | some value =>
    by_cases hlow : value < 1
    · simp only [hlow, ↓reduceIte, reduceCtorEq, Option.some.injEq, false_iff, not_and]
      omega
    · cases max with
      | none =>
        simp only [hlow, ↓reduceIte, Except.ok.injEq, Option.some.injEq, Option.mem_def,
          reduceCtorEq, false_implies, implies_true, and_true]
        omega
      | some max =>
        by_cases hhigh : (max : ℤ) < value
        · simp only [hlow, hhigh, ↓reduceIte, reduceCtorEq, Option.some.injEq, Option.mem_def,
            false_iff, not_and]
          intro hn _ hall
          have := hall max rfl
          omega
        · simp only [hlow, hhigh, ↓reduceIte, Except.ok.injEq, Option.some.injEq, Option.mem_def,
            forall_eq']
          omega

/-! ## Resetting a stage -/

section Backfill

variable {command : String} {options options' : BackfillOptions} {args : List BackfillArg}

lemma exists_backfillStep (options : BackfillOptions) (arg : BackfillArg) :
    (∃ options', backfillStep command options arg = .ok options') ↔ arg.Accepted command := by
  cases arg with
  | confirm => simp [backfillStep, BackfillArg.Accepted]
  | statuses raw =>
    simp only [backfillStep, BackfillArg.Accepted]
    cases parseStatuses command raw with
    | error e => simp [bind, Except.bind]
    | ok statuses => simp [bind, Except.bind, pure, Except.pure]
  | limit raw =>
    simp only [backfillStep, BackfillArg.Accepted]
    cases hp : parsePositiveIntegerFlag command "--limit" raw none with
    | error e =>
      simp only [bind, Except.bind, reduceCtorEq, exists_false, false_iff, not_exists]
      rintro n ⟨hn, hpos⟩
      rw [parsePositiveIntegerFlag_eq_ok.mpr ⟨hn, hpos, by simp⟩] at hp
      cases hp
    | ok n =>
      obtain ⟨hn, hpos, -⟩ := parsePositiveIntegerFlag_eq_ok.mp hp
      simp only [bind, Except.bind, pure, Except.pure, Except.ok.injEq, exists_eq', true_iff]
      exact ⟨n, hn, hpos⟩
  | nodeId id => simp [backfillStep, BackfillArg.Accepted]
  | flag arg => simp [backfillStep, BackfillArg.Accepted]
  | positional arg => simp [backfillStep, BackfillArg.Accepted]

/-- The limit that an argument gives. -/
def BackfillArg.limitValue (command : String) : BackfillArg → Option (Option ℕ)
  | .limit raw => some (parsePositiveIntegerFlag command "--limit" raw none).toOption
  | _ => none

def BackfillArg.statusesValue (command : String) : BackfillArg → Option (List NodeProcessingStatus)
  | .statuses raw => (parseStatuses command raw).toOption
  | _ => none

/-- **What an argument changes.** -/
lemma backfillStep_eq_ok {arg : BackfillArg} (h : backfillStep command options arg = .ok options') :
    options'.limit = (arg.limitValue command).getD options.limit
    ∧ options'.statuses = (arg.statusesValue command).getD options.statuses
    ∧ (options.confirmed = true ∨ arg = .confirm → options'.confirmed = true)
    ∧ ∀ id, id ∈ options.nodeIds ∨ arg = .nodeId id → id ∈ options'.nodeIds := by
  cases arg with
  | confirm =>
    cases h
    simp [BackfillArg.limitValue, BackfillArg.statusesValue]
  | statuses raw =>
    obtain ⟨statuses, hp, h⟩ := Result.bind_eq_ok.mp h
    cases h
    simp [BackfillArg.limitValue, BackfillArg.statusesValue, hp, Except.toOption]
  | limit raw =>
    obtain ⟨n, hp, h⟩ := Result.bind_eq_ok.mp h
    cases h
    simp [BackfillArg.limitValue, BackfillArg.statusesValue, hp, Except.toOption]
  | nodeId id =>
    cases h
    refine ⟨rfl, rfl, by simp, ?_⟩
    rintro id' (hid | hid)
    · exact List.mem_append_left _ hid
    · cases hid
      exact List.mem_append_right _ (List.mem_singleton_self id)
  | flag arg => cases h
  | positional arg =>
    cases h
    simp [BackfillArg.limitValue, BackfillArg.statusesValue]

/-- The arguments of a reset take effect exactly if they leave no doubt. -/
lemma forall_tookEffect_backfill_iff (hrun : args.foldlM (backfillStep command) {} = .ok options) :
    (∀ arg ∈ args, arg.TookEffect options command) ↔ BackfillArg.Clear command args := by
  have hlimit := fun s a s' (h : backfillStep command s a = .ok s') => (backfillStep_eq_ok h).1
  have hstatuses := fun s a s' (h : backfillStep command s a = .ok s') =>
    (backfillStep_eq_ok h).2.1
  constructor
  · intro h
    constructor
    case flags => exact fun arg harg => h _ harg
    case limits =>
      by_cases hany : ∃ raw, .limit raw ∈ args
      · obtain ⟨raw, hraw⟩ := hany
        obtain ⟨last, hlast, hvalue⟩ := Options.exists_get_foldlM hlimit hrun hraw rfl
        cases last with
        | limit last =>
          obtain ⟨n, hn, hlimit'⟩ := h _ hlast
          -- the limit is the double of its own numeral
          rw [hlimit'] at hvalue
          obtain ⟨hp, -⟩ := parsePositiveIntegerFlag_eq_ok.mp
            (Result.toOption_eq_some.mp (Option.some.inj hvalue))
          refine ⟨n, (parseInt_eq_some_iff hn).mp hp, fun raw' hraw' => ?_⟩
          obtain ⟨n', hn', hl⟩ := h _ hraw'
          rw [hlimit'] at hl
          rwa [Option.some.inj hl]
        | _ => cases hvalue
      · push Not at hany
        exact ⟨0, Doubles.ofNat_of_lt (by decide), fun raw hraw => absurd hraw (hany raw)⟩
    case statuses =>
      exact ⟨options.statuses, fun raw hraw => h _ hraw⟩
  · rintro ⟨hflags, ⟨n, hn, hlimits⟩, ⟨statuses, hstatuses'⟩⟩ arg harg
    cases arg with
    | confirm =>
      exact Options.foldlM_of_mem (P := fun s => s.confirmed = true) harg
        (fun s b s' hs => (backfillStep_eq_ok hs).2.2.1) hrun
    | statuses raw =>
      have hone : ∀ a ∈ args, ∀ v ∈ a.statusesValue command, v = statuses := by
        intro a ha v hv
        cases a with
        | statuses raw => exact Except.ok.inj ((Result.toOption_eq_some.mp hv).symm.trans
            (hstatuses' raw ha))
        | _ => cases hv
      have hp := hstatuses' raw harg
      have hget := Options.get_eq_of_mem hstatuses hrun hone harg (Result.toOption_eq_some.mpr hp)
      exact hp.trans (congrArg _ hget.symm)
    | limit raw =>
      have hone : ∀ a ∈ args, ∀ v ∈ a.limitValue command, v = some n := by
        intro a ha v hv
        cases a with
        | limit raw =>
          obtain ⟨s, s', hs⟩ := Result.foldlM_step_of_mem hrun ha
          obtain ⟨m, hp, -⟩ := Result.bind_eq_ok.mp hs
          obtain ⟨hm, -⟩ := parsePositiveIntegerFlag_eq_ok.mp hp
          have hv' := Option.some.inj hv
          rw [hp] at hv'
          rw [parseInt_eq_some_iff (hlimits raw ha), hn] at hm
          rw [← hv', Option.some.inj hm]
          rfl
        | _ => cases hv
      exact ⟨n, hlimits raw harg, Options.get_eq_of_mem hlimit hrun hone harg rfl⟩
    | nodeId id =>
      exact Options.foldlM_of_mem (P := fun s => id ∈ s.nodeIds) harg
        (fun s b s' hs => (backfillStep_eq_ok hs).2.2.2 id) hrun
    | flag arg =>
      obtain ⟨s, s', hs⟩ := Result.foldlM_step_of_mem hrun harg
      cases hs
    | positional arg => exact absurd harg (hflags arg)

end Backfill

/-! ## Parsing nodes again -/

section Reconciliation

variable {command : String} {options options' : IidReconciliationOptions}
  {args : List ReconciliationArg}

lemma requireFlagValue_eq_ok {command flag value v : String} :
    requireFlagValue command flag value = .ok v
      ↔ jsTrim value ≠ [] ∧ .ofList (jsTrim value) = v := by
  unfold requireFlagValue
  by_cases h : jsTrim value = [] <;> simp [h]

lemma exists_reconciliationStep (options : IidReconciliationOptions) (arg : ReconciliationArg) :
    (∃ options', reconciliationStep command options arg = .ok options') ↔ arg.Accepted := by
  cases arg with
  | confirm => simp [reconciliationStep, ReconciliationArg.Accepted]
  | force => simp [reconciliationStep, ReconciliationArg.Accepted]
  | limit raw =>
    simp [reconciliationStep, ReconciliationArg.Accepted, parsePositiveIntegerFlag_eq_ok, pure,
      Except.pure]
  | text flag raw =>
    simp [reconciliationStep, ReconciliationArg.Accepted, requireFlagValue_eq_ok, pure,
      Except.pure]
  | unknown arg => simp [reconciliationStep, ReconciliationArg.Accepted]

/-- The limit that an argument gives. -/
def ReconciliationArg.limitValue (command : String) : ReconciliationArg → Option ℕ
  | .limit raw => (parsePositiveIntegerFlag command "--limit" raw (some 1000)).toOption
  | _ => none

/-- The text that an argument gives a flag. -/
def ReconciliationArg.textValue (flag : TextFlag) : ReconciliationArg → Option (Option String)
  | .text flag' raw => if flag' = flag then some (some (.ofList (jsTrim raw))) else none
  | _ => none

lemma getText_setText (options : IidReconciliationOptions) (value : String)
    (flag flag' : TextFlag) :
    (options.setText value flag').getText flag
      = if flag' = flag then some value else options.getText flag := by
  cases flag <;> cases flag' <;> rfl

/-- **What an argument changes.** -/
lemma reconciliationStep_eq_ok {arg : ReconciliationArg}
    (h : reconciliationStep command options arg = .ok options') :
    options'.limit = (arg.limitValue command).getD options.limit
    ∧ (∀ flag, options'.getText flag = (arg.textValue flag).getD (options.getText flag))
    ∧ (options.confirmed = true ∨ arg = .confirm → options'.confirmed = true)
    ∧ (options.force = true ∨ arg = .force → options'.force = true) := by
  cases arg with
  | confirm =>
    cases h
    refine ⟨rfl, fun flag => ?_, by simp, by simp⟩
    cases flag <;> rfl
  | force =>
    cases h
    refine ⟨rfl, fun flag => ?_, by simp, by simp⟩
    cases flag <;> rfl
  | limit raw =>
    obtain ⟨n, hp, h⟩ := Result.bind_eq_ok.mp h
    cases h
    refine ⟨by simp [ReconciliationArg.limitValue, hp, Except.toOption], fun flag => ?_, by simp,
      by simp⟩
    cases flag <;> rfl
  | text flag raw =>
    obtain ⟨v, hv, h⟩ := Result.bind_eq_ok.mp h
    obtain ⟨-, rfl⟩ := requireFlagValue_eq_ok.mp hv
    cases h
    refine ⟨?_, fun flag' => ?_, ?_, ?_⟩
    · cases flag <;> rfl
    · rw [getText_setText, ReconciliationArg.textValue]
      by_cases hflag : flag = flag' <;> simp [hflag]
    · cases flag <;> simp [IidReconciliationOptions.setText]
    · cases flag <;> simp [IidReconciliationOptions.setText]
  | unknown arg => cases h

/-- The arguments of a reconciliation take effect exactly if they leave no doubt. -/
lemma forall_tookEffect_reconciliation_iff
    (hrun : args.foldlM (reconciliationStep command) {} = .ok options) :
    (∀ arg ∈ args, arg.TookEffect options) ↔ ReconciliationArg.Clear args := by
  have hlimit := fun s a s' (h : reconciliationStep command s a = .ok s') =>
    (reconciliationStep_eq_ok h).1
  have htext := fun flag s a s' (h : reconciliationStep command s a = .ok s') =>
    (reconciliationStep_eq_ok h).2.1 flag
  constructor
  · intro h
    constructor
    case limits =>
      refine ⟨options.limit, fun raw hraw => ?_⟩
      obtain ⟨n, hn, hl⟩ := h _ hraw
      rwa [hl]
    case texts =>
      refine fun flag => ⟨((options.getText flag).getD "").toList, fun raw hraw => ?_⟩
      have hget : options.getText flag = some (.ofList (jsTrim raw)) := h _ hraw
      rw [hget]
      simp
  · rintro ⟨⟨n, hlimits⟩, htexts⟩ arg harg
    cases arg with
    | confirm =>
      exact Options.foldlM_of_mem (P := fun s => s.confirmed = true) harg
        (fun s b s' hs => (reconciliationStep_eq_ok hs).2.2.1) hrun
    | force =>
      exact Options.foldlM_of_mem (P := fun s => s.force = true) harg
        (fun s b s' hs => (reconciliationStep_eq_ok hs).2.2.2) hrun
    | limit raw =>
      have hone : ∀ a ∈ args, ∀ v ∈ a.limitValue command, v = n := by
        intro a ha v hv
        cases a with
        | limit raw =>
          obtain ⟨hp, -, hle⟩ := parsePositiveIntegerFlag_eq_ok.mp (Result.toOption_eq_some.mp hv)
          exact eq_of_parseInt (hlimits raw ha) hp (hle 1000 rfl)
        | _ => cases hv
      obtain ⟨s, s', hs⟩ := Result.foldlM_step_of_mem hrun harg
      obtain ⟨m, hp, -⟩ := Result.bind_eq_ok.mp hs
      exact ⟨n, hlimits raw harg, Options.get_eq_of_mem hlimit hrun hone harg
        (Result.toOption_eq_some.mpr hp)⟩
    | text flag raw =>
      obtain ⟨value, hvalue⟩ := htexts flag
      have hone : ∀ a ∈ args, ∀ v ∈ a.textValue flag, v = some (.ofList value) := by
        intro a ha v hv
        cases a with
        | text flag' raw =>
          rw [ReconciliationArg.textValue] at hv
          split at hv
          case isTrue hflag =>
            subst hflag
            cases hv
            rw [hvalue raw ha]
          case isFalse => cases hv
        | _ => cases hv
      have hget := Options.get_eq_of_mem (htext flag) hrun hone harg
        (if_pos rfl : (ReconciliationArg.text flag raw).textValue flag = _)
      exact hget.trans (by rw [hvalue raw harg])
    | unknown arg =>
      obtain ⟨s, s', hs⟩ := Result.foldlM_step_of_mem hrun harg
      cases hs

end Reconciliation

/-! ## Inserting identifiers -/

section Identifiers

variable {options options' : IdentifierBackfillOptions} {args : List IdentifierArg}

/-- A value is a trimmed text. -/
lemma identifierValue_eq_ok {flag value : String} {raw : Option String}
    (h : identifierValue flag raw = .ok value) :
    ∃ text, raw = some text ∧ value = .ofList (jsTrim text) := by
  unfold identifierValue at h
  cases raw with
  | none => cases h
  | some text =>
    dsimp only at h
    split at h
    · cases h
    · obtain ⟨-, hv⟩ := requireFlagValue_eq_ok.mp h
      exact ⟨text, rfl, hv.symm⟩

/-- **A limit is the number of its numeral.** -/
lemma isNumeral_of_identifierLimit {text : String} {n : ℕ}
    (h : identifierLimit (.ofList (jsTrim text)) = .ok n) : IsNumeral text n := by
  unfold identifierLimit at h
  rw [String.toList_ofList] at h
  split at h
  case h_2 => cases h
  case h_1 v hv =>
    obtain ⟨m, hm, hd⟩ := Option.bind_eq_some_iff.mp hv
    split at h
    case isFalse => cases h
    case isTrue hrange =>
      cases h
      rw [Doubles.eq_of_ofNat hd (by omega)]
      exact hm

lemma exists_identifierStep (options : IdentifierBackfillOptions) (arg : IdentifierArg) :
    (∃ options', identifierStep options arg = .ok options') ↔ arg.Accepted := by
  cases arg with
  | confirm => simp [identifierStep, IdentifierArg.Accepted]
  | limit raw => simp [identifierStep, IdentifierArg.Accepted, pure, Except.pure]
  | after raw => simp [identifierStep, IdentifierArg.Accepted, pure, Except.pure]
  | unknown arg => simp [identifierStep, IdentifierArg.Accepted]

/-- The limit that an argument gives. -/
def IdentifierArg.limitValue : IdentifierArg → Option ℕ
  | .limit raw => (identifierValue "--limit" raw >>= identifierLimit).toOption
  | _ => none

/-- The cursor that an argument gives. -/
def IdentifierArg.afterValue : IdentifierArg → Option (Option String)
  | .after raw => some (raw.map fun text => .ofList (jsTrim text))
  | _ => none

/-- **What an argument changes.** -/
lemma identifierStep_eq_ok {arg : IdentifierArg} (h : identifierStep options arg = .ok options') :
    options'.limit = arg.limitValue.getD options.limit
    ∧ options'.after = arg.afterValue.getD options.after
    ∧ (options.confirmed = true ∨ arg = .confirm → options'.confirmed = true) := by
  cases arg with
  | confirm =>
    cases h
    simp [IdentifierArg.limitValue, IdentifierArg.afterValue]
  | limit raw =>
    obtain ⟨value, hv, h⟩ := Result.bind_eq_ok.mp h
    obtain ⟨n, hn, h⟩ := Result.bind_eq_ok.mp h
    cases h
    refine ⟨?_, rfl, by simp⟩
    rw [IdentifierArg.limitValue,
      Result.toOption_eq_some.mpr (Result.bind_eq_ok.mpr ⟨value, hv, hn⟩)]
    rfl
  | after raw =>
    obtain ⟨value, hv, h⟩ := Result.bind_eq_ok.mp h
    cases h
    obtain ⟨text, rfl, rfl⟩ := identifierValue_eq_ok hv
    exact ⟨rfl, rfl, by simp⟩
  | unknown arg => cases h

/-- The arguments of an insertion take effect exactly if they leave no doubt. -/
lemma forall_tookEffect_identifiers_iff (hrun : args.foldlM identifierStep {} = .ok options) :
    (∀ arg ∈ args, arg.TookEffect options) ↔ IdentifierArg.Clear args := by
  have hlimit := fun s a s' (h : identifierStep s a = .ok s') => (identifierStep_eq_ok h).1
  have hafter := fun s a s' (h : identifierStep s a = .ok s') => (identifierStep_eq_ok h).2.1
  constructor
  · intro h
    constructor
    case limits =>
      refine ⟨options.limit, fun raw hraw => ?_⟩
      obtain ⟨text, n, htext, hn, hl⟩ := h _ hraw
      cases htext
      rwa [hl]
    case afters =>
      refine ⟨(options.after.getD "").toList, fun raw hraw => ?_⟩
      obtain ⟨text, htext, ha⟩ := h _ hraw
      cases htext
      rw [ha]
      simp
  · rintro ⟨⟨n, hlimits⟩, value, hafters⟩ arg harg
    cases arg with
    | confirm =>
      exact Options.foldlM_of_mem (P := fun s => s.confirmed = true) harg
        (fun s b s' hs => (identifierStep_eq_ok hs).2.2) hrun
    | limit raw =>
      have hone : ∀ a ∈ args, ∀ v ∈ a.limitValue, v = n := by
        intro a ha v hv
        cases a with
        | limit raw =>
          obtain ⟨value, hvalue, hl⟩ := Result.bind_eq_ok.mp (Result.toOption_eq_some.mp hv)
          obtain ⟨text, rfl, rfl⟩ := identifierValue_eq_ok hvalue
          exact Option.some.inj ((isNumeral_of_identifierLimit hl).symm.trans (hlimits text ha))
        | _ => cases hv
      obtain ⟨s, s', hs⟩ := Result.foldlM_step_of_mem hrun harg
      obtain ⟨v, hv, hs⟩ := Result.bind_eq_ok.mp hs
      obtain ⟨m, hm, -⟩ := Result.bind_eq_ok.mp hs
      obtain ⟨text, rfl, -⟩ := identifierValue_eq_ok hv
      have hget := Options.get_eq_of_mem hlimit hrun hone harg
        (Result.toOption_eq_some.mpr (Result.bind_eq_ok.mpr ⟨v, hv, hm⟩))
      exact ⟨text, n, rfl, hlimits text harg, hget⟩
    | after raw =>
      have hone : ∀ a ∈ args, ∀ v ∈ a.afterValue, v = some (.ofList value) := by
        intro a ha v hv
        cases a with
        | after raw =>
          obtain ⟨s, s', hs⟩ := Result.foldlM_step_of_mem hrun ha
          obtain ⟨w, hw, -⟩ := Result.bind_eq_ok.mp hs
          obtain ⟨text, rfl, -⟩ := identifierValue_eq_ok hw
          cases hv
          rw [Option.map_some, hafters text ha]
        | _ => cases hv
      obtain ⟨s, s', hs⟩ := Result.foldlM_step_of_mem hrun harg
      obtain ⟨w, hw, -⟩ := Result.bind_eq_ok.mp hs
      obtain ⟨text, rfl, -⟩ := identifierValue_eq_ok hw
      have hget := Options.get_eq_of_mem hafter hrun hone harg rfl
      exact ⟨text, rfl, hget.trans (by rw [hafters text harg])⟩
    | unknown arg =>
      obtain ⟨s, s', hs⟩ := Result.foldlM_step_of_mem hrun harg
      cases hs

end Identifiers

/-! ## The scope of a command -/

/-- **A command keeps the scope that it was given exactly if its arguments leave no doubt.** -/
theorem keepsScope_iff (command : MaintenanceCommand) (rest : List String) :
    command.KeepsScope rest ↔ command.Unambiguous rest := by
  cases command with
  | backfill stage =>
    refine Options.forall_ok_iff ?_ fun options hrun => ?_
    · exact (Options.exists_foldlM exists_backfillStep).trans List.forall_mem_map
    · exact List.forall_mem_map.symm.trans (forall_tookEffect_backfill_iff hrun)
  | backfillIdentifiers =>
    refine Options.forall_ok_iff ?_ fun options hrun => ?_
    · exact Options.exists_foldlM exists_identifierStep
    · exact forall_tookEffect_identifiers_iff hrun
  | reconcileIid =>
    refine Options.forall_ok_iff ?_ fun options hrun => ?_
    · exact (Options.exists_foldlM exists_reconciliationStep).trans List.forall_mem_map
    · exact List.forall_mem_map.symm.trans (forall_tookEffect_reconciliation_iff hrun)

/-- **The id of a node without its flag is no scope**, and the limit of half a number is one:
each node that failed or was skipped is reset. -/
theorem keepsScope_positional :
    parseBackfillOptions ["0xabc", "--yes"] "kg-backfill-parse"
      = .ok { statuses := [.failed, .skipped], limit := none, nodeIds := [], confirmed := true }
    ∧ ¬ (MaintenanceCommand.backfill .parse).KeepsScope ["0xabc", "--yes"]
    ∧ parseBackfillOptions ["--limit=1e3", "--yes"] "kg-backfill-parse"
      = .ok { statuses := [.failed, .skipped], limit := some 1, nodeIds := [], confirmed := true }
    ∧ ¬ (MaintenanceCommand.backfill .parse).KeepsScope ["--limit=1e3", "--yes"] := by
  have hid : parseBackfillOptions ["0xabc", "--yes"] "kg-backfill-parse"
      = .ok { statuses := [.failed, .skipped], limit := none, nodeIds := []
              confirmed := true } := by
    decide +kernel
  have hlimit : parseBackfillOptions ["--limit=1e3", "--yes"] "kg-backfill-parse"
      = .ok { statuses := [.failed, .skipped], limit := some 1, nodeIds := []
              confirmed := true } := by
    decide +kernel
  refine ⟨hid, fun h => ?_, hlimit, fun h => ?_⟩
  · have harg : BackfillArg.ofArg "0xabc" = .positional "0xabc" := by decide +kernel
    have htook := h _ hid "0xabc" (by decide)
    rw [harg] at htook
    exact htook
  · have harg : BackfillArg.ofArg "--limit=1e3" = .limit "1e3" := by decide +kernel
    have htook := h _ hlimit "--limit=1e3" (by decide)
    rw [harg] at htook
    obtain ⟨n, hn, -⟩ := htook
    have hnone : KgJson.digits? (jsTrim "1e3") = none := by decide +kernel
    rw [IsNumeral, hnone] at hn
    cases hn

end KgCommands
