import ProbeAgent.JsonText

/-!
# The run budget of a job (`models/job.py`)

`sanitiseRunBudget` is the validator of `requestTimeoutMs`, for whatever value the decoder
of a request gives it.  It takes the `TypeError` and the `ValueError` of `int(value)` for a
field that was left out.  The third exception of `int`, the `OverflowError` of an infinite
float, is not among those it catches (`run_budget_survived_iff`).
-/

namespace ProbeAgent

open PyText NumberText JsonText

/-- `MIN_RUN_TIMEOUT_MS`. -/
def MIN_RUN_TIMEOUT_MS : Int := 1000

/-- `MAX_RUN_TIMEOUT_MS`. -/
def MAX_RUN_TIMEOUT_MS : Int := 300000

/-! ## `int(value)` -/

/-- What `int(value)` raises. -/
inductive IntError
  | typeError
  | valueError
  | overflowError
deriving DecidableEq

/-- The value of a float without its fraction. -/
def truncated (negative : Bool) (m : Nat) (e : Int) : Int :=
  let n : Nat := if 0 ≤ e then m * 2 ^ e.toNat else m / 2 ^ (-e).toNat
  if negative then -n else n

section IntOfText

-- the value of a decimal digit outside ASCII (`Py_UNICODE_TODECIMAL`)
variable (foreignDigit : CodePoint → Option Nat)

/-- White space around a number: that of C for ASCII, that of `str.isspace` otherwise. -/
def isNumberSpace (c : CodePoint) : Bool :=
  if c.val < 0x80 then decide (c.val = 0x20 ∨ 0x09 ≤ c.val ∧ c.val ≤ 0x0D) else isSpace c

def digitOf (c : CodePoint) : Option Nat :=
  if c.val < 0x80 then decimalDigit c else if isSpace c then none else foreignDigit c

/-- Digits with single underscores between them, after the number `n`; `digit` says whether
the last character was a digit. -/
def readDigits (n : Nat) (digit : Bool) : PyStr → Option Nat
  | [] => if digit then some n else none
  | c :: s =>
      if c.val = 0x5F then if digit then readDigits n false s else none
      else
        match digitOf foreignDigit c with
        | none => none
        | some d => readDigits (n * 10 + d) true s

/-- `int(s)` for a string; none is a `ValueError`. -/
def intOfText (s : PyStr) : Option Int :=
  let t := (((s.dropWhile isNumberSpace).reverse).dropWhile isNumberSpace).reverse
  let digits := if t.head? = some minus ∨ t.head? = some plus then t.tail else t
  if maxStrDigits < (digits.filter fun c => c.val != 0x5F).length then none
  else
    (readDigits foreignDigit 0 false digits).map fun n =>
      if t.head? = some minus then -(n : Int) else n

/-- `int(value)`. -/
def intOf : Json → Except IntError Int
  | .int n => .ok n
  | .bool b => .ok b.toNat
  | .float (.finite negative m e) => .ok (truncated negative m e)
  | .float .nan => .error .valueError
  | .float (.inf _) => .error .overflowError
  | .str s =>
      match intOfText foreignDigit s with
      | some n => .ok n
      | none => .error .valueError
  | .null => .error .typeError
  | .arr _ => .error .typeError
  | .obj _ => .error .typeError

/-! ## The validator -/

/-- `_as_int`. -/
def asInt (value : Json) : Except IntError (Option Int) :=
  match intOf foreignDigit value with
  | .ok n => .ok (some n)
  | .error .typeError => .ok none
  | .error .valueError => .ok none
  | .error .overflowError => .error .overflowError

/-- What the validator makes of a number. -/
def clampBudget (ms : Int) : Option Int :=
  if ms ≤ 0 then none
  else if ms < MIN_RUN_TIMEOUT_MS then some MIN_RUN_TIMEOUT_MS
  else if MAX_RUN_TIMEOUT_MS < ms then some MAX_RUN_TIMEOUT_MS
  else some ms

/-- `JobPayload._sanitise_run_budget`. -/
def sanitiseRunBudget (value : Json) : Except IntError (Option Int) :=
  match value with
  | .null => .ok none
  | .bool _ => .ok none
  | value =>
      match asInt foreignDigit value with
      | .error e => .error e
      | .ok none => .ok none
      | .ok (some ms) => .ok (clampBudget ms)

/-! ## Budgets -/

/-- The integer part of a number. -/
def integerPart : Json → Option Int
  | .int n => some n
  | .float (.finite negative m e) => some (truncated negative m e)
  | _ => none

/-- The value leaves the job without a budget or with one in range, and a number counts by
its integer part. -/
def Survived (value : Json) : Prop :=
  ∃ budget, sanitiseRunBudget foreignDigit value = .ok budget ∧
    (∀ ms, budget = some ms → MIN_RUN_TIMEOUT_MS ≤ ms ∧ ms ≤ MAX_RUN_TIMEOUT_MS) ∧
    ∀ n, integerPart value = some n → 1 ≤ n →
      budget = some (max MIN_RUN_TIMEOUT_MS (min n MAX_RUN_TIMEOUT_MS))

theorem clampBudget_in_range {n ms : Int} (h : clampBudget n = some ms) :
    MIN_RUN_TIMEOUT_MS ≤ ms ∧ ms ≤ MAX_RUN_TIMEOUT_MS := by
  unfold clampBudget MIN_RUN_TIMEOUT_MS MAX_RUN_TIMEOUT_MS at *
  split at h
  · cases h
  · split at h
    · cases h
      omega
    · split at h
      · cases h
        omega
      · cases h
        omega

theorem clampBudget_of_pos {n : Int} (h : 1 ≤ n) :
    clampBudget n = some (max MIN_RUN_TIMEOUT_MS (min n MAX_RUN_TIMEOUT_MS)) := by
  unfold clampBudget MIN_RUN_TIMEOUT_MS MAX_RUN_TIMEOUT_MS
  rw [if_neg (by omega)]
  split
  · congr 1
    omega
  · split
    · congr 1
      omega
    · congr 1
      omega

/-- A value that `int` takes. -/
theorem survived_of_number {value : Json} {n : Int}
    (hvalue : sanitiseRunBudget foreignDigit value = .ok (clampBudget n))
    (hpart : ∀ k, integerPart value = some k → k = n) : Survived foreignDigit value := by
  refine ⟨clampBudget n, hvalue, fun ms hms => clampBudget_in_range hms, fun k hk hpos => ?_⟩
  rw [hpart k hk] at hpos
  rw [hpart k hk]
  exact clampBudget_of_pos hpos

/-- A value that is no number. -/
theorem survived_of_none {value : Json} (hvalue : sanitiseRunBudget foreignDigit value = .ok none)
    (hpart : integerPart value = none) : Survived foreignDigit value :=
  ⟨none, hvalue, nofun, fun n hn => by rw [hpart] at hn; cases hn⟩

/-- **The dispatched budget.** Only an infinite float costs the job its run. -/
theorem run_budget_survived_iff (value : Json) :
    Survived foreignDigit value ↔ ∀ negative, value ≠ .float (.inf negative) := by
  constructor
  · rintro ⟨budget, hbudget, -⟩ negative rfl
    cases hbudget
  · intro hfinite
    match value, hfinite with
    | .null, _ => exact survived_of_none foreignDigit rfl rfl
    | .bool b, _ => exact survived_of_none foreignDigit rfl rfl
    | .int n, _ => exact survived_of_number foreignDigit rfl fun k hk => (Option.some.inj hk).symm
    | .float (.finite negative m e), _ =>
        exact survived_of_number foreignDigit rfl fun k hk => (Option.some.inj hk).symm
    | .float .nan, _ => exact survived_of_none foreignDigit rfl rfl
    | .float (.inf negative), hfinite => exact absurd rfl (hfinite negative)
    | .str s, _ =>
        cases htext : intOfText foreignDigit s with
        | none =>
            refine survived_of_none foreignDigit ?_ rfl
            simp only [sanitiseRunBudget, asInt, intOf, htext]
        | some n =>
            refine survived_of_number foreignDigit (n := n) ?_ nofun
            simp only [sanitiseRunBudget, asInt, intOf, htext]
    | .arr items, _ => exact survived_of_none foreignDigit rfl rfl
    | .obj fields, _ => exact survived_of_none foreignDigit rfl rfl

/-- A dispatch whose `requestTimeoutMs` is `Infinity`. -/
theorem infinite_budget_raises :
    loads (py "Infinity") = some (.float (.inf false)) ∧
      sanitiseRunBudget (fun _ => none) (.float (.inf false)) = .error .overflowError ∧
      ¬Survived (fun _ => none) (.float (.inf false)) := by
  refine ⟨rfl, rfl, ?_⟩
  rintro ⟨budget, hbudget, -⟩
  cases hbudget

end IntOfText

end ProbeAgent
