import ProbeAgent.NumberText
import ProbeAgent.RunProgress
import ProbeAgent.Substitution

/-!
# What is said of a run that outlived its budget

The clause `run_progress.describe` has for the place where a run stood, and the text of the
notification `_run_budget_timeout` builds from it.  The text is a template of the
dispatcher: a `$` with a brace after it opens the name of a variable, unless a backslash
stands before it.

What follows the agent's own prefix is an escaped text as a whole
(`budgetTimeoutText_eq_escape`), so no URL opens a variable in it.
-/

namespace ProbeAgent

open PyText NumberText

/-- `str(n)`. -/
def strInt (n : Int) : PyStr :=
  (intLexeme n).text

def dollar : CodePoint := 0x24
def openBrace : CodePoint := 0x7B
def escapeChar : CodePoint := 0x5C
def solidus : CodePoint := 0x2F

/-! ## The description -/

/-- Where there are two slashes in a row, there are three parts or more. -/
theorem two_lt_length_splitOn {url : PyStr} (h : [solidus, solidus] <:+: url) :
    2 < (url.splitOn solidus).length := by
  obtain ⟨x, y, rfl⟩ := h
  have hfirst := List.splitOnP_append_cons (p := (· == solidus)) x (solidus :: y)
    (beq_self_eq_true solidus)
  have hsecond := List.splitOnP_append_cons (p := (· == solidus)) [] y
    (beq_self_eq_true solidus)
  have hx := List.length_pos_of_ne_nil (List.splitOnP_ne_nil (· == solidus) x)
  have hy := List.length_pos_of_ne_nil (List.splitOnP_ne_nil (· == solidus) y)
  have hurl : x ++ [solidus, solidus] ++ y = x ++ solidus :: (solidus :: y) := by simp
  rw [List.nil_append] at hsecond
  have hnil := List.length_pos_of_ne_nil (List.splitOnP_ne_nil (· == solidus) [])
  rw [List.splitOn, hurl, hfirst, hsecond]
  simp only [List.length_append]
  omega

/-- The host of a URL, as `describe` looks for it. -/
def describedHost (url : PyStr) : PyStr :=
  if h : [solidus, solidus] <:+: url then
    (url.splitOn solidus).get ⟨2, two_lt_length_splitOn h⟩
  else url

/-- One clause saying where a run was when its budget expired. -/
def describe (stall : Stall) : PyStr :=
  match stall.request with
  | none =>
      let after := py "after " ++ decimal stall.requestsCompleted ++ py " completed request" ++
        (if stall.requestsCompleted = 1 then [] else py "s")
      if stall.phase = .storingBodies then py "storing response bodies, " ++ after
      else py "between requests, " ++ after
  | some (_, _, request) =>
      let what := py "request " ++ decimal (stall.requestsCompleted + 1) ++ py " (" ++
        request.method ++ py " " ++ request.url ++ py ")"
      let waited := strInt stall.phaseMs ++ py "ms"
      match stall.phase with
      | .resolving =>
          what ++ py " was still resolving " ++ describedHost request.url ++ py " after " ++
            waited
      | .connecting => what ++ py " was still connecting after " ++ waited
      | .tlsHandshake => what ++ py " was still in the TLS handshake after " ++ waited
      | .sending => what ++ py " was still being sent after " ++ waited
      | .receiving =>
          what ++ py " was still receiving its response: " ++ decimal request.bytesReceived ++
            py " bytes in " ++ waited
      | _ => what ++ py " had no response after " ++ waited

/-! ## The texts -/

/-- `_SERVICE_PREFIX`. -/
def servicePrefix : PyStr :=
  py "$\x7bs.name\x7d in $\x7bw.name\x7d.$\x7bp.name\x7d"

/-- What opens a variable in a template. -/
def templateOpen : PyStr := [dollar, openBrace]

/-- A text that opens no variable: `where.replace('${', chr(92) + '${')`. -/
def escapeTemplate (s : PyStr) : PyStr :=
  Substitution.escape escapeChar templateOpen s

/-- One backslash less before each opening. -/
def unescapeTemplate (s : PyStr) : PyStr :=
  Substitution.unescape escapeChar templateOpen s

def timedOutClause (budgetMs : Int) : PyStr :=
  py " timed out: the run did not complete within " ++ strInt budgetMs ++ py "ms"

/-- The text of the notification. -/
def budgetTimeoutText (budgetMs : Int) (stall : Option Stall) : PyStr :=
  let text := servicePrefix ++ timedOutClause budgetMs
  match stall with
  | none => text
  | some s => text ++ py " (" ++ escapeTemplate (describe s) ++ py ")"

/-! ## No variable is opened -/

/-- Text in which no opening begins or ends. -/
def Plain (s : PyStr) : Prop := ∀ c ∈ s, c ∉ templateOpen

theorem plain_of_all {s : PyStr} (h : s.all (fun c => decide (c ∉ templateOpen)) = true) :
    Plain s := by
  simpa [Plain, List.all_eq_true] using h

theorem Plain.append {s t : PyStr} (hs : Plain s) (ht : Plain t) : Plain (s ++ t) := by
  intro c hc
  rcases List.mem_append.mp hc with hc | hc
  · exact hs c hc
  · exact ht c hc

theorem plain_decimal (n : Nat) : Plain (decimal n) := by
  intro c hc hopen
  have hdigit := (digits_decimal n).digits c hc
  rcases List.mem_pair.mp hopen with rfl | rfl
  · exact absurd hdigit (by decide)
  · exact absurd hdigit (by decide)

theorem plain_strInt (n : Int) : Plain (strInt n) := by
  have hsign : Plain (if decide (n < 0) = true then [minus] else []) := by
    split
    · exact plain_of_all (by decide)
    · exact plain_of_all (by decide)
  have htext : strInt n = (if decide (n < 0) = true then [minus] else []) ++ decimal n.natAbs := by
    simp [strInt, intLexeme, Lexeme.text, Lexeme.fractionText, Lexeme.exponentText]
  rw [htext]
  exact hsign.append (plain_decimal n.natAbs)

theorem plain_timedOutClause (budgetMs : Int) : Plain (timedOutClause budgetMs) :=
  ((plain_of_all (by decide +kernel)).append (plain_strInt budgetMs)).append
    (plain_of_all (by decide +kernel))

theorem templateOpen_ne_nil : templateOpen ≠ [] := List.cons_ne_nil _ _

theorem escapeChar_notMem : escapeChar ∉ templateOpen := by decide

theorem escapeTemplate_plain_append {lit : PyStr} (h : Plain lit) (s : PyStr) :
    escapeTemplate (lit ++ s) = lit ++ escapeTemplate s :=
  Substitution.replace_append_left _ h templateOpen_ne_nil s

theorem escapeTemplate_append_plain {lit : PyStr} (h : Plain lit) (s : PyStr) :
    escapeTemplate (s ++ lit) = escapeTemplate s ++ lit :=
  Substitution.replace_append_right _ h templateOpen_ne_nil s

/-- The backslashes taken away again, the text is what it was. -/
theorem unescape_escapeTemplate (s : PyStr) : unescapeTemplate (escapeTemplate s) = s :=
  Substitution.unescape_escape templateOpen_ne_nil escapeChar_notMem s

theorem escapeTemplate_injective : Function.Injective escapeTemplate :=
  Substitution.escape_injective templateOpen_ne_nil escapeChar_notMem

/-- What the text says after the agent's own prefix, before it is escaped. -/
def budgetTimeoutClause (budgetMs : Int) (stall : Stall) : PyStr :=
  timedOutClause budgetMs ++ py " (" ++ describe stall ++ py ")"

/-- The literal text around the description makes no opening and takes none apart. -/
theorem escapeTemplate_clause (budgetMs : Int) (stall : Stall) :
    escapeTemplate (budgetTimeoutClause budgetMs stall) =
      timedOutClause budgetMs ++ py " (" ++ escapeTemplate (describe stall) ++ py ")" := by
  have hparen : Plain (py " (") := plain_of_all (by decide +kernel)
  have hclose : Plain (py ")") := plain_of_all (by decide +kernel)
  have hbefore := (plain_timedOutClause budgetMs).append hparen
  rw [budgetTimeoutClause, escapeTemplate_append_plain hclose,
    escapeTemplate_plain_append hbefore]

/-- What follows the prefix is an escaped text as a whole. -/
theorem budgetTimeoutText_eq_escape (budgetMs : Int) (stall : Stall) :
    budgetTimeoutText budgetMs (some stall) =
      servicePrefix ++ escapeTemplate (budgetTimeoutClause budgetMs stall) := by
  rw [escapeTemplate_clause]
  simp only [budgetTimeoutText, List.append_assoc]

/-- **In the text a backslash stands before every opening past the prefix, and with these
taken away it is the description that stands there.** -/
theorem budget_timeout_text_escaped (budgetMs : Int) (stall : Stall) :
    ∃ escaped : PyStr,
      budgetTimeoutText budgetMs (some stall) =
        servicePrefix ++ (timedOutClause budgetMs ++ py " (" ++ escaped ++ py ")") ∧
      (∀ x y : PyStr, budgetTimeoutText budgetMs (some stall) = x ++ templateOpen ++ y →
        servicePrefix.length ≤ x.length → ∃ x', x = x' ++ [escapeChar]) ∧
      unescapeTemplate escaped = describe stall ∧
      unescapeTemplate (timedOutClause budgetMs ++ py " (" ++ escaped ++ py ")") =
        timedOutClause budgetMs ++ py " (" ++ describe stall ++ py ")" ∧
      (∀ other : Stall,
        budgetTimeoutText budgetMs (some other) = budgetTimeoutText budgetMs (some stall) →
          describe other = describe stall) ∧
      Function.Injective escapeTemplate := by
  have heq := budgetTimeoutText_eq_escape budgetMs
  refine ⟨escapeTemplate (describe stall), ?_, ?_, unescape_escapeTemplate _, ?_, ?_, ?_⟩
  · rw [heq, escapeTemplate_clause]
  · intro x y htext hpast
    rw [heq, List.append_assoc] at htext
    obtain ⟨d, rfl, htail⟩ := Substitution.exists_of_append_eq htext hpast
    rw [← List.append_assoc] at htail
    obtain ⟨x', rfl⟩ :=
      Substitution.preceded_of_escape_eq (by decide) escapeChar_notMem htail
    exact ⟨servicePrefix ++ x', by rw [List.append_assoc]⟩
  · rw [← escapeTemplate_clause, unescape_escapeTemplate, budgetTimeoutClause]
  · intro other htext
    rw [heq, heq] at htext
    have hclause := escapeTemplate_injective (List.append_cancel_left htext)
    exact List.append_cancel_left (List.append_cancel_right hclause)
  · exact escapeTemplate_injective

end ProbeAgent
