import ProbeAgent.Announcement
import ProbeAgent.Effects
import ProbeAgent.PyValue

/-!
# The configuration a script runs under (`executor._run_sync`)

`LaceExecutor` comes with the configuration the operator has written, and `_run_sync` writes
into it what this run needs: the `User-Agent` of the deployment, where bodies are kept, and
the texts of two messages.  The texts are defaults, so the operator's own stand
(`operator_config_kept`).
-/

namespace ProbeAgent

open PyText Effects

/-! ## Dictionaries in dictionaries -/

namespace Json

/-- The fields of a dictionary after `d[key] = x`. -/
def put (fields : List (PyStr × Json)) (key : PyStr) (x : Json) : List (PyStr × Json) :=
  if (fields.lookup key).isSome then fields.map fun f => if f.1 = key then (key, x) else f
  else fields ++ [(key, x)]

/-- `v[key] = x`. -/
def assign (v : Json) (key : PyStr) (x : Json) : Except PyExc Json :=
  match v with
  | obj fields => .ok (obj (put fields key x))
  | arr _ => .error (.typeError "list indices must be integers or slices, not str")
  | v => .error (.typeError s!"'{v.typeName}' object does not support item assignment")

/-- What is done to `v.setdefault(key, default)`. -/
def within (v : Json) (key : PyStr) (default : Json) (f : Json → Except PyExc Json) :
    Except PyExc Json :=
  match v with
  | obj fields => do
      let inner ← f ((fields.lookup key).getD default)
      return obj (put fields key inner)
  | v => .error (.attributeError v.typeName "setdefault")

/-- `v.setdefault(key, default)`, where it is not used. -/
def setdefault (v : Json) (key : PyStr) (default : Json) : Except PyExc Json :=
  v.within key default .ok

/-- The value the path leads to through dictionaries. -/
def at_ : Json → List PyStr → Option Json
  | v, [] => some v
  | obj fields, key :: path => (fields.lookup key).bind (at_ · path)
  | _, _ :: _ => none

theorem lookup_put_self (fields : List (PyStr × Json)) (key : PyStr) (x : Json) :
    (put fields key x).lookup key = some x := by
  rw [put]
  split
  · rename_i hsome
    induction fields with
    | nil => cases hsome
    | cons f fields ih =>
        obtain ⟨k, y⟩ := f
        by_cases hk : k = key
        · simp [hk]
        · have hne : (key == k) = false := beq_eq_false_iff_ne.mpr (Ne.symm hk)
          rw [List.lookup_cons, hne] at hsome
          rw [List.map_cons, if_neg hk, List.lookup_cons, hne]
          exact ih hsome
  · rename_i hnone
    rw [Bool.not_eq_true, Option.isSome_eq_false_iff, Option.isNone_iff_eq_none] at hnone
    rw [List.lookup_append, hnone]
    simp

theorem lookup_put_of_ne {key other : PyStr} (h : other ≠ key) (fields : List (PyStr × Json))
    (x : Json) : (put fields key x).lookup other = fields.lookup other := by
  have hne : (other == key) = false := beq_eq_false_iff_ne.mpr h
  rw [put]
  split
  · clear * - h hne
    induction fields with
    | nil => rfl
    | cons f fields ih =>
        obtain ⟨k, y⟩ := f
        rw [List.map_cons]
        by_cases hk : k = key
        · rw [if_pos hk, List.lookup_cons, List.lookup_cons, hk, hne]
          exact ih
        · rw [if_neg hk, List.lookup_cons, List.lookup_cons, ih]
  · rw [List.lookup_append, List.lookup_cons, hne]
    simp

/-- What a path that begins with the key leads to, and any other. -/
theorem at_of_within {key : PyStr} {default v v' : Json} {f : Json → Except PyExc Json}
    (h : v.within key default f = .ok v') :
    ∃ inner, f ((v.at_ [key]).getD default) = .ok inner ∧
      (∀ path, v'.at_ (key :: path) = inner.at_ path) ∧
      ∀ other path, other ≠ key → v'.at_ (other :: path) = v.at_ (other :: path) := by
  cases v with
  | obj fields =>
      obtain ⟨inner, hf, hput⟩ := except_bind_eq_ok.mp h
      cases hput
      refine ⟨inner, ?_, fun path => ?_, fun other path hne => ?_⟩
      · rw [at_]
        simpa [at_] using hf
      · rw [at_, lookup_put_self, Option.bind_some]
      · rw [at_, at_, lookup_put_of_ne hne]
  | _ => cases h

/-- Neither path leads through the other's end. -/
def Apart (p q : List PyStr) : Prop := ¬p <+: q ∧ ¬q <+: p

theorem Apart.symm {p q : List PyStr} (h : Apart p q) : Apart q p := ⟨h.2, h.1⟩

/-- What the path leads to has been changed in this way, and nothing apart from it. -/
structure EditedAt (path : List PyStr) (g : Option Json → Option Json) (v v' : Json) :
    Prop where
  there : v'.at_ path = g (v.at_ path)
  apart : ∀ p, Apart p path → v'.at_ p = v.at_ p

theorem EditedAt.refl (path : List PyStr) (v : Json) : EditedAt path id v v :=
  ⟨rfl, fun _ _ => rfl⟩

theorem EditedAt.trans {path : List PyStr} {g g' : Option Json → Option Json} {v v' v'' : Json}
    (h : EditedAt path g v v') (h' : EditedAt path g' v' v'') :
    EditedAt path (g' ∘ g) v v'' :=
  ⟨by rw [h'.there, h.there, Function.comp_apply],
    fun p hp => (h'.apart p hp).trans (h.apart p hp)⟩

/-- An edit that is made or not. -/
theorem editedAt_ite {path : List PyStr} {g : Option Json → Option Json} {v v' : Json}
    {c : Bool} {edit : Except PyExc Json} (h : (if c then edit else .ok v) = .ok v')
    (hedit : edit = .ok v' → EditedAt path g v v') :
    EditedAt path (fun x => if c then g x else x) v v' := by
  cases c with
  | false =>
      cases h
      exact .refl path v
  | true => exact hedit h

/-- An edit of the last key of the path. -/
theorem editedAt_of_within {key : PyStr} {default v v' x : Json} {f : Json → Except PyExc Json}
    (h : v.within key default f = .ok v')
    (hf : f ((v.at_ [key]).getD default) = .ok x) : EditedAt [key] (fun _ => some x) v v' := by
  obtain ⟨inner, hinner, hat, hother⟩ := at_of_within h
  rw [hf, Except.ok.injEq] at hinner
  subst hinner
  refine ⟨hat [], fun p hp => ?_⟩
  cases p with
  | nil => exact absurd List.nil_prefix hp.1
  | cons other p =>
      refine hother other p fun heq => hp.2 ?_
      rw [heq]
      exact ⟨p, rfl⟩

theorem editedAt_setdefault {key : PyStr} {default v v' : Json}
    (h : v.setdefault key default = .ok v') :
    EditedAt [key] (fun x => some (x.getD default)) v v' := by
  obtain ⟨hthere, hapart⟩ := editedAt_of_within h rfl
  exact ⟨hthere, hapart⟩

theorem editedAt_assign {key : PyStr} {x v v' : Json} (h : v.assign key x = .ok v') :
    EditedAt [key] (fun _ => some x) v v' := by
  cases v with
  | obj fields =>
      have hwithin : (obj fields).within key x (fun _ => .ok x) = .ok v' := h
      exact editedAt_of_within hwithin rfl
  | _ => cases h

/-- An edit further down. -/
theorem EditedAt.within {key : PyStr} {path : List PyStr} {g : Option Json → Option Json}
    {v v' : Json} {f : Json → Except PyExc Json} (hpath : path ≠ [])
    (h : v.within key (obj []) f = .ok v')
    (hf : ∀ inner inner', f inner = .ok inner' → EditedAt path g inner inner') :
    EditedAt (key :: path) g v v' := by
  obtain ⟨inner, hinner, hat, hother⟩ := at_of_within h
  have hedited := hf _ _ hinner
  -- a section that was missing has nothing in it
  have hbelow : ∀ p, p ≠ [] → ((v.at_ [key]).getD (obj [])).at_ p = v.at_ (key :: p) := by
    intro p hp
    obtain ⟨k, p, rfl⟩ := List.exists_cons_of_ne_nil hp
    cases v with
    | obj fields =>
        rw [at_, at_]
        cases hkey : fields.lookup key with
        | none => rfl
        | some x => rfl
    | _ => rfl
  refine ⟨?_, fun p hp => ?_⟩
  · rw [hat, hedited.there, hbelow path hpath]
  · cases p with
    | nil => exact absurd List.nil_prefix hp.1
    | cons other p =>
        by_cases hkey : other = key
        · subst hkey
          have hp' : Apart p path :=
            ⟨fun hpre => hp.1 (List.prefix_cons_inj other |>.mpr hpre),
              fun hpre => hp.2 (List.prefix_cons_inj other |>.mpr hpre)⟩
          have hne : p ≠ [] := by
            rintro rfl
            exact hp'.1 List.nil_prefix
          rw [hat, hedited.apart p hp', hbelow p hne]
        · exact hother other p hkey

end Json

/-! ## The configuration -/

/-- `variables.get(name) == text`. -/
def variableIs (vars : List (PyStr × Json)) (name text : PyStr) : Bool :=
  match vars.lookup name with
  | some (.str s) => s == text
  | _ => false

/-- The extensions loaded. -/
def activeExtensions (vars : List (PyStr × Json)) : List PyStr :=
  [py "laceNotifications"] ++
    (if variableIs vars (py "trackBaseline") (py "true") then [py "laceBaseline"] else []) ++
    if variableIs vars (py "notifyRecovery") (py "false") then [] else [py "laceEmitRecovery"]

def timeoutMessage : PyStr := servicePrefix ++ py " call to $\x7burl\x7d timed out"

def recoveryMessage : PyStr := servicePrefix ++ py " recovered"

section Writing

variable (config : Json)

/-- `config.setdefault("executor", {})["user_agent"] = _user_agent`, if there is one. -/
def writeUserAgent (userAgent : PyStr) : Except PyExc Json :=
  if !userAgent.isEmpty then
    config.within (py "executor") (.obj []) (·.assign (py "user_agent") (.str userAgent))
  else .ok config

/-- `config["result"]["bodies"] = {"dir": bodies_dir}`, if the dispatch allows it. -/
def writeBodies (bodiesDir : PyStr) (allowBodySave : Bool) : Except PyExc Json :=
  if allowBodySave then
    config.within (py "result") (.obj [])
      (·.assign (py "bodies") (.obj [(py "dir", .str bodiesDir)]))
  else .ok config

/-- `config.setdefault("extensions", {}).setdefault(extension, {}).setdefault(key, text)`. -/
def writeMessage (extension key text : PyStr) : Except PyExc Json :=
  config.within (py "extensions") (.obj [])
    (·.within extension (.obj []) (·.setdefault key (.str text)))

def writeRecoveryMessage (extensions : List PyStr) : Except PyExc Json :=
  if extensions.contains (py "laceEmitRecovery") then
    writeMessage config (py "laceEmitRecovery") (py "recovery_message") recoveryMessage
  else .ok config

/-- What is written into `executor._config`. -/
def runConfig (userAgent bodiesDir : PyStr) (allowBodySave : Bool) (extensions : List PyStr) :
    Except PyExc Json := do
  let config ← writeUserAgent config userAgent
  let config ← config.setdefault (py "result") (.obj [])
  let config ← writeBodies config bodiesDir allowBodySave
  let config ← writeMessage config (py "laceNotifications") (py "timeout_message") timeoutMessage
  writeRecoveryMessage config extensions

end Writing

/-- Where the configuration is written to. -/
def userAgentPath : List PyStr := [py "executor", py "user_agent"]

def bodiesPath : List PyStr := [py "result", py "bodies"]

def timeoutMessagePath : List PyStr :=
  [py "extensions", py "laceNotifications", py "timeout_message"]

def recoveryMessagePath : List PyStr :=
  [py "extensions", py "laceEmitRecovery", py "recovery_message"]

def writtenPaths : List (List PyStr) :=
  [userAgentPath, bodiesPath, timeoutMessagePath, recoveryMessagePath]

instance decidableApart (p q : List PyStr) : Decidable (Json.Apart p q) :=
  inferInstanceAs (Decidable (_ ∧ _))

theorem writtenPaths_apart : writtenPaths.Pairwise Json.Apart := by decide +kernel

section Written

variable {userAgent bodiesDir : PyStr} {allowBodySave : Bool} {extensions : List PyStr}
  {config out : Json}

theorem editedAt_writeMessage {extension key text : PyStr} {v v' : Json}
    (h : writeMessage v extension key text = .ok v') :
    Json.EditedAt [py "extensions", extension, key] (fun x => some (x.getD (.str text))) v v' :=
  .within (List.cons_ne_nil _ _) h fun _ _ hmessages =>
    .within (List.cons_ne_nil _ _) hmessages fun _ _ => Json.editedAt_setdefault

/-- The four edits, one after the other. -/
theorem runConfig_edits
    (h : runConfig config userAgent bodiesDir allowBodySave extensions = .ok out) :
    ∃ v₁ v₂ v₃,
      Json.EditedAt userAgentPath
        (fun x => if !userAgent.isEmpty then some (.str userAgent) else x) config v₁ ∧
      Json.EditedAt bodiesPath
        (fun x => if allowBodySave then some (.obj [(py "dir", .str bodiesDir)]) else x) v₁ v₂ ∧
      Json.EditedAt timeoutMessagePath (fun x => some (x.getD (.str timeoutMessage))) v₂ v₃ ∧
      Json.EditedAt recoveryMessagePath
        (fun x => if extensions.contains (py "laceEmitRecovery") then
          some (x.getD (.str recoveryMessage)) else x) v₃ out := by
  obtain ⟨v₁, hagent, h⟩ := except_bind_eq_ok.mp h
  obtain ⟨w, hresult, h⟩ := except_bind_eq_ok.mp h
  obtain ⟨v₂, hbodies, h⟩ := except_bind_eq_ok.mp h
  obtain ⟨v₃, htimeout, hrecovery⟩ := except_bind_eq_ok.mp h
  have hsection : Json.EditedAt bodiesPath id v₁ w :=
    .within (List.cons_ne_nil _ _) hresult fun inner inner' hinner => by
      cases hinner
      exact .refl _ _
  have hsaved : Json.EditedAt bodiesPath
      (fun x => if allowBodySave then some (.obj [(py "dir", .str bodiesDir)]) else x) w v₂ :=
    Json.editedAt_ite hbodies fun hedit =>
      .within (List.cons_ne_nil _ _) hedit fun _ _ => Json.editedAt_assign
  refine ⟨v₁, v₂, v₃, Json.editedAt_ite hagent fun hedit => ?_, hsection.trans hsaved,
    editedAt_writeMessage htimeout, Json.editedAt_ite hrecovery editedAt_writeMessage⟩
  exact .within (List.cons_ne_nil _ _) hedit fun _ _ => Json.editedAt_assign

/-- **The operator's configuration is kept.** Whatever it is: a script runs under the
`User-Agent` of the deployment if there is one, has its bodies kept in the directory of the run
if the dispatch allows it, and announces with the operator's texts or, where there are none, the
agent's; everything else is as the operator has it. -/
theorem operator_config_kept
    (h : runConfig config userAgent bodiesDir allowBodySave extensions = .ok out) :
    out.at_ userAgentPath =
        (if userAgent.isEmpty then config.at_ userAgentPath else some (.str userAgent)) ∧
      out.at_ bodiesPath =
        (if allowBodySave then some (.obj [(py "dir", .str bodiesDir)])
          else config.at_ bodiesPath) ∧
      out.at_ timeoutMessagePath =
        some ((config.at_ timeoutMessagePath).getD (.str timeoutMessage)) ∧
      out.at_ recoveryMessagePath =
        (if extensions.contains (py "laceEmitRecovery") then
            some ((config.at_ recoveryMessagePath).getD (.str recoveryMessage))
          else config.at_ recoveryMessagePath) ∧
      ∀ path, (∀ written ∈ writtenPaths, Json.Apart path written) →
        out.at_ path = config.at_ path := by
  obtain ⟨v₁, v₂, v₃, hagent, hbodies, htimeout, hrecovery⟩ := runConfig_edits h
  have hpairs := writtenPaths_apart
  simp only [writtenPaths, List.pairwise_cons, List.mem_cons, List.not_mem_nil, or_false,
    forall_eq_or_imp, forall_eq] at hpairs
  obtain ⟨⟨hab, hat, har⟩, ⟨hbt, hbr⟩, htr, -⟩ := hpairs
  refine ⟨?_, ?_, ?_, ?_, fun path hpath => ?_⟩
  · rw [hrecovery.apart _ har, htimeout.apart _ hat, hbodies.apart _ hab, hagent.there]
    cases userAgent.isEmpty <;> rfl
  · rw [hrecovery.apart _ hbr, htimeout.apart _ hbt, hbodies.there, hagent.apart _ hab.symm]
  · rw [hrecovery.apart _ htr, htimeout.there, hbodies.apart _ hbt.symm,
      hagent.apart _ hat.symm]
  · rw [hrecovery.there, htimeout.apart _ htr.symm, hbodies.apart _ hbr.symm,
      hagent.apart _ har.symm]
  · simp only [writtenPaths, List.mem_cons, List.not_mem_nil, or_false, forall_eq_or_imp,
      forall_eq] at hpath
    obtain ⟨ha, hb, ht, hr⟩ := hpath
    rw [hrecovery.apart _ hr, htimeout.apart _ ht, hbodies.apart _ hb, hagent.apart _ ha]

end Written

/-- An operator with a limit and a text of their own. -/
def sampleOperatorConfig : Json :=
  .obj [(py "executor", .obj [(py "maxTimeoutMs", .int 30000)]),
    (py "extensions",
      .obj [(py "laceNotifications", .obj [(py "timeout_message", .str (py "late"))])])]

theorem operator_config_kept_texts :
    ∃ out, runConfig sampleOperatorConfig (py "probe/1") (py "/tmp/b") true
        (activeExtensions []) = .ok out ∧
      out.at_ userAgentPath = some (.str (py "probe/1")) ∧
      out.at_ timeoutMessagePath = some (.str (py "late")) ∧
      out.at_ recoveryMessagePath = some (.str recoveryMessage) ∧
      out.at_ [py "executor", py "maxTimeoutMs"] = some (.int 30000) := by
  obtain ⟨out, hout⟩ : ∃ out, runConfig sampleOperatorConfig (py "probe/1") (py "/tmp/b") true
      (activeExtensions []) = .ok out := ⟨_, rfl⟩
  obtain ⟨hagent, -, htimeout, hrecovery, hrest⟩ := operator_config_kept hout
  exact ⟨out, hout, hagent, htimeout, hrecovery, hrest _ (by decide +kernel)⟩

end ProbeAgent
