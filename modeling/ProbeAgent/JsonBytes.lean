import ProbeAgent.JsonText

/-!
# JSON in bytes

Which values `dumps` can write, which of the texts UTF-8 can carry, and `json.loads` of
bytes, which finds out the encoding first.

A value whose numbers and strings a style can write is read back from its bytes
(`loadsBytes_dumps`); one that has a number or a string it cannot is not written at all
(`written_iff`).
-/

namespace JsonText

open PyText NumberText ProbeAgent

/-! ## Which values can be written -/

/-- Neither not a number nor an infinity. -/
def IsFinite (x : PyFloat) : Prop :=
  ∃ negative m e, x = .finite negative m e

theorem floatText_isSome_iff (allowNan : Bool) (x : PyFloat) :
    (∃ t, floatText allowNan x = some t) ↔ allowNan = true ∨ IsFinite x := by
  cases x with
  | nan => cases allowNan <;> simp [floatText, IsFinite]
  | inf negative => cases allowNan <;> simp [floatText, IsFinite]
  | finite negative m e => simp [floatText, IsFinite]

theorem intText_isSome_iff (n : Int) : (∃ t, intText n = some t) ↔ FewDigits n := by
  rw [intText]
  split
  · rename_i hfew
    exact iff_of_true ⟨_, rfl⟩ hfew
  · rename_i hmany
    exact iff_of_false (by rintro ⟨t, ⟨⟩⟩) hmany

mutual

/-- Only its numbers can keep a value from being written. -/
theorem dumps_isSome_iff (style : Style) :
    ∀ v : Json, (∃ t, dumps style v = some t) ↔
      Everywhere FewDigits (fun x => style.allowNan = true ∨ IsFinite x) (fun _ => True) v
  | .null => by simp [dumps, Everywhere]
  | .bool true => by simp [dumps, Everywhere]
  | .bool false => by simp [dumps, Everywhere]
  | .int n => by simpa [dumps, Everywhere] using intText_isSome_iff n
  | .float x => by simpa [dumps, Everywhere] using floatText_isSome_iff _ x
  | .str s => by simp [dumps, Everywhere]
  | .arr [] => by simp [dumps, Everywhere, EverywhereItems]
  | .arr (v :: vs) => by
      rw [Everywhere, EverywhereItems, ← dumps_isSome_iff style v,
        ← dumpsItems_isSome_iff style vs]
      constructor
      · rintro ⟨t, ht⟩
        obtain ⟨tv, ts, hv, hvs, -⟩ := dumps_arr_cons ht
        exact ⟨⟨tv, hv⟩, ⟨ts, hvs⟩⟩
      · rintro ⟨⟨tv, hv⟩, ⟨ts, hvs⟩⟩
        simp only [dumps, hv, hvs]
        exact ⟨_, rfl⟩
  | .obj [] => by simp [dumps, Everywhere, EverywhereMembers]
  | .obj ((k, v) :: fs) => by
      rw [Everywhere, EverywhereMembers, true_and, ← dumps_isSome_iff style v,
        ← dumpsMembers_isSome_iff style fs]
      constructor
      · rintro ⟨t, ht⟩
        obtain ⟨tv, ts, hv, hfs, -⟩ := dumps_obj_cons ht
        exact ⟨⟨tv, hv⟩, ⟨ts, hfs⟩⟩
      · rintro ⟨⟨tv, hv⟩, ⟨ts, hfs⟩⟩
        simp only [dumps, hv, hfs]
        exact ⟨_, rfl⟩

theorem dumpsItems_isSome_iff (style : Style) :
    ∀ vs : List Json, (∃ t, dumpsItems style vs = some t) ↔
      EverywhereItems FewDigits (fun x => style.allowNan = true ∨ IsFinite x) (fun _ => True) vs
  | [] => by simp [dumpsItems, EverywhereItems]
  | v :: vs => by
      rw [EverywhereItems, ← dumps_isSome_iff style v, ← dumpsItems_isSome_iff style vs]
      constructor
      · rintro ⟨t, ht⟩
        obtain ⟨tv, ts, hv, hvs, -⟩ := dumpsItems_cons ht
        exact ⟨⟨tv, hv⟩, ⟨ts, hvs⟩⟩
      · rintro ⟨⟨tv, hv⟩, ⟨ts, hvs⟩⟩
        simp only [dumpsItems, hv, hvs]
        exact ⟨_, rfl⟩

theorem dumpsMembers_isSome_iff (style : Style) :
    ∀ fs : List (PyStr × Json), (∃ t, dumpsMembers style fs = some t) ↔
      EverywhereMembers FewDigits (fun x => style.allowNan = true ∨ IsFinite x) (fun _ => True) fs
  | [] => by simp [dumpsMembers, EverywhereMembers]
  | (k, v) :: fs => by
      rw [EverywhereMembers, true_and, ← dumps_isSome_iff style v,
        ← dumpsMembers_isSome_iff style fs]
      constructor
      · rintro ⟨t, ht⟩
        obtain ⟨tv, ts, hv, hfs, -⟩ := dumpsMembers_cons ht
        exact ⟨⟨tv, hv⟩, ⟨ts, hfs⟩⟩
      · rintro ⟨⟨tv, hv⟩, ⟨ts, hfs⟩⟩
        simp only [dumpsMembers, hv, hfs]
        exact ⟨_, rfl⟩

end

/-! ## The characters of a text -/

theorem isPrintable_of_bounds {c : CodePoint} (hlow : 0x20 ≤ c.val) (hhigh : c.val < 0x7F) :
    isPrintable c = true :=
  decide_eq_true ⟨hlow, hhigh⟩

/-- What a character is written with: printable ASCII, or itself. -/
theorem mem_escapeChar {ascii : Bool} {c x : CodePoint} (h : x ∈ escapeChar ascii c) :
    isPrintable x = true ∨ (x = c ∧ 0x20 ≤ c.val ∧ ascii = false) := by
  have hprintable : ∀ {s : PyStr}, s.all isPrintable = true → x ∈ s →
      isPrintable x = true ∨ (x = c ∧ 0x20 ≤ c.val ∧ ascii = false) :=
    fun hs hx => .inl (List.all_eq_true.mp hs x hx)
  have hhex : ∀ n, isPrintable (hexDigit (n % 16)) = true := by
    intro n
    have hval := hexDigit_val (Nat.mod_lt n (show 0 < 16 by decide))
    exact isPrintable_of_bounds (by omega) (by omega)
  have hunit : ∀ n, (escapeUnit n).all isPrintable = true := by
    intro n
    simp only [escapeUnit, hex4, List.all_cons, List.all_nil, hhex, Bool.and_true]
    rfl
  have hescaped := escaped_escapeChar ascii c
  generalize escapeChar ascii c = text at h hescaped
  cases hescaped with
  | letter y hy hu hp =>
      exact hprintable (by simpa using ⟨show isPrintable backslash = true from rfl, hp⟩) h
  | unit hlt => exact hprintable (hunit _) h
  | pair hle => exact hprintable (by rw [List.all_append, hunit, hunit]; rfl) h
  | plain hquote hbackslash hlow hascii =>
      rw [List.mem_singleton] at h
      subst h
      rcases hascii with hascii | hp
      · exact .inr ⟨rfl, hlow, hascii⟩
      · exact .inl hp

section Characters

variable {P : CodePoint → Prop} (hprintable : ∀ c : CodePoint, isPrintable c = true → P c)
include hprintable

/-- The texts of strings whose own characters have the property. -/
def StringsHave (ascii : Bool) (P : CodePoint → Prop) (s : PyStr) : Prop :=
  ascii = false → ∀ c ∈ s, 0x20 ≤ c.val → P c

theorem forall_stringText {ascii : Bool} {s : PyStr} (h : StringsHave ascii P s) :
    ∀ c ∈ stringText ascii s, P c := by
  have hquote : P quote := hprintable quote (by decide)
  simp only [stringText, List.forall_mem_cons, List.forall_mem_append, List.mem_flatMap]
  refine ⟨hquote, ?_, hquote, by simp⟩
  rintro x ⟨c, hc, hx⟩
  rcases mem_escapeChar hx with hx | ⟨rfl, hlow, hascii⟩
  · exact hprintable x hx
  · exact h hascii x hc hlow

theorem forall_lexeme {l : Lexeme} (h : l.WellFormed) : ∀ c ∈ l.text, P c := by
  have hdigits : ∀ {s : PyStr}, Digits s → ∀ c ∈ s, P c := by
    intro s hs c hc
    have hdigit := of_decide_eq_true (hs.digits c hc)
    exact hprintable c (isPrintable_of_bounds (by omega) (by omega))
  have hminus : P minus := hprintable _ (by decide)
  simp only [Lexeme.text, List.forall_mem_append]
  refine ⟨?_, ?_, ?_, ?_⟩
  · split
    · simpa using hminus
    · simp
  · rcases h.whole with hzero | ⟨hwhole, -⟩
    · rw [hzero]
      simpa using hprintable digitZero (by decide)
    · exact hdigits hwhole
  · unfold Lexeme.fractionText
    split
    · simp
    · rename_i digits hfraction
      exact List.forall_mem_cons.mpr ⟨hprintable _ (by decide),
        hdigits (h.fraction digits hfraction)⟩
  · unfold Lexeme.exponentText
    split
    · simp
    · rename_i negative digits hexponent
      refine List.forall_mem_cons.mpr ⟨hprintable _ (by decide),
        List.forall_mem_cons.mpr ⟨?_, hdigits (h.exponent negative digits hexponent)⟩⟩
      split
      · exact hminus
      · exact hprintable _ (by decide)

theorem forall_name {s : PyStr} (h : s.all isPrintable = true) : ∀ c ∈ s, P c :=
  fun c hc => hprintable c (List.all_eq_true.mp h c hc)

theorem forall_floatText {allowNan : Bool} {x : PyFloat} {t : PyStr}
    (h : floatText allowNan x = some t) : ∀ c ∈ t, P c := by
  cases x with
  | nan =>
      rw [floatText] at h
      split at h
      · cases h
        exact forall_name hprintable (by decide)
      · cases h
  | inf negative =>
      rw [floatText] at h
      split at h
      · cases h
        cases negative with
        | true => exact forall_name hprintable (by decide)
        | false => exact forall_name hprintable (by decide)
      · cases h
  | finite negative m e =>
      cases h
      exact forall_lexeme hprintable (floatLexeme_wellFormed negative m e)

theorem forall_separator (style : Style) :
    (∀ c ∈ style.itemSeparator, P c) ∧ ∀ c ∈ style.keySeparator, P c := by
  have hgap : ∀ c ∈ style.gap, P c := by
    unfold Style.gap
    split
    · simp
    · exact forall_name hprintable (by decide)
  exact ⟨List.forall_mem_cons.mpr ⟨hprintable _ (by decide), hgap⟩,
    List.forall_mem_cons.mpr ⟨hprintable _ (by decide), hgap⟩⟩

mutual

/-- All characters of a text have a property that printable ASCII has and those of the
value's strings. -/
theorem forall_dumps (style : Style) : ∀ (v : Json) {t : PyStr}, dumps style v = some t →
    Everywhere (fun _ => True) (fun _ => True) (StringsHave style.ensureAscii P) v →
      ∀ c ∈ t, P c
  | .null, _, ht, _ => by cases ht; exact forall_name hprintable (by decide)
  | .bool true, _, ht, _ => by cases ht; exact forall_name hprintable (by decide)
  | .bool false, _, ht, _ => by cases ht; exact forall_name hprintable (by decide)
  | .int n, _, ht, _ => by
      rw [(intText_eq_some ht).2]
      exact forall_lexeme hprintable (intLexeme_wellFormed n)
  | .float x, _, ht, _ => by
      rw [dumps] at ht
      exact forall_floatText hprintable ht
  | .str s, _, ht, h => by cases ht; exact forall_stringText hprintable h
  | .arr [], _, ht, _ => by cases ht; exact forall_name hprintable (by decide)
  | .obj [], _, ht, _ => by cases ht; exact forall_name hprintable (by decide)
  | .arr (v :: vs), _, ht, h => by
      obtain ⟨tv, ts, hv, hvs, rfl⟩ := dumps_arr_cons ht
      rw [List.forall_mem_cons, List.forall_mem_append, List.forall_mem_append]
      exact ⟨hprintable _ (by decide), forall_dumps style v hv h.1,
        forall_dumpsItems style vs hvs h.2, forall_name hprintable (by decide)⟩
  | .obj ((k, v) :: fs), _, ht, h => by
      obtain ⟨tv, ts, hv, hfs, rfl⟩ := dumps_obj_cons ht
      rw [List.forall_mem_cons, List.forall_mem_append, List.forall_mem_append,
        List.forall_mem_append, List.forall_mem_append]
      exact ⟨hprintable _ (by decide), forall_stringText hprintable h.1,
        (forall_separator hprintable style).2, forall_dumps style v hv h.2.1,
        forall_dumpsMembers style fs hfs h.2.2, forall_name hprintable (by decide)⟩

theorem forall_dumpsItems (style : Style) : ∀ (vs : List Json) {t : PyStr},
    dumpsItems style vs = some t →
    EverywhereItems (fun _ => True) (fun _ => True) (StringsHave style.ensureAscii P) vs →
      ∀ c ∈ t, P c
  | [], _, ht, _ => by cases ht; simp
  | v :: vs, _, ht, h => by
      obtain ⟨tv, ts, hv, hvs, rfl⟩ := dumpsItems_cons ht
      rw [List.forall_mem_append, List.forall_mem_append]
      exact ⟨(forall_separator hprintable style).1, forall_dumps style v hv h.1,
        forall_dumpsItems style vs hvs h.2⟩

theorem forall_dumpsMembers (style : Style) : ∀ (fs : List (PyStr × Json)) {t : PyStr},
    dumpsMembers style fs = some t →
    EverywhereMembers (fun _ => True) (fun _ => True) (StringsHave style.ensureAscii P) fs →
      ∀ c ∈ t, P c
  | [], _, ht, _ => by cases ht; simp
  | (k, v) :: fs, _, ht, h => by
      obtain ⟨tv, ts, hv, hfs, rfl⟩ := dumpsMembers_cons ht
      rw [List.forall_mem_append, List.forall_mem_append, List.forall_mem_append,
        List.forall_mem_append]
      exact ⟨(forall_separator hprintable style).1, forall_stringText hprintable h.1,
        (forall_separator hprintable style).2, forall_dumps style v hv h.2.1,
        forall_dumpsMembers style fs hfs h.2.2⟩

end

end Characters

mutual

theorem everywhere_true :
    ∀ v : Json, Everywhere (fun _ => True) (fun _ => True) (fun _ => True) v
  | .null => trivial
  | .bool _ => trivial
  | .int _ => trivial
  | .float _ => trivial
  | .str _ => trivial
  | .arr items => everywhereItems_true items
  | .obj fields => everywhereMembers_true fields

theorem everywhereItems_true :
    ∀ vs : List Json, EverywhereItems (fun _ => True) (fun _ => True) (fun _ => True) vs
  | [] => trivial
  | v :: vs => ⟨everywhere_true v, everywhereItems_true vs⟩

theorem everywhereMembers_true : ∀ fs : List (PyStr × Json),
    EverywhereMembers (fun _ => True) (fun _ => True) (fun _ => True) fs
  | [] => trivial
  | (_, v) :: fs => ⟨trivial, everywhere_true v, everywhereMembers_true fs⟩

end

section Implications

variable {N N' : Int → Prop} {P P' : PyFloat → Prop} {Q Q' : PyStr → Prop}

mutual

theorem Everywhere.imp (hN : ∀ n, N n → N' n) (hP : ∀ x, P x → P' x)
    (hQ : ∀ s, Q s → Q' s) :
    ∀ v : Json, Everywhere N P Q v → Everywhere N' P' Q' v
  | .null, h => h
  | .bool _, h => h
  | .int n, h => hN n h
  | .float x, h => hP x h
  | .str s, h => hQ s h
  | .arr items, h => EverywhereItems.imp hN hP hQ items h
  | .obj fields, h => EverywhereMembers.imp hN hP hQ fields h

theorem EverywhereItems.imp (hN : ∀ n, N n → N' n) (hP : ∀ x, P x → P' x)
    (hQ : ∀ s, Q s → Q' s) :
    ∀ vs : List Json, EverywhereItems N P Q vs → EverywhereItems N' P' Q' vs
  | [], h => h
  | v :: vs, h => ⟨Everywhere.imp hN hP hQ v h.1, EverywhereItems.imp hN hP hQ vs h.2⟩

theorem EverywhereMembers.imp (hN : ∀ n, N n → N' n) (hP : ∀ x, P x → P' x)
    (hQ : ∀ s, Q s → Q' s) :
    ∀ fs : List (PyStr × Json), EverywhereMembers N P Q fs → EverywhereMembers N' P' Q' fs
  | [], h => h
  | (k, v) :: fs, h =>
      ⟨hQ k h.1, Everywhere.imp hN hP hQ v h.2.1, EverywhereMembers.imp hN hP hQ fs h.2.2⟩

end

end Implications

theorem noSurrogate_append {s t : PyStr} :
    NoSurrogate (s ++ t) ↔ NoSurrogate s ∧ NoSurrogate t :=
  List.forall_mem_append

/-- A surrogate is written as it is, unless all is ASCII. -/
theorem carried_of_stringText {ascii : Bool} {s : PyStr} (h : NoSurrogate (stringText ascii s)) :
    Carried ascii s := by
  cases ascii with
  | true => exact .inl rfl
  | false =>
      refine .inr fun c hc hsurrogate => h c ?_ hsurrogate
      have hquote : c ≠ quote := by
        rintro rfl
        exact absurd hsurrogate.1 (by decide)
      have hbackslash : c ≠ backslash := by
        rintro rfl
        exact absurd hsurrogate.1 (by decide)
      have hescape : escapeChar false c = [c] := by
        rw [escapeChar, if_neg hquote, if_neg hbackslash, if_neg (by omega), if_neg (by omega),
          if_neg (by omega), if_neg (by omega), if_neg (by omega), if_neg (by omega)]
        rfl
      simp only [stringText, List.mem_cons, List.mem_append, List.mem_flatMap]
      exact .inr (.inl ⟨c, hc, by rw [hescape]; exact List.mem_cons_self⟩)

mutual

theorem carried_of_dumps (style : Style) : ∀ (v : Json) {t : PyStr}, dumps style v = some t →
    NoSurrogate t → CarriedIn style v
  | .null, _, _, _ => trivial
  | .bool _, _, _, _ => trivial
  | .int _, _, _, _ => trivial
  | .float _, _, _, _ => trivial
  | .str s, _, ht, h => by cases ht; exact carried_of_stringText h
  | .arr [], _, _, _ => trivial
  | .obj [], _, _, _ => trivial
  | .arr (v :: vs), _, ht, h => by
      obtain ⟨tv, ts, hv, hvs, rfl⟩ := dumps_arr_cons ht
      rw [← List.singleton_append, noSurrogate_append, noSurrogate_append, noSurrogate_append] at h
      exact ⟨carried_of_dumps style v hv h.2.1, carried_of_dumpsItems style vs hvs h.2.2.1⟩
  | .obj ((k, v) :: fs), _, ht, h => by
      obtain ⟨tv, ts, hv, hfs, rfl⟩ := dumps_obj_cons ht
      rw [← List.singleton_append, noSurrogate_append, noSurrogate_append, noSurrogate_append,
        noSurrogate_append, noSurrogate_append] at h
      exact ⟨carried_of_stringText h.2.1, carried_of_dumps style v hv h.2.2.2.1,
        carried_of_dumpsMembers style fs hfs h.2.2.2.2.1⟩

theorem carried_of_dumpsItems (style : Style) : ∀ (vs : List Json) {t : PyStr},
    dumpsItems style vs = some t → NoSurrogate t →
      EverywhereItems (fun _ => True) (fun _ => True) (Carried style.ensureAscii) vs
  | [], _, _, _ => trivial
  | v :: vs, _, ht, h => by
      obtain ⟨tv, ts, hv, hvs, rfl⟩ := dumpsItems_cons ht
      rw [noSurrogate_append, noSurrogate_append] at h
      exact ⟨carried_of_dumps style v hv h.2.1, carried_of_dumpsItems style vs hvs h.2.2⟩

theorem carried_of_dumpsMembers (style : Style) : ∀ (fs : List (PyStr × Json)) {t : PyStr},
    dumpsMembers style fs = some t → NoSurrogate t →
      EverywhereMembers (fun _ => True) (fun _ => True) (Carried style.ensureAscii) fs
  | [], _, _, _ => trivial
  | (k, v) :: fs, _, ht, h => by
      obtain ⟨tv, ts, hv, hfs, rfl⟩ := dumpsMembers_cons ht
      rw [noSurrogate_append, noSurrogate_append, noSurrogate_append, noSurrogate_append] at h
      exact ⟨carried_of_stringText h.2.1, carried_of_dumps style v hv h.2.2.2.1,
        carried_of_dumpsMembers style fs hfs h.2.2.2.2⟩

end

/-- A text is free of surrogates when the value's strings are, or when it is ASCII. -/
theorem noSurrogate_dumps_iff {style : Style} {v : Json} {t : PyStr}
    (ht : dumps style v = some t) : NoSurrogate t ↔ CarriedIn style v := by
  refine ⟨carried_of_dumps style v ht, fun h => ?_⟩
  refine forall_dumps (P := fun c => ¬(0xD800 ≤ c.val ∧ c.val < 0xE000)) (fun c hc => ?_) style v
    ht (Everywhere.imp (fun _ _ => trivial) (fun _ _ => trivial) (fun s hs hascii c hc _ => ?_) v h)
  · have hc := of_decide_eq_true hc
    omega
  · rcases hs with hs | hs
    · rw [hascii] at hs
      cases hs
    · exact hs c hc

/-- No control character stands in a text. -/
theorem printable_dumps {style : Style} {v : Json} {t : PyStr} (ht : dumps style v = some t) :
    ∀ c ∈ t, 0x20 ≤ c.val := by
  refine forall_dumps (P := fun c => 0x20 ≤ c.val) (fun c hc => (of_decide_eq_true hc).1) style v
    ht (Everywhere.imp (fun _ _ => trivial) (fun _ _ => trivial) (fun s _ _ c _ hc => hc) v
      (everywhere_true v))

/-! ## Bytes -/

/-- The code point `n`, surrogates included, when a form of this length may carry it. -/
def codePointPass (least n : Nat) : Option CodePoint :=
  if h : n < 0x110000 then if least ≤ n then some ⟨n, h⟩ else none else none

/-- The first code point, decoded with `surrogatepass`. -/
def decodeCharPass : Bytes → Option (CodePoint × Bytes)
  | [] => none
  | b :: bs =>
      match leading b with
      | none => none
      | some (k, n, least) =>
          match takeContinuation k n bs with
          | none => none
          | some (n, rest) => (codePointPass least n).map fun c => (c, rest)

def decodeFuelPass : Nat → Bytes → Option PyStr
  | _, [] => some []
  | 0, _ :: _ => none
  | n + 1, b :: bs =>
      match decodeCharPass (b :: bs) with
      | none => none
      | some (c, rest) => (decodeFuelPass n rest).map (c :: ·)

/-- `b.decode("utf-8", "surrogatepass")`. -/
def decodePass (b : Bytes) : Option PyStr :=
  decodeFuelPass b.length b

inductive Encoding
  | utf8
  | utf8Sig
  /-- UTF-16 or UTF-32, of either byte order. -/
  | wide
deriving DecidableEq

/-- `json.detect_encoding`. -/
def detectEncoding (b : Bytes) : Encoding :=
  if b.take 4 = [0, 0, 0xFE, 0xFF] ∨ b.take 4 = [0xFF, 0xFE, 0, 0] then .wide
  else if b.take 2 = [0xFE, 0xFF] ∨ b.take 2 = [0xFF, 0xFE] then .wide
  else if b.take 3 = [0xEF, 0xBB, 0xBF] then .utf8Sig
  else
    match b with
    | [b₀, b₁] => if b₀ = 0 ∨ b₁ = 0 then .wide else .utf8
    | b₀ :: b₁ :: _ :: _ :: _ => if b₀ = 0 ∨ b₁ = 0 then .wide else .utf8
    | _ => .utf8

section LoadsBytes

-- the decoder of UTF-16 and UTF-32
variable (decodeWide : Bytes → Option PyStr)

/-- `json.loads` of bytes; none is a `ValueError`. -/
def loadsBytes (b : Bytes) : Option Json :=
  (match detectEncoding b with
    | .utf8 => decodePass b
    | .utf8Sig => decodePass (b.drop 3)
    | .wide => decodeWide b).bind loads

theorem codePointPass_of_codePointFrom {least n : Nat} {c : CodePoint}
    (h : codePointFrom least n = some c) : codePointPass least n = some c := by
  unfold codePointFrom at h
  unfold codePointPass
  split
  · rename_i hn
    rw [dif_pos hn] at h
    split at h
    · rename_i hleast
      rw [if_pos hleast.1, h]
    · cases h
  · rename_i hn
    rw [dif_neg hn] at h
    cases h

/-- What is decoded strictly is decoded all the same. -/
theorem decodeCharPass_of_decodeChar {b : Bytes} {p : CodePoint × Bytes}
    (h : decodeChar b = some p) : decodeCharPass b = some p := by
  unfold decodeChar at h
  unfold decodeCharPass
  cases b with
  | nil => cases h
  | cons b₀ b =>
      simp only at h ⊢
      cases hlead : leading b₀ with
      | none => simp [hlead] at h
      | some lead =>
          obtain ⟨k, n, least⟩ := lead
          simp only [hlead] at h ⊢
          cases htake : takeContinuation k n b with
          | none => simp [htake] at h
          | some taken =>
              obtain ⟨m, rest⟩ := taken
              simp only [htake, Option.map_eq_some_iff] at h ⊢
              obtain ⟨c, hc, rfl⟩ := h
              exact ⟨c, codePointPass_of_codePointFrom hc, rfl⟩

theorem decodeFuelPass_of_decodeFuel {n : Nat} {b : Bytes} {s : PyStr}
    (h : decodeFuel n b = some s) : decodeFuelPass n b = some s := by
  induction n generalizing b s with
  | zero =>
      cases b with
      | nil => exact h
      | cons b₀ b => cases h
  | succ n ih =>
      cases b with
      | nil => exact h
      | cons b₀ b =>
          rw [decodeFuel] at h
          rw [decodeFuelPass]
          cases hchar : decodeChar (b₀ :: b) with
          | none => simp [hchar] at h
          | some p =>
              obtain ⟨c, rest⟩ := p
              simp only [hchar, decodeCharPass_of_decodeChar hchar,
                Option.map_eq_some_iff] at h ⊢
              obtain ⟨s, hs, rfl⟩ := h
              exact ⟨s, ih hs, rfl⟩

theorem decodePass_encodeUtf8 {s : PyStr} {b : Bytes} (h : encodeUtf8 s = some b) :
    decodePass b = some s :=
  decodeFuelPass_of_decodeFuel (decodeUtf8_encodeUtf8 h)

theorem encodeChar_isSome_iff (c : CodePoint) :
    (∃ b, encodeChar c = some b) ↔ ¬(0xD800 ≤ c.val ∧ c.val < 0xE000) := by
  unfold encodeChar
  split_ifs with h1 h2 h3 h4
  · exact iff_of_true ⟨_, rfl⟩ (by omega)
  · exact iff_of_true ⟨_, rfl⟩ (by omega)
  · exact iff_of_false (by rintro ⟨b, ⟨⟩⟩) (not_not.mpr h3)
  · exact iff_of_true ⟨_, rfl⟩ h3
  · exact iff_of_true ⟨_, rfl⟩ h3

/-- UTF-8 carries the texts without surrogates. -/
theorem encodeUtf8_isSome_iff (s : PyStr) : (∃ b, encodeUtf8 s = some b) ↔ NoSurrogate s := by
  induction s with
  | nil => simp [encodeUtf8, NoSurrogate]
  | cons c s ih =>
      rw [NoSurrogate, List.forall_mem_cons, ← encodeChar_isSome_iff]
      change _ ↔ _ ∧ NoSurrogate s
      rw [← ih]
      constructor
      · rintro ⟨b, h⟩
        obtain ⟨bc, bs, hc, hs, -⟩ := encodeUtf8_cons h
        exact ⟨⟨bc, hc⟩, ⟨bs, hs⟩⟩
      · rintro ⟨⟨bc, hc⟩, ⟨bs, hs⟩⟩
        exact ⟨bc ++ bs, by rw [encodeUtf8, hc, hs]⟩

/-- No byte of a character's form is a control character, unless the character is. -/
theorem encodeChar_bytes {c : CodePoint} {b : Bytes} (hc : 0x20 ≤ c.val)
    (h : encodeChar c = some b) : ∀ x ∈ b, x ≠ 0 := by
  have hlt := c.isLt
  have hbyte : ∀ n : Nat, 0 < n → n < 256 → n.toUInt8 ≠ 0 := by
    intro n hpos hn hzero
    have hval := congrArg UInt8.toNat hzero
    rw [toNat_toUInt8 hn] at hval
    exact absurd hval (Nat.ne_of_gt hpos)
  unfold encodeChar at h
  split_ifs at h with h1 h2 h3 h4
  · cases h
    simpa using hbyte _ (by omega) (by omega)
  · cases h
    simp only [List.forall_mem_cons]
    exact ⟨hbyte _ (by omega) (by omega), hbyte _ (by omega) (by omega), by simp⟩
  · cases h
    simp only [List.forall_mem_cons]
    exact ⟨hbyte _ (by omega) (by omega), hbyte _ (by omega) (by omega),
      hbyte _ (by omega) (by omega), by simp⟩
  · cases h
    simp only [List.forall_mem_cons]
    exact ⟨hbyte _ (by omega) (by omega), hbyte _ (by omega) (by omega),
      hbyte _ (by omega) (by omega), hbyte _ (by omega) (by omega), by simp⟩

theorem encodeUtf8_bytes {s : PyStr} {b : Bytes} (hs : ∀ c ∈ s, 0x20 ≤ c.val)
    (h : encodeUtf8 s = some b) : ∀ x ∈ b, x ≠ 0 := by
  induction s generalizing b with
  | nil =>
      cases h
      simp
  | cons c s ih =>
      obtain ⟨bc, bs, hc, hbs, rfl⟩ := encodeUtf8_cons h
      rw [List.forall_mem_cons] at hs
      exact List.forall_mem_append.mpr ⟨encodeChar_bytes hs.1 hc, ih hs.2 hbs⟩

/-- Bytes without NUL that begin with an ASCII one are taken for UTF-8. -/
theorem detectEncoding_utf8 {b₀ : UInt8} {b : Bytes} (hb₀ : b₀.toNat < 0x80)
    (hb : ∀ x ∈ b₀ :: b, x ≠ 0) : detectEncoding (b₀ :: b) = .utf8 := by
  have hne : ∀ x : UInt8, 0x80 ≤ x.toNat → b₀ ≠ x := by
    rintro x hx rfl
    omega
  have hzero : b₀ ≠ 0 := hb b₀ List.mem_cons_self
  have hfirst : ∀ (x : UInt8) (n : Nat) (t : Bytes), b₀ ≠ x →
      (b₀ :: b).take (n + 1) ≠ x :: t := by
    intro x n t hx heq
    exact hx (List.cons.inj heq).1
  unfold detectEncoding
  rw [if_neg (not_or.mpr ⟨hfirst _ _ _ hzero, hfirst _ _ _ (hne _ (by decide))⟩),
    if_neg (not_or.mpr ⟨hfirst _ _ _ (hne _ (by decide)), hfirst _ _ _ (hne _ (by decide))⟩),
    if_neg (hfirst _ _ _ (hne _ (by decide)))]
  match b, hb with
  | [], _ => rfl
  | [b₁], hb =>
      have hb₁ : b₁ ≠ 0 := hb b₁ (by simp)
      simp [hzero, hb₁]
  | [_, _], _ => rfl
  | b₁ :: _ :: _ :: _, hb =>
      have hb₁ : b₁ ≠ 0 := hb b₁ (by simp)
      simp [hzero, hb₁]

/-- A value is read back from the bytes it was written in. -/
theorem loadsBytes_dumps {style : Style} {v : Json} {t : PyStr} {b : Bytes}
    (ht : dumps style v = some t) (hb : encodeUtf8 t = some b) :
    loadsBytes decodeWide b = some (reread v) := by
  have hcarried := (noSurrogate_dumps_iff ht).mp ((encodeUtf8_isSome_iff t).mp ⟨b, hb⟩)
  have hbytes := encodeUtf8_bytes (printable_dumps ht) hb
  have hutf8 : detectEncoding b = .utf8 := by
    obtain ⟨c, hopens⟩ := opens_dumps ht
    obtain ⟨u, rfl⟩ := List.head?_eq_some_iff.mp hopens.head
    obtain ⟨bc, bs, hc, -, rfl⟩ := encodeUtf8_cons hb
    have hprintable := of_decide_eq_true hopens.printable
    rw [encodeChar, if_pos (by omega)] at hc
    cases hc
    refine detectEncoding_utf8 ?_ hbytes
    rw [toNat_toUInt8 (by omega)]
    omega
  rw [loadsBytes, hutf8]
  simp only [decodePass_encodeUtf8 hb, Option.bind_some, loads_dumps ht hcarried]

end LoadsBytes

section Conjunctions

variable {N N' : Int → Prop} {P P' : PyFloat → Prop} {Q Q' : PyStr → Prop}

mutual

theorem everywhere_and : ∀ v : Json,
    Everywhere (fun n => N n ∧ N' n) (fun x => P x ∧ P' x) (fun s => Q s ∧ Q' s) v ↔
      Everywhere N P Q v ∧ Everywhere N' P' Q' v
  | .null => by simp [Everywhere]
  | .bool _ => by simp [Everywhere]
  | .int _ => by simp [Everywhere]
  | .float _ => by simp [Everywhere]
  | .str _ => by simp [Everywhere]
  | .arr items => everywhereItems_and items
  | .obj fields => everywhereMembers_and fields

theorem everywhereItems_and : ∀ vs : List Json,
    EverywhereItems (fun n => N n ∧ N' n) (fun x => P x ∧ P' x) (fun s => Q s ∧ Q' s) vs ↔
      EverywhereItems N P Q vs ∧ EverywhereItems N' P' Q' vs
  | [] => by simp [EverywhereItems]
  | v :: vs => by
      rw [EverywhereItems, EverywhereItems, EverywhereItems, everywhere_and v,
        everywhereItems_and vs]
      exact and_and_and_comm

theorem everywhereMembers_and : ∀ fs : List (PyStr × Json),
    EverywhereMembers (fun n => N n ∧ N' n) (fun x => P x ∧ P' x) (fun s => Q s ∧ Q' s) fs ↔
      EverywhereMembers N P Q fs ∧ EverywhereMembers N' P' Q' fs
  | [] => by simp [EverywhereMembers]
  | (k, v) :: fs => by
      rw [EverywhereMembers, EverywhereMembers, EverywhereMembers, everywhere_and v,
        everywhereMembers_and fs]
      tauto

end

end Conjunctions

theorem everywhereMembers_append (N : Int → Prop) (P : PyFloat → Prop) (Q : PyStr → Prop)
    (fs gs : List (PyStr × Json)) :
    EverywhereMembers N P Q (fs ++ gs) ↔
      EverywhereMembers N P Q fs ∧ EverywhereMembers N P Q gs := by
  induction fs with
  | nil => simp [EverywhereMembers]
  | cons f fs ih =>
      obtain ⟨k, v⟩ := f
      rw [List.cons_append, EverywhereMembers, EverywhereMembers, ih]
      tauto

/-- A value is written, and carried by UTF-8, when its numbers and its strings can be. -/
theorem written_iff (style : Style) (v : Json) :
    (∃ t b, dumps style v = some t ∧ encodeUtf8 t = some b) ↔
      Everywhere FewDigits (fun x => style.allowNan = true ∨ IsFinite x)
        (Carried style.ensureAscii) v := by
  have hsplit : Everywhere FewDigits (fun x => style.allowNan = true ∨ IsFinite x)
      (Carried style.ensureAscii) v ↔ (∃ t, dumps style v = some t) ∧ CarriedIn style v := by
    rw [dumps_isSome_iff, CarriedIn, ← everywhere_and]
    simp only [and_true, true_and]
  rw [hsplit]
  constructor
  · rintro ⟨t, b, ht, hb⟩
    exact ⟨⟨t, ht⟩, (noSurrogate_dumps_iff ht).mp ((encodeUtf8_isSome_iff t).mp ⟨b, hb⟩)⟩
  · rintro ⟨⟨t, ht⟩, hcarried⟩
    obtain ⟨b, hb⟩ := (encodeUtf8_isSome_iff t).mpr ((noSurrogate_dumps_iff ht).mpr hcarried)
    exact ⟨t, b, ht, hb⟩

/-- `json.dumps(v).encode()`. -/
def written (style : Style) (v : Json) : Option Bytes :=
  (dumps style v).bind encodeUtf8

theorem written_eq_some {style : Style} {v : Json} {b : Bytes} (h : written style v = some b) :
    ∃ t, dumps style v = some t ∧ encodeUtf8 t = some b :=
  Option.bind_eq_some_iff.mp h

theorem written_isSome_iff (style : Style) (v : Json) :
    (∃ b, written style v = some b) ↔
      Everywhere FewDigits (fun x => style.allowNan = true ∨ IsFinite x)
        (Carried style.ensureAscii) v := by
  rw [← written_iff, exists_comm]
  exact exists_congr fun b => Option.bind_eq_some_iff

/-- `json.dumps(v).encode()` with no options takes every value whose integers it can write. -/
theorem written_default_iff (v : Json) : (∃ b, written defaultStyle v = some b) ↔ Fits v := by
  rw [written_isSome_iff]
  exact ⟨Everywhere.imp (fun _ h => h) (fun _ _ => trivial) (fun _ _ => trivial) v,
    Everywhere.imp (fun _ h => h) (fun _ _ => .inl rfl) (fun _ _ => .inl rfl) v⟩

theorem written_default_eq_none {v : Json} (h : ¬Fits v) : written defaultStyle v = none :=
  Option.eq_none_iff_forall_ne_some.mpr fun b hb => h ((written_default_iff v).mp ⟨b, hb⟩)

theorem loadsBytes_written (decodeWide : Bytes → Option PyStr) {style : Style} {v : Json}
    {b : Bytes} (h : written style v = some b) : loadsBytes decodeWide b = some (reread v) := by
  obtain ⟨t, ht, hb⟩ := written_eq_some h
  exact loadsBytes_dumps decodeWide ht hb

end JsonText
