import ProbeAgent.StrMethods

/-!
# Paths (`pathlib.PurePosixPath`)

A path is read off a text as its leading slashes and its parts, the empty parts and the
parts `.` left out.  `parse_str`: the text of a path reads back as the path.
`parse_posixJoin`: joining a relative path puts its parts after the others.
-/

namespace PyText

/-- `/`. -/
def slashSign : CodePoint := 0x2F

/-- `.`. -/
def dotSign : CodePoint := 0x2E

/-- What a path may have between two slashes. -/
structure IsPart (part : PyStr) : Prop where
  ne_nil : part ≠ []
  ne_dot : part ≠ [dotSign]
  solid : slashSign ∉ part

/-- A path: the slashes it begins with, and its parts. -/
structure PurePath where
  slashes : Nat
  tail : List PyStr
  slashes_le : slashes ≤ 2
  isPart : ∀ part ∈ tail, IsPart part
deriving DecidableEq

/-- `posixpath.splitroot`: two slashes at the front stay two, any other number is one. -/
def splitRoot : PyStr → Nat × PyStr
  | [] => (0, [])
  | c :: s =>
      if c = slashSign then
        match s with
        | [] => (1, [])
        | d :: rest =>
            if d = slashSign ∧ rest.head? ≠ some slashSign then (2, rest) else (1, d :: rest)
      else (0, c :: s)

/-- The parts of the text after the root. -/
def parts (s : PyStr) : List PyStr :=
  (words (· == slashSign) s).filter fun part => !(part == [dotSign])

theorem slashes_splitRoot_le (s : PyStr) : (splitRoot s).1 ≤ 2 := by
  unfold splitRoot
  repeat' split
  all_goals simp

/-- No separator is in a part between separators. -/
theorem solid_of_mem_splitOnP {α : Type*} {sep : α → Bool} {l w : List α}
    (h : w ∈ l.splitOnP sep) : ∀ a ∈ w, sep a = false := by
  induction l generalizing w with
  | nil =>
      rw [List.splitOnP_nil, List.mem_singleton] at h
      simp [h]
  | cons x l ih =>
      rw [List.splitOnP_cons_eq_if_modifyHead] at h
      split at h
      · rcases List.mem_cons.mp h with rfl | h
        · simp
        · exact ih h
      · rename_i hx
        obtain ⟨first, rest, hsplit⟩ := List.exists_cons_of_ne_nil (List.splitOnP_ne_nil sep l)
        rw [hsplit] at h ih
        rcases List.mem_cons.mp h with rfl | h
        · intro a ha
          rcases List.mem_cons.mp ha with rfl | ha
          · simpa using hx
          · exact ih List.mem_cons_self a ha
        · exact ih (List.mem_cons_of_mem first h)

theorem isPart_of_mem_parts {s part : PyStr} (h : part ∈ parts s) : IsPart part := by
  obtain ⟨hword, hdot⟩ := List.mem_filter.mp h
  obtain ⟨hsplit, hne⟩ := List.mem_filter.mp hword
  refine ⟨by simpa using hne, by simpa using hdot, fun hmem => ?_⟩
  simpa using solid_of_mem_splitOnP hsplit slashSign hmem

namespace PurePath

@[ext]
theorem ext' {p q : PurePath} (hslashes : p.slashes = q.slashes) (htail : p.tail = q.tail) :
    p = q := by
  cases p
  cases q
  cases hslashes
  cases htail
  rfl

/-- `PurePosixPath(s)`. -/
def parse (s : PyStr) : PurePath where
  slashes := (splitRoot s).1
  tail := parts (splitRoot s).2
  slashes_le := slashes_splitRoot_le s
  isPart _ h := isPart_of_mem_parts h

theorem parse_slashes (s : PyStr) : (parse s).slashes = (splitRoot s).1 := rfl

theorem parse_tail (s : PyStr) : (parse s).tail = parts (splitRoot s).2 := rfl

/-- `str(path)`. -/
def str (p : PurePath) : PyStr :=
  let text := List.replicate p.slashes slashSign ++ [slashSign].intercalate p.tail
  if text = [] then [dotSign] else text

/-- `path.name`. -/
def name (p : PurePath) : PyStr :=
  p.tail.getLast?.getD []

/-- The parts of a path are the parts of their text. -/
theorem parts_intercalate {tail : List PyStr} (h : ∀ part ∈ tail, IsPart part) :
    parts ([slashSign].intercalate tail) = tail := by
  cases tail with
  | nil =>
      rfl
  | cons part rest =>
      have hsplit := List.splitOn_intercalate slashSign (fun part hpart => (h part hpart).solid)
        (List.cons_ne_nil part rest)
      rw [parts, words, ← List.splitOn_eq_splitOnP, hsplit, List.filter_filter,
        List.filter_eq_self.mpr]
      intro part hpart
      obtain ⟨hne, hdot, -⟩ := h part hpart
      simp [hne, hdot]

/-- The text of the parts does not begin with a slash. -/
theorem head_intercalate {tail : List PyStr} (h : ∀ part ∈ tail, IsPart part) :
    ([slashSign].intercalate tail).head? ≠ some slashSign := by
  cases tail with
  | nil =>
      exact nofun
  | cons part rest =>
      obtain ⟨hne, -, hsolid⟩ := h part List.mem_cons_self
      obtain ⟨c, part, rfl⟩ := List.exists_cons_of_ne_nil hne
      have hc : c ≠ slashSign := fun hc => hsolid (by rw [hc]; exact List.mem_cons_self)
      cases rest with
      | nil =>
          simpa using hc
      | cons next rest =>
          simpa using hc

/-- A root that is at most two slashes is split off. -/
theorem splitRoot_replicate {n : Nat} (hn : n ≤ 2) {s : PyStr}
    (hs : s.head? ≠ some slashSign) :
    splitRoot (List.replicate n slashSign ++ s) = (n, s) := by
  obtain rfl | rfl | rfl : n = 0 ∨ n = 1 ∨ n = 2 := by omega
  · cases s with
    | nil =>
        rfl
    | cons c s =>
        have hc : c ≠ slashSign := by simpa using hs
        simp [splitRoot, hc]
  · cases s with
    | nil =>
        rfl
    | cons c s =>
        have hc : c ≠ slashSign := by simpa using hs
        simp [splitRoot, hc]
  · simp [splitRoot, List.replicate, hs]

/-- **The text of a path reads back as the path.** -/
theorem parse_str (p : PurePath) : parse p.str = p := by
  have hroot := splitRoot_replicate p.slashes_le (head_intercalate p.isPart)
  have htail := parts_intercalate p.isPart
  unfold str
  dsimp only
  split
  · -- nothing but `.` is left of the empty path
    rename_i hnil
    rw [List.append_eq_nil_iff] at hnil
    rw [hnil.2] at htail
    rw [hnil.1, hnil.2] at hroot
    have hslashes : 0 = p.slashes := congrArg Prod.fst hroot
    exact ext' hslashes htail
  · refine ext' ?_ ?_
    · rw [parse_slashes, hroot]
    · rw [parse_tail, hroot]
      exact htail

end PurePath

/-- `posixpath.join(a, b)`. -/
def posixJoin (a b : PyStr) : PyStr :=
  if b.head? = some slashSign ∨ a = [] then b
  else if a.getLast? = some slashSign then a ++ b
  else a ++ slashSign :: b

theorem parts_append_slash (s t : PyStr) : parts (s ++ slashSign :: t) = parts s ++ parts t := by
  rw [parts, words_append_sep (by simp), List.filter_append, parts, parts]

/-- What comes after the root does not change the root, where it is not a slash that would
make it another one. -/
theorem splitRoot_append {a c : PyStr} (ha : a ≠ [])
    (hc : a.getLast? = some slashSign → c.head? ≠ some slashSign) :
    splitRoot (a ++ c) = ((splitRoot a).1, (splitRoot a).2 ++ c) := by
  obtain ⟨x, a, rfl⟩ := List.exists_cons_of_ne_nil ha
  by_cases hx : x = slashSign
  · subst hx
    cases a with
    | nil =>
        have hhead := hc rfl
        cases c with
        | nil =>
            rfl
        | cons d c =>
            have hd : d ≠ slashSign := by simpa using hhead
            simp [splitRoot, hd]
    | cons d a =>
        by_cases hd : d = slashSign
        · subst hd
          cases a with
          | nil =>
              have hhead := hc rfl
              simp [splitRoot, hhead]
          | cons e a =>
              by_cases he : e = slashSign
              · simp [splitRoot, he]
              · simp [splitRoot, he]
        · simp [splitRoot, hd]
  · simp [splitRoot, hx]

/-- A slash at the end of a text ends what comes after its root too, if anything does. -/
theorem splitRoot_getLast {a : PyStr} (ha : a.getLast? = some slashSign) :
    (splitRoot a).2 = [] ∨ (splitRoot a).2.getLast? = some slashSign := by
  unfold splitRoot
  split
  · exact .inl rfl
  · split
    · split
      · exact .inl rfl
      · rename_i d rest
        split
        · cases rest with
          | nil =>
              exact .inl rfl
          | cons e rest =>
              exact .inr (by simpa using ha)
        · exact .inr (by simpa using ha)
    · exact .inr ha

theorem parts_of_isPart {part : PyStr} (h : IsPart part) : parts part = [part] := by
  have hsolid : parts ([slashSign].intercalate [part]) = [part] :=
    PurePath.parts_intercalate (by simpa using h)
  simpa using hsolid

/-- A text that begins with a part begins with no slash. -/
theorem IsPart.head_append {part : PyStr} (h : IsPart part) (s : PyStr) :
    (part ++ s).head? ≠ some slashSign := by
  obtain ⟨c, part, rfl⟩ := List.exists_cons_of_ne_nil h.ne_nil
  intro hhead
  rw [List.cons_append, List.head?_cons, Option.some.injEq] at hhead
  exact h.solid (by rw [hhead]; exact List.mem_cons_self)

/-- **Joining a relative path puts its parts after the others.** -/
theorem parse_posixJoin {a b : PyStr} (hb : b.head? ≠ some slashSign) :
    (PurePath.parse (posixJoin a b)).slashes = (PurePath.parse a).slashes ∧
      (PurePath.parse (posixJoin a b)).tail = (PurePath.parse a).tail ++ parts b := by
  have hroot : splitRoot b = (0, b) := PurePath.splitRoot_replicate (Nat.zero_le 2) hb
  unfold posixJoin
  split
  · rename_i hfirst
    have ha : a = [] := hfirst.resolve_left hb
    subst ha
    rw [PurePath.parse_slashes, PurePath.parse_slashes, PurePath.parse_tail, PurePath.parse_tail,
      hroot]
    exact ⟨rfl, rfl⟩
  · rename_i hfirst
    have ha : a ≠ [] := fun ha => hfirst (.inr ha)
    split
    · rename_i hlast
      have happend := splitRoot_append ha (c := b) (fun _ => hb)
      refine ⟨by simp only [PurePath.parse, happend], ?_⟩
      simp only [PurePath.parse, happend]
      rcases splitRoot_getLast hlast with hnil | hslash
      · rw [hnil]
        rfl
      · obtain ⟨front, hfront⟩ : ∃ front, (splitRoot a).2 = front ++ [slashSign] := by
          rcases List.eq_nil_or_concat (splitRoot a).2 with hnil | ⟨front, last, hfront⟩
          · rw [hnil] at hslash
            cases hslash
          · refine ⟨front, ?_⟩
            rw [hfront, List.concat_eq_append] at hslash ⊢
            simpa using hslash
        rw [hfront, List.append_assoc, List.singleton_append, parts_append_slash,
          parts_append_slash]
        simp [parts, words]
    · rename_i hlast
      have happend := splitRoot_append ha (c := slashSign :: b) (fun h => absurd h hlast)
      refine ⟨by simp only [PurePath.parse, happend], ?_⟩
      simp only [PurePath.parse, happend, parts_append_slash]

/-- A file in a directory is not the directory. -/
theorem posixJoin_ne {name : PyStr} (hname : IsPart name) (dest : PurePath) :
    PurePath.parse (posixJoin dest.str name) ≠ dest := by
  intro h
  have hhead := hname.head_append []
  rw [List.append_nil] at hhead
  have htail := congrArg (fun p => p.tail.length) h
  simp only [(parse_posixJoin hhead).2, PurePath.parse_str, parts_of_isPart hname,
    List.length_append, List.length_singleton] at htail
  omega

end PyText
