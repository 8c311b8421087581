import Mathlib.Order.WellFounded
import ProbeAgent.Substitution

/-!
# Words cut out of a list in turn

Several words are replaced in a list, one word after another.  What one turn replaces is no
longer there for the turns after it, so of occurrences that overlap only some are replaced:
those taken in turn (`TakenInTurn`), the occurrences of an earlier word first and those of
one word from left to right, each one that overlaps none taken before it.  There is one such
choice (`TakenInTurn.unique`).

`punchEach l ws` cuts the words out and leaves a hole for every element cut, so that places
are kept; the holes are the elements of the occurrences taken in turn (`exists_taken`).
-/

namespace Substitution

universe u

/-! ## What is taken in turn -/

section Turns

variable {ι : Type u} {before conflict : ι → ι → Prop} {candidate taken taken' : ι → Prop}

/-- Of the candidates, those are taken that conflict with none taken before them. -/
def TakenInTurn (before conflict : ι → ι → Prop) (candidate taken : ι → Prop) : Prop :=
  ∀ o, taken o ↔ candidate o ∧ ∀ p, taken p → before p o → ¬conflict p o

/-- There is one way to take them. -/
theorem TakenInTurn.unique (hwf : WellFounded before)
    (h : TakenInTurn before conflict candidate taken)
    (h' : TakenInTurn before conflict candidate taken') (o : ι) : taken o ↔ taken' o := by
  induction o using hwf.induction with
  | h o ih =>
      rw [h o, h' o]
      refine and_congr_right fun _ => forall_congr' fun p => ?_
      constructor
      · intro hp htaken hbefore
        exact hp ((ih p hbefore).mpr htaken) hbefore
      · intro hp htaken hbefore
        exact hp ((ih p hbefore).mp htaken) hbefore

end Turns

/-! ## Occurrences of several words -/

section Words

variable {α : Type u}

/-- The length of a word of the list. -/
def width (ws : List (List α)) (k : Nat) : Nat := (ws[k]?.getD []).length

/-- The `o.1`-th word, put at `o.2`, covers the `j`-th element. -/
def Covers (ws : List (List α)) (o : Nat × Nat) (j : Nat) : Prop :=
  o.2 ≤ j ∧ j < o.2 + width ws o.1

/-- Both cover an element. -/
def Overlap (ws : List (List α)) (p o : Nat × Nat) : Prop :=
  ∃ j, Covers ws p j ∧ Covers ws o j

/-- The `o.1`-th word occurs in the list at `o.2`. -/
def Occurs (ws : List (List α)) (l : List α) (o : Nat × Nat) : Prop :=
  ∃ w, ws[o.1]? = some w ∧ w <+: l.drop o.2

/-- An earlier word, or the same word further to the left. -/
def Before (p o : Nat × Nat) : Prop := Prod.Lex (· < ·) (· < ·) p o

theorem before_iff {p o : Nat × Nat} : Before p o ↔ p.1 < o.1 ∨ p.1 = o.1 ∧ p.2 < o.2 :=
  Prod.lex_def

theorem before_wellFounded : WellFounded Before :=
  WellFounded.prod_lex Nat.lt_wfRel.wf Nat.lt_wfRel.wf

@[simp] theorem width_zero (w : List α) (ws : List (List α)) : width (w :: ws) 0 = w.length :=
  rfl

@[simp] theorem width_succ (w : List α) (ws : List (List α)) (k : Nat) :
    width (w :: ws) (k + 1) = width ws k := rfl

theorem width_of_getElem? {ws : List (List α)} {k : Nat} {w : List α} (h : ws[k]? = some w) :
    width ws k = w.length := by
  rw [width, h, Option.getD_some]

/-- Where a word occurs, element by element. -/
theorem prefix_drop_iff {w l : List α} {i : Nat} :
    w <+: l.drop i ↔ ∀ (m : Nat) (h : m < w.length), l[i + m]? = some w[m] := by
  rw [List.prefix_iff_getElem?]
  simp only [List.getElem?_drop]

/-- Of two occurrences the one around the other is that one and what is on its sides. -/
theorem exists_of_occurs_within {l w v : List α} {i j : Nat} (hw : w <+: l.drop i)
    (hv : v <+: l.drop j) (hji : j ≤ i) (hend : i + w.length ≤ j + v.length) :
    ∃ a b, v = a ++ w ++ b ∧ a.length = i - j := by
  obtain ⟨x, hx⟩ := hv
  have hdrop : l.drop i = v.drop (i - j) ++ x := by
    have hle : i - j ≤ v.length := by omega
    rw [← List.drop_append_of_le_length hle, hx, List.drop_drop, Nat.add_sub_cancel' hji]
  rw [hdrop] at hw
  obtain ⟨b, hb⟩ : w <+: v.drop (i - j) := by
    refine List.prefix_of_prefix_length_le hw (List.prefix_append _ x) ?_
    rw [List.length_drop]
    omega
  refine ⟨v.take (i - j), b, ?_, ?_⟩
  · rw [List.append_assoc, hb, List.take_append_drop]
  · rw [List.length_take]
    omega

end Words

/-! ## Holes -/

section Cut

variable {α : Type u} {w : List α}

/-- `T` is where one turn cuts `w` out of `l`, which leaves `r`. -/
structure Cut (w : List α) (l r : List (Option α)) (T : Nat → Prop) : Prop where
  starts : ∀ i, T i ↔ w.map some <+: l.drop i ∧ ∀ i', T i' → i' < i → i' + w.length ≤ i
  hole : ∀ i, T i → ∀ j, i ≤ j → j < i + w.length → r[j]? = some none
  kept : ∀ j, (∀ i, T i → ¬(i ≤ j ∧ j < i + w.length)) → r[j]? = l[j]?

theorem Cut.occurs {l r : List (Option α)} {T : Nat → Prop} (hw : w ≠ []) (h : Cut w l r T) :
    Cut w (w.map some ++ l) (List.replicate w.length none ++ r)
      fun i => i = 0 ∨ w.length ≤ i ∧ T (i - w.length) where
  starts i := by
    have hpos := List.length_pos_of_ne_nil hw
    constructor
    · rintro (rfl | ⟨hi, hT⟩)
      · exact ⟨List.prefix_append _ _, fun i' _ hlt => absurd hlt (Nat.not_lt_zero i')⟩
      · obtain ⟨hoccurs, hleft⟩ := (h.starts _).mp hT
        refine ⟨?_, ?_⟩
        · rwa [List.drop_append, List.drop_eq_nil_of_le (by simpa using hi), List.nil_append,
            List.length_map]
        · rintro i' (rfl | ⟨hi', hT'⟩) hlt
          · omega
          · have := hleft _ hT' (by omega)
            omega
    · rintro ⟨hoccurs, hleft⟩
      rcases Nat.eq_zero_or_pos i with hzero | hi
      · exact .inl hzero
      · have hlong : w.length ≤ i := by simpa using hleft 0 (.inl rfl) hi
        refine .inr ⟨hlong, (h.starts _).mpr ⟨?_, fun i' hT' hlt => ?_⟩⟩
        · rwa [List.drop_append, List.drop_eq_nil_of_le (by simpa using hlong), List.nil_append,
            List.length_map] at hoccurs
        · have := hleft (w.length + i') (.inr ⟨by omega, by simpa using hT'⟩) (by omega)
          omega
  hole i hi j hij hj := by
    rcases hi with rfl | ⟨hi, hT⟩
    · rw [List.getElem?_append_left (by simpa using hj),
        List.getElem?_replicate_of_lt (by simpa using hj)]
    · rw [List.getElem?_append_right (by simp; omega), List.length_replicate]
      exact h.hole _ hT _ (by omega) (by omega)
  kept j hj := by
    have hlong : w.length ≤ j := by
      have := hj 0 (.inl rfl)
      omega
    rw [List.getElem?_append_right (by simpa using hlong),
      List.getElem?_append_right (by simpa using hlong), List.length_replicate, List.length_map]
    refine h.kept _ fun i hT hij => hj (w.length + i) (.inr ⟨by omega, by simpa using hT⟩) ?_
    omega

theorem Cut.other {a : Option α} {l r : List (Option α)} {T : Nat → Prop}
    (ha : ¬w.map some <+: a :: l) (h : Cut w l r T) :
    Cut w (a :: l) (a :: r) fun i => 0 < i ∧ T (i - 1) where
  starts i := by
    cases i with
    | zero => simpa using fun hoccurs => absurd hoccurs ha
    | succ i =>
        simp only [Nat.zero_lt_succ, true_and, Nat.add_sub_cancel, List.drop_succ_cons]
        rw [h.starts i]
        refine and_congr_right fun _ => ⟨fun hleft i' hi' hlt => ?_, fun hleft i' hi' hlt => ?_⟩
        · have := hleft (i' - 1) hi'.2 (by omega)
          omega
        · have := hleft (i' + 1) ⟨Nat.succ_pos i', hi'⟩ (by omega)
          omega
  hole i hi j hij hj := by
    obtain ⟨j, rfl⟩ : ∃ j', j = j' + 1 := ⟨j - 1, by omega⟩
    rw [List.getElem?_cons_succ]
    exact h.hole _ hi.2 j (by omega) (by omega)
  kept j hj := by
    cases j with
    | zero => rfl
    | succ j =>
        rw [List.getElem?_cons_succ, List.getElem?_cons_succ]
        refine h.kept j fun i hT hij => hj (i + 1) ⟨Nat.succ_pos i, hT⟩ ?_
        omega

/-- What is left of the occurrences of another word: those that overlap none cut out. -/
theorem Cut.prefix_iff {l r : List (Option α)} {T : Nat → Prop} (h : Cut w l r T)
    {v : List α} {i : Nat} :
    v.map some <+: r.drop i ↔ v.map some <+: l.drop i ∧
      ∀ i', T i' → ¬∃ j, (i' ≤ j ∧ j < i' + w.length) ∧ i ≤ j ∧ j < i + v.length := by
  rw [prefix_drop_iff, prefix_drop_iff]
  simp only [List.length_map, List.getElem_map]
  constructor
  · intro hoccurs
    have hout : ∀ i', T i' → ¬∃ j, (i' ≤ j ∧ j < i' + w.length) ∧ i ≤ j ∧ j < i + v.length := by
      rintro i' hT ⟨j, hj, hij, hjv⟩
      have hhole := h.hole i' hT j hj.1 hj.2
      have hthere := hoccurs (j - i) (by omega)
      rw [Nat.add_sub_cancel' hij, hhole] at hthere
      cases hthere
    refine ⟨fun m hm => ?_, hout⟩
    rw [← h.kept (i + m) fun i' hT hj => hout i' hT ⟨i + m, hj, by omega, by omega⟩]
    exact hoccurs m hm
  · rintro ⟨hoccurs, hout⟩ m hm
    rw [h.kept (i + m) fun i' hT hj => hout i' hT ⟨i + m, hj, by omega, by omega⟩]
    exact hoccurs m hm

/-- `taken` is what is cut out of `l`, word after word, which leaves `r`. -/
structure CutInTurn (ws : List (List α)) (l r : List (Option α))
    (taken : Nat × Nat → Prop) : Prop where
  turns : TakenInTurn Before (Overlap ws) (Occurs (ws.map (List.map some)) l) taken
  hole : ∀ o, taken o → ∀ j, Covers ws o j → r[j]? = some none
  kept : ∀ j, (∀ o, taken o → ¬Covers ws o j) → r[j]? = l[j]?

/-- What the first turn takes, and then what the turns after it do. -/
def firstThen (T : Nat → Prop) (taken : Nat × Nat → Prop) : Nat × Nat → Prop
  | (0, i) => T i
  | (k + 1, i) => taken (k, i)

section Turns

variable {l m : List (Option α)} {T : Nat → Prop} {ws : List (List α)}

/-- The first turn takes those of its occurrences that overlap none further left. -/
theorem Cut.first_iff (hw : w ≠ []) (h : Cut w l m T) (taken : Nat × Nat → Prop) (i : Nat) :
    T i ↔ Occurs ((w :: ws).map (List.map some)) l (0, i) ∧
      ∀ p, firstThen T taken p → Before p (0, i) → ¬Overlap (w :: ws) p (0, i) := by
  have hpos := List.length_pos_of_ne_nil hw
  rw [h.starts i]
  refine and_congr ⟨fun hoccurs => ⟨_, rfl, hoccurs⟩, ?_⟩ ⟨?_, ?_⟩
  · rintro ⟨v, hv, hoccurs⟩
    cases hv
    exact hoccurs
  · rintro hleft ⟨k', i'⟩ htaken hbefore ⟨j, hj, hij⟩
    rcases before_iff.mp hbefore with hk | ⟨rfl, hi⟩
    · exact absurd hk (Nat.not_lt_zero k')
    · have := hleft i' htaken hi
      simp only [Covers, width_zero] at hj hij
      omega
  · intro hout i' hT hlt
    by_contra hover
    refine hout (0, i') hT (before_iff.mpr (.inr ⟨rfl, hlt⟩)) ⟨i, ?_, ?_⟩
    · simp only [Covers, width_zero]
      omega
    · simp only [Covers, width_zero]
      omega

/-- The turns after it take in turn what the first one has left. -/
theorem Cut.later_iff (h : Cut w l m T) {taken : Nat × Nat → Prop}
    (hturns : TakenInTurn Before (Overlap ws) (Occurs (ws.map (List.map some)) m) taken)
    (k i : Nat) :
    taken (k, i) ↔ Occurs ((w :: ws).map (List.map some)) l (k + 1, i) ∧
      ∀ p, firstThen T taken p → Before p (k + 1, i) → ¬Overlap (w :: ws) p (k + 1, i) := by
  rw [hturns (k, i)]
  constructor
  · rintro ⟨⟨v, hv, hoccurs⟩, hout⟩
    simp only [List.getElem?_map, Option.map_eq_some_iff] at hv
    obtain ⟨v, hv, rfl⟩ := hv
    obtain ⟨hthere, hfirst⟩ := h.prefix_iff.mp hoccurs
    refine ⟨⟨v.map some, by simp [hv], hthere⟩, ?_⟩
    rintro ⟨k', i'⟩ htaken hbefore ⟨j, hj, hij⟩
    cases k' with
    | zero =>
        refine hfirst i' htaken ⟨j, hj, ?_⟩
        simpa only [Covers, width_succ, width_of_getElem? hv] using hij
    | succ k' =>
        refine hout (k', i') htaken ?_ ⟨j, hj, hij⟩
        simpa [before_iff] using hbefore
  · rintro ⟨⟨v, hv, hoccurs⟩, hout⟩
    simp only [List.map_cons, List.getElem?_cons_succ, List.getElem?_map,
      Option.map_eq_some_iff] at hv
    obtain ⟨v, hv, rfl⟩ := hv
    refine ⟨⟨v.map some, by simp [hv], h.prefix_iff.mpr ⟨hoccurs, ?_⟩⟩, ?_⟩
    · rintro i' hT ⟨j, hj, hij⟩
      refine hout (0, i') hT (before_iff.mpr (.inl (Nat.succ_pos k))) ⟨j, hj, ?_⟩
      simpa only [Covers, width_succ, width_of_getElem? hv] using hij
    · rintro ⟨k', i'⟩ htaken hbefore ⟨j, hj, hij⟩
      refine hout (k' + 1, i') htaken ?_ ⟨j, hj, hij⟩
      simpa [before_iff] using hbefore

end Turns

/-- A turn, and the turns after it on what it has left. -/
theorem Cut.cutInTurn {l m r : List (Option α)} {T : Nat → Prop} {ws : List (List α)}
    {taken : Nat × Nat → Prop} (hw : w ≠ []) (h : Cut w l m T)
    (hrest : CutInTurn ws m r taken) : CutInTurn (w :: ws) l r (firstThen T taken) where
  turns := by
    rintro ⟨k, i⟩
    cases k with
    | zero => exact h.first_iff hw taken i
    | succ k => exact h.later_iff hrest.turns k i
  hole := by
    rintro ⟨k, i⟩ htaken j hj
    cases k with
    | zero =>
        by_cases hlater : ∃ o, taken o ∧ Covers ws o j
        · obtain ⟨o, ho, hoj⟩ := hlater
          exact hrest.hole o ho j hoj
        · rw [hrest.kept j fun o ho hoj => hlater ⟨o, ho, hoj⟩]
          exact h.hole i htaken j hj.1 hj.2
    | succ k => exact hrest.hole (k, i) htaken j hj
  kept j hj := by
    rw [hrest.kept j fun o ho hoj => hj (o.1 + 1, o.2) ho hoj]
    exact h.kept j fun i hT hij => hj (0, i) hT hij

end Cut

section Punch

variable {α : Type u} [DecidableEq α]

/-- Cut the occurrences of a word out. -/
def punch (w : List α) (l : List (Option α)) : List (Option α) :=
  replace (w.map some) (List.replicate w.length none) l

/-- Cut one word out after another. -/
def punchEach (l : List (Option α)) : List (List α) → List (Option α)
  | [] => l
  | w :: ws => punchEach (punch w l) ws

variable {w : List α}

theorem punch_append (hw : w ≠ []) (post : List (Option α)) :
    punch w (w.map some ++ post) = List.replicate w.length none ++ punch w post :=
  replace_append _ (by simpa using hw) post

theorem punch_cons {a : Option α} {l : List (Option α)} (h : ¬w.map some <+: a :: l) :
    punch w (a :: l) = a :: punch w l :=
  replace_cons _ h

theorem length_punch (hw : w ≠ []) (l : List (Option α)) : (punch w l).length = l.length := by
  have hold : w.map some ≠ [] := by simpa using hw
  induction l using occurrence_induction hold with
  | nil => rfl
  | occurs post ih => simp [punch_append hw, ih]
  | other a l ha ih => rw [punch_cons ha, List.length_cons, ih, List.length_cons]

theorem length_punchEach {ws : List (List α)} (hws : ∀ w ∈ ws, w ≠ []) (l : List (Option α)) :
    (punchEach l ws).length = l.length := by
  induction ws generalizing l with
  | nil => rfl
  | cons w ws ih =>
      rw [punchEach, ih (fun v hv => hws v (List.mem_cons_of_mem w hv)),
        length_punch (hws w List.mem_cons_self)]

/-- **One turn** cuts out the occurrences taken from left to right. -/
theorem exists_cut (hw : w ≠ []) (l : List (Option α)) : ∃ T, Cut w l (punch w l) T := by
  have hold : w.map some ≠ [] := by simpa using hw
  induction l using occurrence_induction hold with
  | nil =>
      refine ⟨fun _ => False, fun i => ?_, fun i hi => hi.elim, fun j _ => rfl⟩
      simp [hw]
  | occurs post ih =>
      obtain ⟨T, h⟩ := ih
      rw [punch_append hw]
      exact ⟨_, h.occurs hw⟩
  | other a l ha ih =>
      obtain ⟨T, h⟩ := ih
      rw [punch_cons ha]
      exact ⟨_, h.other ha⟩

/-- **All turns** cut out the occurrences taken in turn. -/
theorem exists_cutInTurn {ws : List (List α)} (hws : ∀ w ∈ ws, w ≠ []) (l : List (Option α)) :
    ∃ taken, CutInTurn ws l (punchEach l ws) taken := by
  induction ws generalizing l with
  | nil =>
      refine ⟨fun _ => False, fun o => ?_, fun o ho => ho.elim, fun j _ => rfl⟩
      simp [Occurs]
  | cons w ws ih =>
      have hw := hws w List.mem_cons_self
      obtain ⟨T, hfirst⟩ := exists_cut hw l
      obtain ⟨taken, hrest⟩ := ih (fun v hv => hws v (List.mem_cons_of_mem w hv)) (punch w l)
      exact ⟨_, hfirst.cutInTurn hw hrest⟩

/-- The occurrences taken in turn cover every element of every occurrence. -/
def TakenCover (ws : List (List α)) (l : List α) : Prop :=
  ∃ taken, TakenInTurn Before (Overlap ws) (Occurs ws l) taken ∧
    ∀ o j, Occurs ws l o → Covers ws o j → ∃ p, taken p ∧ Covers ws p j

omit [DecidableEq α] in
/-- Nothing has been cut out of the list itself. -/
theorem occurs_map_some (ws : List (List α)) (l : List α) (o : Nat × Nat) :
    Occurs (ws.map (List.map some)) (l.map some) o ↔ Occurs ws l o := by
  constructor
  · rintro ⟨v, hv, hoccurs⟩
    rw [List.getElem?_map, Option.map_eq_some_iff] at hv
    obtain ⟨w, hw, rfl⟩ := hv
    rw [← List.map_drop] at hoccurs
    exact ⟨w, hw, (List.prefix_map_iff_of_injective (Option.some_injective α)).mp hoccurs⟩
  · rintro ⟨w, hw, hoccurs⟩
    refine ⟨w.map some, by rw [List.getElem?_map, hw, Option.map_some], ?_⟩
    rw [← List.map_drop]
    exact hoccurs.map some

omit [DecidableEq α] in
/-- What is cut out of the list itself is taken of its own occurrences. -/
theorem CutInTurn.turns_of_map_some {ws : List (List α)} {l : List α} {r : List (Option α)}
    {taken : Nat × Nat → Prop} (h : CutInTurn ws (l.map some) r taken) :
    TakenInTurn Before (Overlap ws) (Occurs ws l) taken := by
  intro o
  rw [h.turns o, occurs_map_some]

/-- What is taken covers every occurrence exactly if cutting the words out leaves nothing of
any. -/
theorem takenCover_iff {ws : List (List α)} (hws : ∀ w ∈ ws, w ≠ []) (l : List α) :
    TakenCover ws l ↔ ∀ o j, Occurs ws l o → Covers ws o j →
      (punchEach (l.map some) ws)[j]? = some none := by
  obtain ⟨taken, hcut⟩ := exists_cutInTurn hws (l.map some)
  have hturns := hcut.turns_of_map_some
  constructor
  · rintro ⟨taken', hturns', hcover⟩ o j hoccurs hj
    obtain ⟨p, hp, hpj⟩ := hcover o j hoccurs hj
    exact hcut.hole p ((hturns.unique before_wellFounded hturns' p).mpr hp) j hpj
  · intro hholes
    refine ⟨taken, hturns, fun o j hoccurs hj => ?_⟩
    by_contra hnone
    have hkept := hcut.kept j fun p hp hpj => hnone ⟨p, hp, hpj⟩
    rw [hholes o j hoccurs hj, List.getElem?_map] at hkept
    cases hl : l[j]? <;> simp [hl] at hkept

/-- Where of two occurrences that overlap one lies within the other, and none comes before
one that it lies within, those taken in turn cover all. -/
theorem takenCover_of_nested {ws : List (List α)} (hws : ∀ w ∈ ws, w ≠ []) {l : List α}
    (hnested : ∀ p o, Occurs ws l p → Occurs ws l o → Overlap ws p o →
      (∀ j, Covers ws p j → Covers ws o j) ∨ ∀ j, Covers ws o j → Covers ws p j)
    (hfirst : ∀ p o, Occurs ws l p → Occurs ws l o → Before p o →
      (∀ j, Covers ws p j → Covers ws o j) → ∀ j, Covers ws o j → Covers ws p j) :
    TakenCover ws l := by
  obtain ⟨taken, hcut⟩ := exists_cutInTurn hws (l.map some)
  have hturns := hcut.turns_of_map_some
  refine ⟨taken, hturns, fun o j hoccurs hj => ?_⟩
  by_cases htaken : taken o
  · exact ⟨o, htaken, hj⟩
  · -- an occurrence before it was taken, and that one lies around it
    rw [hturns o] at htaken
    push Not at htaken
    obtain ⟨p, hp, hbefore, hoverlap⟩ := htaken hoccurs
    have hpoccurs := ((hturns p).mp hp).1
    rcases hnested p o hpoccurs hoccurs hoverlap with hwithin | haround
    · exact ⟨p, hp, hfirst p o hpoccurs hoccurs hbefore hwithin j hj⟩
    · exact ⟨p, hp, haround j hj⟩

end Punch

end Substitution
