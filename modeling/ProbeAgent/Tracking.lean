import ProbeAgent.Occurrences

/-!
# Replacing with the origin of every element kept

`replaceOn` replaces in a list whose elements carry more than what is compared.  With the
place it came from beside each element of a list (`track`), the elements a replacement
keeps still say where they came from, and those of the mask it puts in say nothing.

A list in which words were masked one after another is the same list with the words cut out
and one mask shown for each (`replaceOn_shown`), as long as no stretch that is replaced has
an element of a mask (`Unread`).
-/

namespace Substitution

universe u v

/-! ## Replacing by what is compared -/

section ReplaceOn

variable {α : Type u} {β : Type v} [DecidableEq β] (f : α → β) (old : List β) (new : List α)

/-- `replaceFrom`, on elements of which `f` is compared. -/
def replaceOnFrom : Nat → List α → List α
  | _, [] => []
  | rest + 1, _ :: l => replaceOnFrom rest l
  | 0, a :: l =>
      if old <+: f a :: l.map f then new ++ replaceOnFrom (old.length - 1) l
      else a :: replaceOnFrom 0 l

/-- `replace`, on elements of which `f` is compared. -/
def replaceOn (l : List α) : List α := replaceOnFrom f old new 0 l

theorem replaceOnFrom_eq (rest : Nat) (l : List α) :
    replaceOnFrom f old new rest l = replaceOn f old new (l.drop rest) := by
  induction l generalizing rest with
  | nil => cases rest <;> simp [replaceOnFrom, replaceOn]
  | cons a l ih =>
      cases rest with
      | zero => rfl
      | succ rest => simpa [replaceOnFrom] using ih rest

theorem map_replaceOnFrom (rest : Nat) (l : List α) :
    (replaceOnFrom f old new rest l).map f = replaceFrom old (new.map f) rest (l.map f) := by
  induction l generalizing rest with
  | nil => cases rest <;> rfl
  | cons a l ih =>
      cases rest with
      | zero =>
          rw [List.map_cons, replaceOnFrom, replaceFrom]
          split
          · rw [List.map_append, ih]
          · rw [List.map_cons, ih]
      | succ rest => exact ih rest

/-- Of what is compared, it is `replace`. -/
theorem map_replaceOn (l : List α) :
    (replaceOn f old new l).map f = replace old (new.map f) (l.map f) :=
  map_replaceOnFrom f old new 0 l

variable {f old}

theorem replaceOn_append {front : List α} (hfront : front.map f = old) (hold : old ≠ [])
    (post : List α) : replaceOn f old new (front ++ post) = new ++ replaceOn f old new post := by
  cases front with
  | nil => exact absurd hfront.symm hold
  | cons a front =>
      have hprefix : old <+: f a :: (front ++ post).map f := by
        rw [← hfront, List.map_append]
        exact List.prefix_append ((a :: front).map f) (post.map f)
      have hlen : old.length - 1 = front.length := by simp [← hfront]
      rw [replaceOn, List.cons_append, replaceOnFrom, if_pos hprefix, replaceOnFrom_eq, hlen,
        List.drop_left]

theorem replaceOn_cons {a : α} {l : List α} (h : ¬old <+: f a :: l.map f) :
    replaceOn f old new (a :: l) = a :: replaceOn f old new l := by
  rw [replaceOn, replaceOnFrom, if_neg h, replaceOn]

/-- Elements at which no occurrence begins are kept. -/
theorem replaceOn_append_left {front l : List α}
    (h : ∀ d, d ≠ [] → d <:+ front → ¬old <+: (d ++ l).map f) :
    replaceOn f old new (front ++ l) = front ++ replaceOn f old new l := by
  induction front with
  | nil => rfl
  | cons a front ih =>
      have ha := h (a :: front) (List.cons_ne_nil a front) (List.suffix_refl _)
      have hrest := ih fun d hd hsuffix => h d hd (hsuffix.trans (List.suffix_cons a front))
      rw [List.cons_append, replaceOn_cons new (by simpa using ha), hrest, List.cons_append]

theorem replaceOn_of_absent {l : List α} (h : ¬old <:+: l.map f) :
    replaceOn f old new l = l := by
  have hkeep : replaceOn f old new (l ++ []) = l ++ replaceOn f old new [] := by
    refine replaceOn_append_left new ?_
    rintro d - ⟨c, rfl⟩ hoccurs
    refine h (hoccurs.isInfix.trans ?_)
    rw [List.append_nil, List.map_append]
    exact (List.suffix_append (c.map f) (d.map f)).isInfix
  simpa [replaceOn, replaceOnFrom] using hkeep

/-! ### What is replaced -/

variable (f old)

/-- The stretches that `replaceOnFrom` replaces. -/
def matchesOnFrom : Nat → List α → List (List α)
  | _, [] => []
  | rest + 1, _ :: l => matchesOnFrom rest l
  | 0, a :: l =>
      if old <+: f a :: l.map f then (a :: l).take old.length :: matchesOnFrom (old.length - 1) l
      else matchesOnFrom 0 l

/-- The stretches that `replaceOn` replaces. -/
def matchesOn (l : List α) : List (List α) := matchesOnFrom f old 0 l

theorem matchesOnFrom_eq (rest : Nat) (l : List α) :
    matchesOnFrom f old rest l = matchesOn f old (l.drop rest) := by
  induction l generalizing rest with
  | nil => cases rest <;> simp [matchesOnFrom, matchesOn]
  | cons a l ih =>
      cases rest with
      | zero => rfl
      | succ rest => simpa [matchesOnFrom] using ih rest

variable {f old}

theorem matchesOn_append {front : List α} (hfront : front.map f = old) (hold : old ≠ [])
    (post : List α) : matchesOn f old (front ++ post) = front :: matchesOn f old post := by
  cases front with
  | nil => exact absurd hfront.symm hold
  | cons a front =>
      have hprefix : old <+: f a :: (front ++ post).map f := by
        rw [← hfront, List.map_append]
        exact List.prefix_append ((a :: front).map f) (post.map f)
      have hlen : old.length = front.length + 1 := by simp [← hfront]
      rw [matchesOn, List.cons_append, matchesOnFrom, if_pos hprefix, matchesOnFrom_eq, hlen,
        Nat.add_sub_cancel, List.drop_left, List.take_succ_cons, List.take_left]

theorem matchesOn_cons {a : α} {l : List α} (h : ¬old <+: f a :: l.map f) :
    matchesOn f old (a :: l) = matchesOn f old l := by
  rw [matchesOn, matchesOnFrom, if_neg h, matchesOn]

/-- A list begins with an occurrence, or with an element at which none begins. -/
theorem occurs_or_not (f : α → β) (old : List β) (l : List α) :
    (∃ front post, l = front ++ post ∧ front.map f = old) ∨ ¬old <+: l.map f := by
  by_cases h : old <+: l.map f
  · obtain ⟨post, hpost⟩ := h
    obtain ⟨front, rest, rfl, hfront, -⟩ := List.map_eq_append_iff.mp hpost.symm
    exact .inl ⟨front, rest, rfl, hfront⟩
  · exact .inr h

/-- What is replaced is an occurrence. -/
theorem exists_of_mem_matchesOn (hold : old ≠ []) {l m : List α} (h : m ∈ matchesOn f old l) :
    ∃ pre post, l = pre ++ m ++ post ∧ m.map f = old := by
  induction hlen : l.length using Nat.strong_induction_on generalizing l with
  | h n ih =>
      rcases occurs_or_not f old l with ⟨front, post, rfl, hfront⟩ | hnot
      · rw [matchesOn_append hfront hold, List.mem_cons] at h
        rcases h with rfl | h
        · exact ⟨[], post, rfl, hfront⟩
        · have hpos := List.length_pos_of_ne_nil hold
          rw [← hfront, List.length_map] at hpos
          obtain ⟨pre, rest, rfl, hm⟩ := ih post.length (by simp at hlen; omega) h rfl
          exact ⟨front ++ pre, rest, by simp, hm⟩
      · cases l with
        | nil => cases h
        | cons a l =>
            rw [matchesOn_cons hnot] at h
            obtain ⟨pre, rest, rfl, hm⟩ := ih l.length (by simp at hlen; omega) h rfl
            exact ⟨a :: pre, rest, by simp, hm⟩

/-- Elements that are in nothing that is replaced are kept. -/
theorem replaceOn_append_of_unread (hold : old ≠ []) {front l : List α}
    (h : ∀ m ∈ matchesOn f old (front ++ l), ∀ a ∈ front, a ∉ m) :
    replaceOn f old new (front ++ l) = front ++ replaceOn f old new l ∧
      matchesOn f old (front ++ l) = matchesOn f old l := by
  induction front with
  | nil => exact ⟨rfl, rfl⟩
  | cons a front ih =>
      have hnot : ¬old <+: f a :: (front ++ l).map f := by
        intro hprefix
        have hmem : (a :: (front ++ l)).take old.length ∈ matchesOn f old (a :: front ++ l) := by
          rw [List.cons_append, matchesOn, matchesOnFrom, if_pos hprefix]
          exact List.mem_cons_self
        obtain ⟨n, hn⟩ := Nat.exists_eq_succ_of_ne_zero (List.length_pos_of_ne_nil hold).ne'
        refine h _ hmem a List.mem_cons_self ?_
        rw [hn, List.take_succ_cons]
        exact List.mem_cons_self
      rw [List.cons_append, matchesOn_cons hnot] at h ⊢
      obtain ⟨hkeep, hsame⟩ := ih fun m hm b hb => h m hm b (List.mem_cons_of_mem a hb)
      rw [replaceOn_cons new hnot, hkeep]
      exact ⟨rfl, hsame⟩

end ReplaceOn

/-! ## A list with words cut out -/

/-- An element of a list, or `n + 1` elements cut out in one go. -/
inductive Piece (α : Type u)
  | kept (a : α)
  | cut (n : Nat)
deriving DecidableEq

section Carve

variable {α : Type u}

/-- The places of a piece, with a hole for an element that was cut out. -/
def Piece.holes : Piece α → List (Option α)
  | .kept a => [some a]
  | .cut n => List.replicate (n + 1) none

/-- A word is found in the pieces where it is found in the list with holes. -/
theorem prefix_holes {w : List α} {l : List (Piece α)} (h : w.map some <+: l.flatMap Piece.holes) :
    w.map .kept <+: l := by
  induction w generalizing l with
  | nil => exact List.nil_prefix
  | cons a w ih =>
      cases l with
      | nil => cases List.prefix_nil.mp h
      | cons p l =>
          rw [List.flatMap_cons] at h
          cases p with
          | kept b =>
              obtain ⟨hab, hrest⟩ := List.cons_prefix_cons.mp h
              cases hab
              exact List.cons_prefix_cons.mpr ⟨rfl, ih hrest⟩
          | cut n => cases (List.cons_prefix_cons.mp h).1

variable [DecidableEq α]

/-- Cut the occurrences of a word out, each in one go. -/
def carve (w : List α) (l : List (Piece α)) : List (Piece α) :=
  replace (w.map .kept) [.cut (w.length - 1)] l

/-- Cut one word out after another. -/
def carveEach (l : List (Piece α)) : List (List α) → List (Piece α)
  | [] => l
  | w :: ws => carveEach (carve w l) ws

variable {w : List α}

theorem carve_append (hw : w ≠ []) (post : List (Piece α)) :
    carve w (w.map .kept ++ post) = .cut (w.length - 1) :: carve w post :=
  replace_append _ (by simpa using hw) post

theorem carve_cons {p : Piece α} {l : List (Piece α)} (h : ¬w.map .kept <+: p :: l) :
    carve w (p :: l) = p :: carve w l :=
  replace_cons _ h

theorem carve_cut (hw : w ≠ []) (n : Nat) (l : List (Piece α)) :
    carve w (.cut n :: l) = .cut n :: carve w l := by
  refine carve_cons fun hprefix => ?_
  obtain ⟨a, w, rfl⟩ := List.exists_cons_of_ne_nil hw
  cases (List.cons_prefix_cons.mp hprefix).1

/-- With its holes it is `punch`. -/
theorem holes_carve (hw : w ≠ []) (l : List (Piece α)) :
    (carve w l).flatMap Piece.holes = punch w (l.flatMap Piece.holes) := by
  have hold : w.map Piece.kept ≠ [] := by simpa using hw
  have hkept : ∀ v : List α, (v.map Piece.kept).flatMap Piece.holes = v.map some := by
    intro v
    rw [List.flatMap_map]
    exact List.flatMap_pure_eq_map some v
  have hsucc : w.length - 1 + 1 = w.length :=
    Nat.succ_pred_eq_of_pos (List.length_pos_of_ne_nil hw)
  induction l using occurrence_induction hold with
  | nil => rfl
  | occurs post ih =>
      rw [carve_append hw, List.flatMap_cons, ih, Piece.holes, hsucc, List.flatMap_append, hkept,
        punch_append hw]
  | other p l hother ih =>
      rw [carve_cons hother, List.flatMap_cons, List.flatMap_cons, ih]
      cases p with
      | kept a =>
          have hnot : ¬w.map some <+: some a :: l.flatMap Piece.holes := fun hprefix =>
            hother (prefix_holes (l := .kept a :: l) hprefix)
          exact (punch_cons hnot).symm
      | cut n =>
          have hnone : ∀ a ∈ List.replicate (n + 1) (none : Option α), a ∉ w.map some := by
            intro a ha
            rw [List.eq_of_mem_replicate ha]
            simp
          exact (replace_append_left _ hnone (by simpa using hw) _).symm

theorem holes_carveEach {ws : List (List α)} (hws : ∀ w ∈ ws, w ≠ []) (l : List (Piece α)) :
    (carveEach l ws).flatMap Piece.holes = punchEach (l.flatMap Piece.holes) ws := by
  induction ws generalizing l with
  | nil => rfl
  | cons w ws ih =>
      rw [carveEach, punchEach, ih (fun v hv => hws v (List.mem_cons_of_mem w hv)),
        holes_carve (hws w List.mem_cons_self)]

end Carve

/-! ## What it is shown as -/

section Showing

variable {α : Type u}

/-- The mask, which comes from nowhere. -/
def untracked (mask : List α) : List (α × Option Nat) := mask.map fun a => (a, none)

/-- A list, with every element's place. -/
def trackFrom : Nat → List α → List (α × Option Nat)
  | _, [] => []
  | i, a :: l => (a, some i) :: trackFrom (i + 1) l

def track (l : List α) : List (α × Option Nat) := trackFrom 0 l

/-- The elements that are kept, with their places, and a mask for what was cut out in one
go. -/
def shown (mask : List α) : Nat → List (Piece α) → List (α × Option Nat)
  | _, [] => []
  | i, .kept a :: l => (a, some i) :: shown mask (i + 1) l
  | i, .cut n :: l => untracked mask ++ shown mask (i + (n + 1)) l

@[simp] theorem map_fst_untracked (mask : List α) : (untracked mask).map Prod.fst = mask := by
  simp [untracked, Function.comp_def]

theorem map_fst_trackFrom (i : Nat) (l : List α) : (trackFrom i l).map Prod.fst = l := by
  induction l generalizing i with
  | nil => rfl
  | cons a l ih => rw [trackFrom, List.map_cons, ih]

@[simp] theorem map_fst_track (l : List α) : (track l).map Prod.fst = l :=
  map_fst_trackFrom 0 l

variable {mask w : List α} {i : Nat} {l : List (Piece α)}

/-- Nothing has been cut out of the list itself. -/
theorem shown_map_kept (mask : List α) (i : Nat) (l : List α) :
    shown mask i (l.map .kept) = trackFrom i l := by
  induction l generalizing i with
  | nil => rfl
  | cons a l ih => rw [List.map_cons, shown, ih, trackFrom]

/-- What is shown of a place is what the list with holes has there. -/
theorem mem_shown_iff {a : α} {j : Nat} :
    (a, some j) ∈ shown mask i l ↔
      ∃ k, j = i + k ∧ (l.flatMap Piece.holes)[k]? = some (some a) := by
  induction l generalizing i with
  | nil => simp [shown]
  | cons p l ih =>
      rw [List.flatMap_cons]
      cases p with
      | kept b =>
          rw [shown, List.mem_cons, ih]
          constructor
          · rintro (heq | ⟨k, rfl, hk⟩)
            · cases heq
              exact ⟨0, rfl, rfl⟩
            · exact ⟨k + 1, by omega, hk⟩
          · rintro ⟨k, rfl, hk⟩
            cases k with
            | zero =>
                cases hk
                exact .inl rfl
            | succ k => exact .inr ⟨k, by omega, hk⟩
      | cut n =>
          have hmask : (a, some j) ∉ untracked mask := by simp [untracked]
          rw [shown, List.mem_append, or_iff_right hmask, ih, Piece.holes]
          constructor
          · rintro ⟨k, rfl, hk⟩
            refine ⟨n + 1 + k, by omega, ?_⟩
            rwa [List.getElem?_append_right (by simp), List.length_replicate,
              Nat.add_sub_cancel_left]
          · rintro ⟨k, rfl, hk⟩
            rcases Nat.lt_or_ge k (n + 1) with hlt | hge
            · rw [List.getElem?_append_left (by simpa using hlt),
                List.getElem?_replicate_of_lt hlt] at hk
              cases hk
            · rw [List.getElem?_append_right (by simp only [List.length_replicate]; omega),
                List.length_replicate] at hk
              exact ⟨k - (n + 1), by omega, hk⟩

/-- Of what is not shown as a mask, all is kept. -/
theorem kept_of_shown (hmask : mask ≠ []) {front rest : List (α × Option Nat)}
    (h : shown mask i l = front ++ rest) (hfront : ∀ e ∈ front, e.2.isSome = true) :
    ∃ l', l = (front.map Prod.fst).map .kept ++ l' ∧ shown mask (i + front.length) l' = rest := by
  induction front generalizing i l with
  | nil => exact ⟨l, rfl, h⟩
  | cons e front ih =>
      rw [List.forall_mem_cons] at hfront
      cases l with
      | nil => cases h
      | cons p l =>
          cases p with
          | kept a =>
              obtain ⟨rfl, htail⟩ := List.cons_eq_cons.mp h
              obtain ⟨l', rfl, hrest⟩ := ih htail hfront.2
              refine ⟨l', rfl, ?_⟩
              rwa [List.length_cons, Nat.add_comm front.length, ← Nat.add_assoc]
          | cut n =>
              obtain ⟨b, mask, rfl⟩ := List.exists_cons_of_ne_nil hmask
              obtain ⟨rfl, -⟩ := List.cons_eq_cons.mp h
              cases hfront.1

/-- What is kept is shown as it is. -/
theorem shown_append_kept (mask w : List α) (i : Nat) (l : List (Piece α)) :
    ∃ front, shown mask i (w.map .kept ++ l) = front ++ shown mask (i + w.length) l ∧
      front.map Prod.fst = w := by
  induction w generalizing i with
  | nil => exact ⟨[], rfl, rfl⟩
  | cons a w ih =>
      obtain ⟨front, hshown, hfront⟩ := ih (i + 1)
      refine ⟨(a, some i) :: front, ?_, by rw [List.map_cons, hfront]⟩
      rw [List.map_cons, List.cons_append, shown, hshown, List.length_cons,
        Nat.add_comm w.length, ← Nat.add_assoc, List.cons_append]

variable [DecidableEq α]

/-- Nothing that is replaced has an element of a mask. -/
def Unread (w : List α) (t : List (α × Option Nat)) : Prop :=
  ∀ m ∈ matchesOn Prod.fst w t, ∀ e ∈ m, e.2.isSome = true

instance (w : List α) (t : List (α × Option Nat)) : Decidable (Unread w t) :=
  inferInstanceAs (Decidable (∀ m ∈ matchesOn Prod.fst w t, ∀ e ∈ m, e.2.isSome = true))

/-- **One turn**: masking a word is cutting it out and showing a mask for it. -/
theorem replaceOn_shown (hw : w ≠ []) (hmask : mask ≠ []) (h : Unread w (shown mask i l)) :
    replaceOn Prod.fst w (untracked mask) (shown mask i l) = shown mask i (carve w l) := by
  induction hlen : l.length using Nat.strong_induction_on generalizing i l with
  | h n ih =>
      cases l with
      | nil => rfl
      | cons p l =>
          cases p with
          | kept a =>
              rcases occurs_or_not Prod.fst w (shown mask i (.kept a :: l)) with
                ⟨front, rest, hsplit, hfront⟩ | hnot
              · rw [hsplit, Unread, matchesOn_append hfront hw, List.forall_mem_cons] at h
                obtain ⟨l', hl, hrest⟩ := kept_of_shown hmask hsplit h.1
                have hpos := List.length_pos_of_ne_nil hw
                have hlong := congrArg List.length hl
                simp only [List.length_append, List.length_map] at hlong
                rw [hfront] at hl
                rw [← hrest] at h hsplit
                have hsame : front.length = w.length - 1 + 1 := by
                  rw [← hfront, List.length_map] at hpos ⊢
                  omega
                rw [hsplit, replaceOn_append _ hfront hw, hl, carve_append hw, shown, ← hsame,
                  ih l'.length (by omega) h.2 rfl]
              · have hcarve : ¬w.map Piece.kept <+: .kept a :: l := by
                  rintro ⟨l', hl⟩
                  obtain ⟨front, hsplit, hfront⟩ := shown_append_kept mask w i l'
                  rw [← hl, hsplit, List.map_append, hfront] at hnot
                  exact hnot (List.prefix_append w _)
                rw [shown] at h hnot ⊢
                rw [Unread, matchesOn_cons hnot] at h
                rw [replaceOn_cons _ hnot, carve_cons hcarve, shown,
                  ih l.length (by simp at hlen; omega) h rfl]
          | cut k =>
              rw [shown] at h ⊢
              have hout : ∀ m ∈ matchesOn Prod.fst w (untracked mask ++ shown mask (i + (k + 1)) l),
                  ∀ e ∈ untracked mask, e ∉ m := by
                intro m hm e he hmem
                obtain ⟨a, -, rfl⟩ := List.mem_map.mp he
                exact Bool.false_ne_true (h m hm _ hmem)
              obtain ⟨hkeep, hsame⟩ := replaceOn_append_of_unread (untracked mask) hw hout
              rw [Unread, hsame] at h
              rw [hkeep, carve_cut hw, shown, ih l.length (by simp at hlen; omega) h rfl]

omit [DecidableEq α] in
/-- An element of a mask lies in a mask that is shown. -/
theorem exists_mask {e : α × Option Nat} {x y : List (α × Option Nat)}
    (h : shown mask i l = x ++ e :: y) (he : e.2 = none) :
    ∃ p q, shown mask i l = p ++ untracked mask ++ q ∧ p.length ≤ x.length ∧
      x.length < p.length + mask.length := by
  induction l generalizing i x with
  | nil => simp [shown] at h
  | cons piece l ih =>
      cases piece with
      | kept a =>
          cases x with
          | nil =>
              obtain ⟨rfl, -⟩ := List.cons_eq_cons.mp h
              cases he
          | cons b x =>
              obtain ⟨rfl, htail⟩ := List.cons_eq_cons.mp h
              obtain ⟨p, q, hshown, hle, hlt⟩ := ih htail
              refine ⟨(a, some i) :: p, q, by rw [shown, hshown]; simp, ?_, ?_⟩
              · simpa using hle
              · simp only [List.length_cons]
                omega
      | cut n =>
          rw [shown] at h
          rcases Nat.lt_or_ge x.length mask.length with hlt | hge
          · exact ⟨[], shown mask (i + (n + 1)) l, by rw [shown, List.nil_append], Nat.zero_le _,
              by simpa using hlt⟩
          · obtain ⟨x', rfl, htail⟩ := exists_of_append_eq h (by simpa [untracked] using hge)
            obtain ⟨p, q, hshown, hle, hlt⟩ := ih htail
            refine ⟨untracked mask ++ p, q, by rw [shown, hshown]; simp, ?_, ?_⟩
            · simpa using hle
            · simp only [List.length_append]
              omega

/-- A word that keeps apart from the mask reads none. -/
theorem Apart.unread (hapart : Apart w mask) (hw : w ≠ []) (i : Nat) (l : List (Piece α)) :
    Unread w (shown mask i l) := by
  intro m hm e he
  by_contra hnone
  rw [Bool.not_eq_true, Option.isSome_eq_false_iff, Option.isNone_iff_eq_none] at hnone
  obtain ⟨pre, post, hsplit, hword⟩ := exists_of_mem_matchesOn hw hm
  obtain ⟨x, y, rfl⟩ := List.append_of_mem he
  obtain ⟨p, q, hmasked, hle, hlt⟩ := exists_mask (x := pre ++ x) (y := y ++ post)
    (by rw [hsplit]; simp) hnone
  have hsame : p.map Prod.fst ++ mask ++ q.map Prod.fst = pre.map Prod.fst ++ w ++
      post.map Prod.fst := by
    rw [← map_fst_untracked mask, ← List.map_append, ← List.map_append, ← hmasked, hsplit,
      List.map_append, List.map_append, hword]
  have hlength := congrArg List.length hword
  have hside := hapart _ _ _ _ hsame
  simp only [List.length_map, List.length_append, List.length_cons] at hside hlength hle hlt
  omega

end Showing

end Substitution
