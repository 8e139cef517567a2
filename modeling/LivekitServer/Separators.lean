import Mathlib.Data.List.Basic

/-!
# Texts split at a pair

Splitting at every occurrence of two different elements, and cutting at the first one. `lines_iff`
says when a text splits into given lines, `cut_iff` when it is cut into given parts.
-/

namespace LivekitServer.Separators

variable {α : Type} [DecidableEq α] (a b : α)

/-- The pair stands somewhere in the text. -/
def Has (text : List α) : Prop := [a, b] <:+: text

/-- The texts between the pairs. -/
def pieces : List α → List (List α)
  | [] => [[]]
  | [x] => [[x]]
  | x :: y :: rest =>
    if x = a ∧ y = b then [] :: pieces rest
    else (pieces (y :: rest)).modifyHead (x :: ·)

/-- The texts before and behind the first pair. -/
def cut : List α → Option (List α × List α)
  | [] => none
  | [_] => none
  | x :: y :: rest =>
    if x = a ∧ y = b then some ([], rest)
    else (cut (y :: rest)).map fun parts => (x :: parts.1, parts.2)

section Occurrences

variable {a b} {x y : α} {text front back : List α}

omit [DecidableEq α] in
theorem not_has_nil : ¬Has a b [] := by
  intro h
  have hlength := h.length_le
  simp at hlength

omit [DecidableEq α] in
theorem not_has_singleton : ¬Has a b [x] := by
  intro h
  have hlength := h.length_le
  simp at hlength

omit [DecidableEq α] in
theorem has_cons_cons : Has a b (x :: y :: text) ↔ (x = a ∧ y = b) ∨ Has a b (y :: text) := by
  rw [Has, List.infix_cons_iff, List.cons_prefix_cons, List.cons_prefix_cons, Has]
  constructor
  · rintro (⟨rfl, rfl, -⟩ | h)
    · exact Or.inl ⟨rfl, rfl⟩
    · exact Or.inr h
  · rintro (⟨rfl, rfl⟩ | h)
    · exact Or.inl ⟨rfl, rfl, List.nil_prefix⟩
    · exact Or.inr h

omit [DecidableEq α] in
theorem Has.cons (h : Has a b text) : Has a b (x :: text) := List.infix_cons h

omit [DecidableEq α] in
/-- An element in front of a prefix makes no occurrence when it makes none in the text. -/
theorem not_has_cons {y : α} (hpair : ¬(x = a ∧ y = b)) (hstart : front <+: y :: text)
    (h : ¬Has a b front) : ¬Has a b (x :: front) := by
  cases front with
  | nil => exact not_has_singleton
  | cons z front =>
      obtain rfl : z = y := (List.cons_prefix_cons.mp hstart).1
      rw [has_cons_cons]
      exact not_or.mpr ⟨hpair, h⟩

omit [DecidableEq α] in
/-- An element that is not of the pair keeps occurrences apart. -/
theorem has_append_cons {c : α} (ha : c ≠ a) (hb : c ≠ b) :
    Has a b (front ++ c :: back) ↔ Has a b front ∨ Has a b back := by
  have hcons : Has a b (c :: back) ↔ Has a b back := by
    cases back with
    | nil => exact iff_of_false not_has_singleton not_has_nil
    | cons y back =>
        rw [has_cons_cons]
        exact or_iff_right fun h => ha h.1
  induction front with
  | nil => rw [List.nil_append, hcons, or_iff_right not_has_nil]
  | cons x front ih =>
      cases front with
      | nil =>
          rw [List.singleton_append, has_cons_cons, hcons, or_iff_right fun h => hb h.2,
            or_iff_right not_has_singleton]
      | cons y front =>
          have hrest : Has a b (y :: (front ++ c :: back)) ↔ Has a b (y :: front) ∨ Has a b back :=
            ih
          rw [List.cons_append, List.cons_append, has_cons_cons, hrest, has_cons_cons, or_assoc]

end Occurrences

section Pieces

variable {a b} {text front back : List α}

/-- Two different elements do not overlap an occurrence before them. -/
theorem pieces_append (hab : a ≠ b) (h : ¬Has a b front) (back : List α) :
    pieces a b (front ++ a :: b :: back) = front :: pieces a b back := by
  induction front with
  | nil => exact if_pos ⟨rfl, rfl⟩
  | cons x front ih =>
      have hrest := ih fun hh => h hh.cons
      cases front with
      | nil =>
          rw [List.nil_append] at hrest
          rw [List.singleton_append, pieces, if_neg fun hx => hab hx.2, hrest]
          rfl
      | cons y front =>
          rw [List.cons_append] at hrest
          rw [List.cons_append, List.cons_append, pieces,
            if_neg fun hx => h (has_cons_cons.mpr (Or.inl hx)), hrest]
          rfl

/-- The first piece and the others, with the text that they were made from. -/
theorem pieces_spec (text : List α) :
    ∃ first rest, pieces a b text = first :: rest ∧ ¬Has a b first ∧
      (rest = [] ∧ text = first ∨
        ∃ back, text = first ++ a :: b :: back ∧ rest = pieces a b back) := by
  induction text with
  | nil => exact ⟨[], [], rfl, not_has_nil, Or.inl ⟨rfl, rfl⟩⟩
  | cons x text ih =>
      cases text with
      | nil => exact ⟨[x], [], rfl, not_has_singleton, Or.inl ⟨rfl, rfl⟩⟩
      | cons y text =>
          by_cases hpair : x = a ∧ y = b
          · obtain ⟨rfl, rfl⟩ := hpair
            exact ⟨[], pieces x y text, if_pos ⟨rfl, rfl⟩, not_has_nil,
              Or.inr ⟨text, rfl, rfl⟩⟩
          · obtain ⟨first, rest, hpieces, hnot, hrest⟩ := ih
            have hcons : pieces a b (x :: y :: text) = (x :: first) :: rest := by
              rw [pieces, if_neg hpair, hpieces]
              rfl
            have hstart : first <+: y :: text := by
              rcases hrest with ⟨-, h⟩ | ⟨back, h, -⟩
              · subst h
                exact List.prefix_rfl
              · rw [h]
                exact List.prefix_append _ _
            refine ⟨x :: first, rest, hcons, not_has_cons hpair hstart hnot, ?_⟩
            rcases hrest with ⟨rfl, h⟩ | ⟨back, h, rfl⟩
            · exact Or.inl ⟨rfl, by rw [h]⟩
            · exact Or.inr ⟨back, by rw [h, List.cons_append], rfl⟩

/-- A text of lines, each with the pair behind it. -/
theorem lines_iff (hab : a ≠ b) {lines : List (List α)} :
    pieces a b text = lines ++ [[]] ↔
      text = (lines.flatMap fun line => line ++ [a, b]) ∧ ∀ line ∈ lines, ¬Has a b line := by
  induction lines generalizing text with
  | nil =>
      rw [List.nil_append, List.flatMap_nil]
      constructor
      · intro h
        obtain ⟨first, rest, hpieces, -, hrest⟩ := pieces_spec (a := a) (b := b) text
        rw [h] at hpieces
        obtain ⟨rfl, rfl⟩ := List.cons.inj hpieces
        rcases hrest with ⟨-, rfl⟩ | ⟨back, -, hback⟩
        · exact ⟨rfl, nofun⟩
        · obtain ⟨_, _, hne, -⟩ := pieces_spec (a := a) (b := b) back
          exact absurd (hback.trans hne) (List.cons_ne_nil _ _).symm
      · rintro ⟨rfl, -⟩
        rfl
  | cons line lines ih =>
      rw [List.flatMap_cons, List.forall_mem_cons, List.append_assoc]
      constructor
      · intro h
        obtain ⟨first, rest, hpieces, hnot, hrest⟩ := pieces_spec (a := a) (b := b) text
        rw [h, List.cons_append] at hpieces
        obtain ⟨rfl, rfl⟩ := List.cons.inj hpieces
        rcases hrest with ⟨hnil, -⟩ | ⟨back, rfl, hback⟩
        · exact absurd hnil (by simp)
        · obtain ⟨rfl, hlines⟩ := ih.mp hback.symm
          exact ⟨rfl, hnot, hlines⟩
      · rintro ⟨rfl, hnot, hlines⟩
        have hrest := ih.mpr ⟨rfl, hlines⟩
        have hsplit := pieces_append hab hnot (lines.flatMap fun line => line ++ [a, b])
        rw [hrest] at hsplit
        exact hsplit

end Pieces

section Cut

variable {a b} {text front back : List α}

theorem isSome_cut : (cut a b text).isSome = true ↔ Has a b text := by
  induction text with
  | nil => exact iff_of_false Bool.false_ne_true not_has_nil
  | cons x text ih =>
      cases text with
      | nil => exact iff_of_false Bool.false_ne_true not_has_singleton
      | cons y text =>
          rw [cut, has_cons_cons]
          by_cases hpair : x = a ∧ y = b
          · rw [if_pos hpair]
            exact iff_of_true rfl (Or.inl hpair)
          · rw [if_neg hpair, Option.isSome_map, ih, or_iff_right hpair]

instance (text : List α) : Decidable (Has a b text) := decidable_of_iff _ isSome_cut

theorem cut_append (hab : a ≠ b) (h : ¬Has a b front) (back : List α) :
    cut a b (front ++ a :: b :: back) = some (front, back) := by
  induction front with
  | nil => exact if_pos ⟨rfl, rfl⟩
  | cons x front ih =>
      have hrest := ih fun hh => h hh.cons
      cases front with
      | nil =>
          rw [List.nil_append] at hrest
          rw [List.singleton_append, cut, if_neg fun hx => hab hx.2, hrest]
          rfl
      | cons y front =>
          rw [List.cons_append] at hrest
          rw [List.cons_append, List.cons_append, cut,
            if_neg fun hx => h (has_cons_cons.mpr (Or.inl hx)), hrest]
          rfl

theorem cut_some (h : cut a b text = some (front, back)) :
    text = front ++ a :: b :: back ∧ ¬Has a b front := by
  induction text generalizing front with
  | nil => cases h
  | cons x text ih =>
      cases text with
      | nil => cases h
      | cons y text =>
          rw [cut] at h
          by_cases hpair : x = a ∧ y = b
          · obtain ⟨rfl, rfl⟩ := hpair
            rw [if_pos ⟨rfl, rfl⟩] at h
            cases h
            exact ⟨rfl, not_has_nil⟩
          · rw [if_neg hpair] at h
            obtain ⟨⟨first, rest⟩, hcut, hparts⟩ := Option.map_eq_some_iff.mp h
            obtain ⟨rfl, rfl⟩ := Prod.mk.inj hparts
            obtain ⟨htext, hnot⟩ := ih hcut
            have hstart : first <+: y :: text := by
              rw [htext]
              exact List.prefix_append _ _
            exact ⟨by rw [htext, List.cons_append], not_has_cons hpair hstart hnot⟩

theorem cut_iff (hab : a ≠ b) :
    cut a b text = some (front, back) ↔ text = front ++ a :: b :: back ∧ ¬Has a b front := by
  constructor
  · exact cut_some
  · rintro ⟨rfl, h⟩
    exact cut_append hab h back

end Cut

end LivekitServer.Separators
