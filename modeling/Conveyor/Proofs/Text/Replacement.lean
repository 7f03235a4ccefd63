import Conveyor.Text.Search
import Mathlib.Data.List.Infix

/-!
# Conveyor.Proofs.Text.Replacement

Replacing the occurrences of a pattern in a text.

The occurrences are taken from the left, so a text is read in one of three ways: it is empty, it
starts with the pattern, or its first character stays and the rest is read. Whether anything new
arises from a replacement is a question of overlaps only: a word that can share no place with what
is put in occurs after it only where it occurred before, and two patterns that share no place with
each other and with what is put in can be replaced in either order.

* `replaceAll_induction`          — the three ways in which a text is read.
* `Overlap`                       — two words can occur in one text with a place in common.
* `prefix_of_prefix_replaceAll`   — where a word at the front of the new text comes from.
* `infix_of_infix_replaceAll`     — a word in the new text was in the old one.
* `not_infix_replaceAll`          — the pattern is not in the new text.
* `replaceAll_comm`               — replacements that do not touch each other commute.
-/

namespace Conveyor
namespace Text

variable {pat new u v w s : List Char} {c : Char}

theorem isSome_dropPrefix_iff : (dropPrefix pat s).isSome = true ↔ pat <+: s := by
  rw [Option.isSome_iff_exists]
  exact exists_congr fun rest => dropPrefix_eq_some_iff.trans eq_comm

/-! ## The three ways -/

theorem replaceFrom_append (u s : List Char) :
    replaceFrom pat new u.length (u ++ s) = replaceFrom pat new 0 s := by
  induction u with
  | nil => rfl
  | cons c u ih => exact ih

theorem replaceAll_nil : replaceAll pat new [] = [] := rfl

theorem replaceAll_here (hpat : pat ≠ []) (s : List Char) :
    replaceAll pat new (pat ++ s) = new ++ replaceAll pat new s := by
  cases pat with
  | nil => exact absurd rfl hpat
  | cons c pat =>
    have hstart : (dropPrefix (c :: pat) (c :: (pat ++ s))).isSome = true :=
      isSome_dropPrefix_iff.2 (List.prefix_append (c :: pat) s)
    rw [replaceAll, List.cons_append, replaceFrom, if_pos hstart]
    exact congrArg (new ++ ·) (replaceFrom_append pat s)

theorem replaceAll_pass (h : ¬ pat <+: c :: s) :
    replaceAll pat new (c :: s) = c :: replaceAll pat new s := by
  rw [replaceAll, replaceFrom, if_neg (mt isSome_dropPrefix_iff.1 h)]
  rfl

/-- A text is read in one of three ways: nothing is left, the pattern is next, or its first
character stays. -/
@[elab_as_elim]
theorem replaceAll_induction {motive : List Char → Prop} (hpat : pat ≠ []) (nil : motive [])
    (here : ∀ s, motive s → motive (pat ++ s))
    (pass : ∀ c s, ¬ pat <+: c :: s → motive s → motive (c :: s)) (s : List Char) : motive s := by
  induction hlength : s.length using Nat.strong_induction_on generalizing s with
  | _ n ih =>
    subst hlength
    by_cases hstart : pat <+: s
    · obtain ⟨rest, rfl⟩ := hstart
      have hpos := List.length_pos_iff.2 hpat
      exact here rest (ih rest.length (by rw [List.length_append]; omega) rest rfl)
    · cases s with
      | nil => exact nil
      | cons c s => exact pass c s hstart (ih s.length (Nat.lt_succ_self _) s rfl)

/-- Either nothing is replaced, or there is a first place where the pattern is. -/
theorem replaceAll_split (hpat : pat ≠ []) (s : List Char) :
    ¬ pat <:+: s ∧ replaceAll pat new s = s ∨
      ∃ a b, s = a ++ (pat ++ b) ∧ replaceAll pat new s = a ++ (new ++ replaceAll pat new b) := by
  induction s using replaceAll_induction hpat with
  | nil => exact .inl ⟨fun h => hpat (List.eq_nil_of_infix_nil h), rfl⟩
  | here s _ => exact .inr ⟨[], s, rfl, replaceAll_here hpat s⟩
  | pass c s hstart ih =>
    rw [replaceAll_pass hstart]
    rcases ih with ⟨hnone, hsame⟩ | ⟨a, b, rfl, hsplit⟩
    · refine .inl ⟨fun h => ?_, by rw [hsame]⟩
      exact (List.infix_cons_iff.1 h).elim hstart hnone
    · exact .inr ⟨c :: a, b, rfl, by rw [hsplit]; rfl⟩

/-! ## Overlaps -/

/-- In some text the two occur with the place `i` in common. -/
def Overlap (v w : List Char) : Prop :=
  ∃ p r q s i, p ++ v ++ r = q ++ w ++ s ∧
    (p.length ≤ i ∧ i < p.length + v.length) ∧ (q.length ≤ i ∧ i < q.length + w.length)

theorem overlap_comm : Overlap v w ↔ Overlap w v := by
  constructor <;> exact fun ⟨p, r, q, s, i, htext, hleft, hright⟩ =>
    ⟨q, s, p, r, i, htext.symm, hright, hleft⟩

theorem Overlap.ne_nil (h : Overlap v w) : v ≠ [] := by
  rintro rfl
  obtain ⟨p, r, q, s, i, _, ⟨hp, hpv⟩, _⟩ := h
  rw [List.length_nil] at hpv
  omega

theorem reaching_of_le {p q r : List Char} (htext : p ++ v ++ r = q ++ w ++ s)
    (hle : p.length ≤ q.length) (hlt : q.length < p.length + v.length) :
    ∃ a, v ++ r = a ++ (w ++ s) ∧ a.length < v.length := by
  rw [List.append_assoc, List.append_assoc] at htext
  obtain ⟨a, rfl⟩ : p <+: q := List.prefix_of_prefix_length_le
    (htext ▸ List.prefix_append p (v ++ r)) (List.prefix_append q (w ++ s)) hle
  rw [List.append_assoc] at htext
  rw [List.length_append] at hlt
  exact ⟨a, List.append_cancel_left htext, by omega⟩

/-- Of two words that overlap, one starts first and reaches to where the other one starts. -/
theorem Overlap.reaching (h : Overlap v w) :
    (∃ a r s, v ++ r = a ++ (w ++ s) ∧ a.length < v.length) ∨
      ∃ a r s, w ++ r = a ++ (v ++ s) ∧ a.length < w.length := by
  obtain ⟨p, r, q, s, i, htext, hleft, hright⟩ := h
  rcases Nat.le_total p.length q.length with hle | hle
  · obtain ⟨a, ha⟩ := reaching_of_le htext hle (by omega)
    exact .inl ⟨a, r, s, ha⟩
  · obtain ⟨a, ha⟩ := reaching_of_le htext.symm hle (by omega)
    exact .inr ⟨a, s, r, ha⟩

/-- A copy of `v` at the front of a text reaches into a copy of `w`. -/
theorem overlap_of_reaching {q : List Char} (hw : w ≠ []) (hq : q.length < v.length)
    (h : v <+: q ++ (w ++ s)) : Overlap v w := by
  obtain ⟨r, htext⟩ := h
  have hpos := List.length_pos_iff.2 hw
  have hstart : ([] : List Char).length ≤ q.length ∧
      q.length < ([] : List Char).length + v.length := by
    rw [List.length_nil]
    omega
  exact ⟨[], r, q, s, q.length, by simpa using htext, hstart, by omega⟩

theorem overlap_of_inside (hv : v ≠ []) (h : v <:+: w) : Overlap v w := by
  obtain ⟨p, r, rfl⟩ := h
  have hpos := List.length_pos_iff.2 hv
  have hinside : ([] : List Char).length ≤ p.length ∧
      p.length < ([] : List Char).length + (p ++ v ++ r).length := by
    simp only [List.length_append, List.length_nil]
    omega
  exact ⟨p, r, [], [], p.length, by simp, by omega, hinside⟩

theorem not_overlap_of_disjoint (h : ∀ c ∈ v, c ∉ w) : ¬ Overlap v w := by
  rintro ⟨p, r, q, s, i, htext, ⟨hp, hpv⟩, hq, hqw⟩
  have hinv : i - p.length < v.length := by omega
  have hinw : i - q.length < w.length := by omega
  have hv : (p ++ v ++ r)[i]? = some v[i - p.length] := by
    rw [List.append_assoc, List.getElem?_append_right hp, List.getElem?_append_left hinv,
      List.getElem?_eq_getElem hinv]
  have hw : (q ++ w ++ s)[i]? = some w[i - q.length] := by
    rw [List.append_assoc, List.getElem?_append_right hq, List.getElem?_append_left hinw,
      List.getElem?_eq_getElem hinw]
  have hsame : v[i - p.length] = w[i - q.length] := by
    rw [htext, hw] at hv
    exact (Option.some.inj hv).symm
  exact h _ (List.getElem_mem hinv) (hsame ▸ List.getElem_mem hinw)

/-! ## What is in the new text -/

/-- What shares no place with the pattern stays as it is. -/
theorem replaceAll_append (hpat : pat ≠ []) (h : ¬ Overlap u pat) (s : List Char) :
    replaceAll pat new (u ++ s) = u ++ replaceAll pat new s := by
  -- `p` is the part of `u` that has been read
  have hpart : ∀ q p : List Char, u = p ++ q →
      replaceAll pat new (q ++ s) = q ++ replaceAll pat new s := by
    intro q
    induction q with
    | nil =>
      intro p _
      rfl
    | cons c q ih =>
      intro p hu
      have hstart : ¬ pat <+: c :: (q ++ s) := by
        rintro ⟨rest, hrest⟩
        refine h (overlap_of_reaching hpat (show p.length < u.length from ?_)
          (⟨s, ?_⟩ : u <+: p ++ (pat ++ rest)))
        · rw [hu, List.length_append, List.length_cons]
          omega
        · rw [hrest, hu, List.append_assoc]
          rfl
      rw [List.cons_append, replaceAll_pass hstart, ih (p ++ [c]) (by simp [hu])]
      rfl
  exact hpart u [] rfl

/-- The part `u` of a word that has not been read yet, at the front of the new text. -/
theorem prefix_of_part {p : List Char} (hpat : pat ≠ []) (hnew : new ≠ [])
    (h : ¬ Overlap (p ++ u) new) (hu : u <+: replaceAll pat new s) :
    u <+: s ∧ ∀ x y, s = x ++ y → x.length < u.length → ¬ pat <+: y := by
  have hnothing (s : List Char) :
      [] <+: s ∧ ∀ x y, s = x ++ y → x.length < ([] : List Char).length → ¬ pat <+: y :=
    ⟨List.nil_prefix, fun _ _ _ hx => absurd hx (Nat.not_lt_zero _)⟩
  induction s using replaceAll_induction hpat generalizing p u with
  | nil =>
    obtain rfl := List.prefix_nil.1 hu
    exact hnothing []
  | here s ih =>
    cases u with
    | nil => exact hnothing _
    | cons d u =>
      -- what is put in would be reached by the word
      rw [replaceAll_here hpat] at hu
      have hword : p.length < (p ++ d :: u).length := by
        rw [List.length_append, List.length_cons]
        omega
      exact absurd (overlap_of_reaching hnew hword ((List.prefix_append_right_inj p).2 hu)) h
  | pass c s hstart ih =>
    cases u with
    | nil => exact hnothing _
    | cons d u =>
      rw [replaceAll_pass hstart] at hu
      obtain ⟨rfl, htail⟩ := List.cons_prefix_cons.1 hu
      obtain ⟨hs, hnone⟩ := @ih u (p ++ [d]) (by rwa [List.append_assoc]) htail
      refine ⟨List.cons_prefix_cons.2 ⟨rfl, hs⟩, fun x y hxy hx => ?_⟩
      cases x with
      | nil =>
        rw [List.nil_append] at hxy
        exact hxy ▸ hstart
      | cons e x =>
        obtain ⟨_, hxy⟩ := List.cons.inj hxy
        exact hnone x y hxy (Nat.lt_of_succ_lt_succ hx)

/-- A word at the front of the new text was at the front of the old one, and no occurrence of the
pattern started in it. -/
theorem prefix_of_prefix_replaceAll (hpat : pat ≠ []) (hnew : new ≠ []) (h : ¬ Overlap w new)
    (hw : w <+: replaceAll pat new s) :
    w <+: s ∧ ∀ x y, s = x ++ y → x.length < w.length → ¬ pat <+: y :=
  @prefix_of_part pat new w s [] hpat hnew h hw

theorem infix_of_infix_append (hw : w ≠ []) (h : ¬ Overlap w u) (hinside : w <:+: u ++ s) :
    w <:+: s := by
  obtain ⟨p, r, htext⟩ := hinside
  by_cases hp : p.length < u.length
  · have hpos := List.length_pos_iff.2 hw
    have hstart : ([] : List Char).length ≤ p.length ∧
        p.length < ([] : List Char).length + u.length := by
      rw [List.length_nil]
      omega
    exact absurd ⟨p, r, [], s, p.length, htext, by omega, hstart⟩ h
  · have hu : u <+: p := List.prefix_of_prefix_length_le (List.prefix_append u s)
      ⟨w ++ r, by rw [← htext, List.append_assoc]⟩ (by omega)
    obtain ⟨q, rfl⟩ := hu
    refine ⟨q, r, @List.append_cancel_left _ u _ _ ?_⟩
    rw [← htext]
    simp

theorem infix_of_infix_replaceAll (hpat : pat ≠ []) (hnew : new ≠ []) (hw : w ≠ [])
    (h : ¬ Overlap w new) (hinside : w <:+: replaceAll pat new s) : w <:+: s := by
  induction s using replaceAll_induction hpat with
  | nil => exact hinside
  | here s ih =>
    rw [replaceAll_here hpat] at hinside
    exact (ih (infix_of_infix_append hw h hinside)).trans (List.suffix_append pat s).isInfix
  | pass c s hstart ih =>
    rw [replaceAll_pass hstart, List.infix_cons_iff] at hinside
    rcases hinside with hfront | hlater
    · rw [← replaceAll_pass hstart] at hfront
      exact (prefix_of_prefix_replaceAll hpat hnew h hfront).1.isInfix
    · exact List.infix_cons (ih hlater)

theorem not_infix_replaceAll (hpat : pat ≠ []) (hnew : new ≠ []) (h : ¬ Overlap pat new)
    (s : List Char) : ¬ pat <:+: replaceAll pat new s := by
  intro hinside
  induction s using replaceAll_induction hpat with
  | nil => exact hpat (List.eq_nil_of_infix_nil hinside)
  | here s ih =>
    rw [replaceAll_here hpat] at hinside
    exact ih (infix_of_infix_append hpat h hinside)
  | pass c s hstart ih =>
    rw [replaceAll_pass hstart, List.infix_cons_iff] at hinside
    rcases hinside with hfront | hlater
    · rw [← replaceAll_pass hstart] at hfront
      exact hstart (prefix_of_prefix_replaceAll hpat hnew h hfront).1
    · exact ih hlater

/-! ## Two replacements -/

theorem replaceAll_comm (hv : v ≠ []) (hw : w ≠ []) (hnew : new ≠ []) (hvw : ¬ Overlap v w)
    (hvn : ¬ Overlap v new) (hwn : ¬ Overlap w new) (s : List Char) :
    replaceAll w new (replaceAll v new s) = replaceAll v new (replaceAll w new s) := by
  induction hlength : s.length using Nat.strong_induction_on generalizing s with
  | _ n ih =>
    subst hlength
    have hshorter {u rest : List Char} (hu : u ≠ []) (hs : s = u ++ rest) :
        replaceAll w new (replaceAll v new rest) = replaceAll v new (replaceAll w new rest) := by
      have hpos := List.length_pos_iff.2 hu
      exact ih rest.length (by rw [hs, List.length_append]; omega) rest rfl
    by_cases hstartv : v <+: s
    · obtain ⟨rest, rfl⟩ := hstartv
      rw [replaceAll_here hv, replaceAll_append hw (mt overlap_comm.1 hwn), hshorter hv rfl,
        replaceAll_append hw hvw, replaceAll_here hv]
    · by_cases hstartw : w <+: s
      · obtain ⟨rest, rfl⟩ := hstartw
        rw [replaceAll_here hw, replaceAll_append hv (mt overlap_comm.1 hvn), ← hshorter hw rfl,
          replaceAll_append hv (mt overlap_comm.1 hvw), replaceAll_here hw]
      · cases s with
        | nil => rfl
        | cons c rest =>
          have hpassw : ¬ w <+: c :: replaceAll v new rest := by
            rw [← replaceAll_pass hstartv]
            exact fun h => hstartw (prefix_of_prefix_replaceAll hv hnew hwn h).1
          have hpassv : ¬ v <+: c :: replaceAll w new rest := by
            rw [← replaceAll_pass hstartw]
            exact fun h => hstartv (prefix_of_prefix_replaceAll hw hnew hvn h).1
          rw [replaceAll_pass hstartv, replaceAll_pass hpassw, replaceAll_pass hstartw,
            replaceAll_pass hpassv, hshorter (List.cons_ne_nil c []) rfl]

end Text
end Conveyor
