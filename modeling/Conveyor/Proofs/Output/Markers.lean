import Conveyor.Output.Marker
import Mathlib.Data.List.Infix

/-!
# Conveyor.Proofs.Output.Markers

What a command publishes by printing it.

* `Text.infix_of_mem_lines` — a line is a part of its text.
* `Marker.line_of_ofLine`   — how a line is made up that publishes something.
* `Marker.part_of_collect`  — the keys and the values are parts of the text they were read from.
-/

namespace Conveyor

theorem Dict.mem_of_mem_foldl_insert {α : Type} {e : String × α} :
    ∀ {l : List (String × α)} {d : Dict α},
      e ∈ (l.foldl (fun d (k, v) => d.insert k v) d).entries → e ∈ d.entries ∨ e ∈ l := by
  intro l
  induction l with
  | nil => exact .inl
  | cons x rest ih =>
    intro d h
    rcases ih h with h | h
    · rcases mem_insertEntry h with rfl | h
      · exact .inr List.mem_cons_self
      · exact .inl h
    · exact .inr (List.mem_cons_of_mem x h)

theorem Dict.mem_of_mem_ofList {α : Type} {l : List (String × α)} {e : String × α}
    (h : e ∈ (ofList l).entries) : e ∈ l :=
  (mem_of_mem_foldl_insert h).resolve_left List.not_mem_nil

namespace Text

theorem chompReturn_prefix_self (line : List Char) : chompReturn line <+: line := by
  unfold chompReturn
  split
  · rename_i rest hreverse
    have hline := congrArg List.reverse hreverse
    rw [List.reverse_reverse, List.reverse_cons] at hline
    exact ⟨['\r'], hline.symm⟩
  · exact List.prefix_refl line

theorem infix_of_mem_linesFrom {line : List Char} : ∀ {s cur : List Char},
    line ∈ linesFrom cur s → line <:+: cur.reverse ++ s := by
  intro s
  induction s with
  | nil =>
    intro cur h
    rw [linesFrom] at h
    split at h
    · cases h
    · rw [List.mem_singleton.1 h, List.append_nil]
  | cons c s ih =>
    intro cur h
    by_cases hc : c = '\n'
    · subst hc
      rw [linesFrom, List.mem_cons] at h
      rcases h with rfl | h
      · exact ((chompReturn_prefix_self _).trans (List.prefix_append _ _)).isInfix
      · have hlater := ih h
        rw [List.reverse_nil, List.nil_append] at hlater
        exact (hlater.trans (List.suffix_cons _ _).isInfix).trans (List.suffix_append _ _).isInfix
    · rw [linesFrom] at h
      · have hlater := ih h
        rwa [List.reverse_cons, List.append_assoc] at hlater
      · exact hc

theorem infix_of_mem_lines {line s : String} (h : line ∈ lines s) :
    line.toList <:+: s.toList := by
  obtain ⟨part, hpart, rfl⟩ := List.mem_map.1 h
  rw [String.toList_ofList]
  exact infix_of_mem_linesFrom hpart

theorem dropReturns_prefix_self (s : String) : (dropReturns s).toList <+: s.toList := by
  rw [dropReturns, String.toList_ofList, ← List.reverse_suffix, List.reverse_reverse]
  exact List.dropWhile_suffix _

end Text

namespace Marker

theorem line_of_ofLine {line : List Char} {key value : String}
    (h : ofLine line = some (key, value)) :
    line = opening ++ (key.toList ++ ':' :: ':' :: value.toList) := by
  rw [ofLine] at h
  split at h
  · cases h
  · rename_i rest hopening
    dsimp only at h
    split at h
    · cases h
    · rename_i value' hrest _
      cases h
      rw [String.toList_ofList, String.toList_ofList, ← hrest, List.takeWhile_append_dropWhile]
      exact Text.dropPrefix_eq_some_iff.1 hopening
    · cases h

/-- What is published is printed: the keys and the values are parts of the text. -/
theorem part_of_collect {text : String} {e : String × String} (h : e ∈ (collect text).entries) :
    e.1.toList <:+: text.toList ∧ e.2.toList <:+: text.toList := by
  obtain ⟨line, hline, hmarker⟩ := List.mem_filterMap.1 (Dict.mem_of_mem_ofList h)
  have hpart : (Text.dropReturns line).toList <:+: text.toList :=
    (Text.dropReturns_prefix_self line).isInfix.trans (Text.infix_of_mem_lines hline)
  rw [line_of_ofLine hmarker] at hpart
  have hkey : e.1.toList <:+: opening ++ (e.1.toList ++ ':' :: ':' :: e.2.toList) :=
    ⟨opening, ':' :: ':' :: e.2.toList, by simp⟩
  have hvalue : e.2.toList <:+: opening ++ (e.1.toList ++ ':' :: ':' :: e.2.toList) :=
    ⟨opening ++ (e.1.toList ++ [':', ':']), [], by simp⟩
  exact ⟨hkey.trans hpart, hvalue.trans hpart⟩

end Marker
end Conveyor
