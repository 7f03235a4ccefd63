import Conveyor.Proofs.Graph.Queries
import Conveyor.Proofs.Pipeline.Validity

/-!
# Conveyor.Proofs.Graph.Drawing

What all drawings of a graph rely on: the names of valid stages have no character that ends a
name or a line in a drawing.

* `NameChar`                — the characters of valid names.
* `nameChar_of_ensureValid` — the graph of a valid definition has no others in its names.
-/

namespace Conveyor

/-- A letter, a digit, an underscore or a dash. -/
def NameChar (c : Char) : Prop := IsLetter c ∨ IsDigit c ∨ c = '_' ∨ c = '-'

theorem nameChar_of_named {n : String} (h : StageNamed n) : ∀ c ∈ n.toList, NameChar c := by
  obtain ⟨c, cs, hn, hc, hcs⟩ := h
  rw [hn]
  refine List.forall_mem_cons.2 ⟨?_, hcs⟩
  rcases hc with hletter | hdigit | hunder
  · exact .inl hletter
  · exact .inr (.inl hdigit)
  · exact .inr (.inr (.inl hunder))

/-- Characters that end a name or a line. -/
theorem NameChar.free : ∀ c ∈ ['\n', '\r', ' ', '[', '"'], ¬ NameChar c := by
  simp [NameChar, IsLetter, IsDigit]

theorem all_tidy_of_nameChar {cs : List Char} (h : ∀ c ∈ cs, NameChar c) :
    cs.all (fun c => c ≠ '\n' ∧ c ≠ '\r') = true := by
  refine List.all_eq_true.2 fun c hc => decide_eq_true ⟨?_, ?_⟩
  · rintro rfl
    exact NameChar.free _ (by decide) (h _ hc)
  · rintro rfl
    exact NameChar.free _ (by decide) (h _ hc)

theorem Graph.nameChar_of_ensureValid {g : Graph} {p : Pipeline} (h : p.ensureValid = .ok g) :
    g.Describes p.stages ∧ ∀ n ∈ g.names, ∀ c ∈ n.toList, NameChar c := by
  obtain ⟨hg, _⟩ := describes_of_ofStages (graph_of_ensureValid h)
  refine ⟨hg, ?_⟩
  rw [hg.names]
  refine List.forall_mem_map.2 fun s hs => ?_
  exact nameChar_of_named ((Pipeline.valid_of_ensureValid h).each s hs).name

end Conveyor
