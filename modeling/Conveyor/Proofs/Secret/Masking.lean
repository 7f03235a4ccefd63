import Conveyor.Shell.Ending
import Conveyor.Proofs.Output.Markers
import Conveyor.Proofs.Text.Replacement

/-!
# Conveyor.Proofs.Secret.Masking

What can be found of the secrets of a stage in what its command has printed.

The values are hidden one after the other, and each replacement changes the text that the later
ones see. Nothing that was hidden comes back in this way: a value without a star shares no place
with the stars that are put in, so whatever is found of it in the new text was in the old one.

* `Lease.Hides`                 — no value of a lease is in a text.
* `not_infix_maskValue`         — a value that was hidden is not in the text.
* `infix_of_infix_maskValues`   — the later ones bring no value back.
* `secrets_stay_hidden`         — no value is in a masked text, nor in anything that is collected
                                  of a command.
-/

namespace Conveyor
namespace Lease

variable {v w : String} {text : List Char} {values : List String} {l : Lease}

/-- No value of the lease is in the text. An empty value is in every text and is no secret. -/
def Hides (l : Lease) (text : String) : Prop :=
  ∀ s ∈ l.secrets, s.2 ≠ "" → ¬ s.2.toList <:+: text.toList

theorem Hides.part {part text : String} (h : l.Hides text) (hpart : part.toList <:+: text.toList) :
    l.Hides part :=
  fun s hs hvalue hinside => h s hs hvalue (hinside.trans hpart)

/-! ## One value -/

theorem maskText_ne_nil : maskText ≠ [] := by decide

theorem eq_star_of_mem {c : Char} (h : c ∈ maskText) : c = '*' := by
  simpa [maskText] using h

theorem not_overlap_maskText (h : '*' ∉ v.toList) : ¬ Text.Overlap v.toList maskText :=
  Text.not_overlap_of_disjoint fun _ hv hmask => h (eq_star_of_mem hmask ▸ hv)

theorem toList_ne_nil (h : v ≠ "") : v.toList ≠ [] :=
  mt String.toList_eq_nil_iff.1 h

theorem maskValue_empty (text : List Char) : maskValue text "" = text := rfl

theorem maskValue_eq (h : v ≠ "") (text : List Char) :
    maskValue text v = Text.replaceAll v.toList maskText text := by
  rw [maskValue, if_neg (by simpa using h)]

theorem not_infix_maskValue (hv : v ≠ "") (h : ¬ Text.Overlap v.toList maskText)
    (text : List Char) : ¬ v.toList <:+: maskValue text v := by
  rw [maskValue_eq hv]
  exact Text.not_infix_replaceAll (toList_ne_nil hv) maskText_ne_nil h text

theorem infix_of_infix_maskValue (hw : w ≠ "") (h : ¬ Text.Overlap w.toList maskText)
    (hinside : w.toList <:+: maskValue text v) : w.toList <:+: text := by
  by_cases hv : v = ""
  · subst hv
    exact hinside
  · rw [maskValue_eq hv] at hinside
    exact Text.infix_of_infix_replaceAll (toList_ne_nil hv) maskText_ne_nil (toList_ne_nil hw) h
      hinside

/-! ## All values -/

theorem toList_mask (l : Lease) (text : String) :
    (l.mask text).toList = (l.secrets.map (·.2)).foldl maskValue text.toList :=
  String.toList_ofList

theorem infix_of_infix_maskValues (hw : w ≠ "") (h : ¬ Text.Overlap w.toList maskText)
    (hinside : w.toList <:+: values.foldl maskValue text) : w.toList <:+: text := by
  induction values generalizing text with
  | nil => exact hinside
  | cons v rest ih => exact infix_of_infix_maskValue hw h (ih hinside)

/-- Each value is gone after its turn, and does not come back. -/
theorem not_infix_maskValues (hv : v ≠ "") (h : ¬ Text.Overlap v.toList maskText)
    (hmem : v ∈ values) : ¬ v.toList <:+: values.foldl maskValue text := by
  induction values generalizing text with
  | nil => cases hmem
  | cons w rest ih =>
    rcases List.mem_cons.1 hmem with rfl | hmem
    · exact fun hinside => not_infix_maskValue hv h text (infix_of_infix_maskValues hv h hinside)
    · exact ih hmem

theorem hides_mask (h : ∀ s ∈ l.secrets, '*' ∉ s.2.toList) (text : String) :
    l.Hides (l.mask text) := by
  intro s hs hvalue
  rw [toList_mask]
  exact not_infix_maskValues hvalue (not_overlap_maskText (h s hs)) (List.mem_map_of_mem hs)

/-- If no value of a lease has a star in it, no value is in any text that was masked, however many
there are and however they overlap each other and themselves. So none is in what is collected of
a command that held the lease: not in its two streams, and not in a key or a value that it
published. -/
theorem secrets_stay_hidden (h : ∀ s ∈ l.secrets, '*' ∉ s.2.toList) :
    (∀ text, l.Hides (l.mask text)) ∧
    ∀ (ending : Shell.Ending) (r : CommandRequest), r.secrets = l →
      l.Hides (ending.outputOf r).stdout ∧ l.Hides (ending.outputOf r).stderr ∧
        ∀ e ∈ (ending.outputOf r).outputs.entries, l.Hides e.1 ∧ l.Hides e.2 := by
  refine ⟨hides_mask h, ?_⟩
  rintro ending r rfl
  have hstdout : r.secrets.Hides (ending.outputOf r).stdout := hides_mask h _
  refine ⟨hstdout, hides_mask h _, fun e he => ?_⟩
  obtain ⟨hkey, hvalue⟩ := Marker.part_of_collect he
  exact ⟨hstdout.part hkey, hstdout.part hvalue⟩

/-- Values that overlap each other and themselves, one of them in the other two. -/
theorem secrets_stay_hidden_overlapping :
    let l : Lease := ⟨"deploy", [("A", "aba"), ("B", "bab"), ("C", "ab"), ("D", "")]⟩
    (∀ s ∈ l.secrets, '*' ∉ s.2.toList) ∧
    l.mask "v=babab ababab" = "v=b***b ******" ∧ l.Hides "v=b***b ******" := by
  intro l
  have hstar : ∀ s ∈ l.secrets, '*' ∉ s.2.toList := by decide
  have hmask : l.mask "v=babab ababab" = "v=b***b ******" := by decide
  exact ⟨hstar, hmask, hmask ▸ (secrets_stay_hidden hstar).1 _⟩

end Lease
end Conveyor
