/-!
# Conveyor.Dict

Dictionaries keyed by text, kept sorted by key. The order of the entries is a property of the
type, so two dictionaries with the same entries are equal, and every listing is sorted.

* `Dict α`       — entries with strictly ascending keys.
* `Dict.insert`  — the entry of a key is set or replaced.
* `Dict.get?`    — the value of a key.
* `Dict.erase`   — without the entry of a key.
* `Dict.union`   — the right-hand entries win.
-/

namespace Conveyor

/-- Entries in strictly ascending order of their keys. -/
def SortedKeys {α : Type} (entries : List (String × α)) : Prop :=
  entries.Pairwise fun a b => a.1 < b.1

@[ext]
structure Dict (α : Type) where
  entries : List (String × α)
  sorted : SortedKeys entries

namespace Dict

variable {α β : Type}

instance [BEq α] : BEq (Dict α) := ⟨fun a b => a.entries == b.entries⟩
instance [DecidableEq α] : DecidableEq (Dict α) := fun a b =>
  decidable_of_iff (a.entries = b.entries) (Dict.ext_iff).symm
instance [Repr α] : Repr (Dict α) := ⟨fun d n => reprPrec d.entries n⟩

def empty : Dict α := ⟨[], List.Pairwise.nil⟩

instance : EmptyCollection (Dict α) := ⟨empty⟩
instance : Inhabited (Dict α) := ⟨empty⟩

def toList (d : Dict α) : List (String × α) := d.entries

def keys (d : Dict α) : List String := d.entries.map (·.1)

def values (d : Dict α) : List α := d.entries.map (·.2)

def isEmpty (d : Dict α) : Bool := d.entries.isEmpty

def size (d : Dict α) : Nat := d.entries.length

def filterKeys (d : Dict α) (p : String → Bool) : Dict α :=
  ⟨d.entries.filter fun e => p e.1, d.sorted.filter _⟩

def erase (d : Dict α) (k : String) : Dict α :=
  ⟨d.entries.filter fun e => e.1 ≠ k, d.sorted.filter _⟩

def get? (d : Dict α) (k : String) : Option α := d.entries.lookup k

def contains (d : Dict α) (k : String) : Bool := (d.get? k).isSome

def insertEntry (k : String) (v : α) : List (String × α) → List (String × α)
  | [] => [(k, v)]
  | (k', v') :: rest =>
    if k < k' then (k, v) :: (k', v') :: rest
    else if k = k' then (k, v) :: rest
    else (k', v') :: insertEntry k v rest

theorem mem_insertEntry {k : String} {v : α} {l : List (String × α)} {e : String × α}
    (h : e ∈ insertEntry k v l) : e = (k, v) ∨ e ∈ l := by
  induction l with
  | nil => simpa [insertEntry] using h
  | cons x rest ih =>
    obtain ⟨k', v'⟩ := x
    unfold insertEntry at h
    split at h
    · simpa using h
    · split at h
      · rcases List.mem_cons.1 h with h | h
        · exact .inl h
        · exact .inr (List.mem_cons_of_mem _ h)
      · rcases List.mem_cons.1 h with h | h
        · exact .inr (h ▸ List.mem_cons_self)
        · exact (ih h).imp id (List.mem_cons_of_mem _)

theorem lt_of_not_lt_of_ne {a b : String} (h : ¬ a < b) (hne : a ≠ b) : b < a := by
  have hle : b ≤ a := String.not_lt.1 h
  exact Std.lt_of_le_of_ne hle (Ne.symm hne)

theorem sortedKeys_insertEntry {k : String} {v : α} {l : List (String × α)}
    (h : SortedKeys l) : SortedKeys (insertEntry k v l) := by
  induction l with
  | nil => simp [insertEntry, SortedKeys]
  | cons x rest ih =>
    obtain ⟨k', v'⟩ := x
    obtain ⟨hx, hrest⟩ := List.pairwise_cons.1 h
    unfold insertEntry
    split
    · rename_i hk
      refine List.pairwise_cons.2 ⟨?_, h⟩
      intro e he
      rcases List.mem_cons.1 he with rfl | he
      · exact hk
      · exact String.lt_trans hk (hx e he)
    · rename_i hk
      split
      · rename_i heq
        subst heq
        exact List.pairwise_cons.2 ⟨hx, hrest⟩
      · rename_i hne
        refine List.pairwise_cons.2 ⟨?_, ih hrest⟩
        intro e he
        rcases mem_insertEntry he with rfl | he
        · exact lt_of_not_lt_of_ne hk hne
        · exact hx e he

def insert (d : Dict α) (k : String) (v : α) : Dict α :=
  ⟨insertEntry k v d.entries, sortedKeys_insertEntry d.sorted⟩

/-- The entries of a list; of two with one key the later wins. -/
def ofList (l : List (String × α)) : Dict α := l.foldl (fun d (k, v) => d.insert k v) empty

/-- The entries of both; where a key is in both, `e` wins. -/
def union (d e : Dict α) : Dict α := e.entries.foldl (fun d (k, v) => d.insert k v) d

def filter (p : String → α → Bool) (d : Dict α) : Dict α :=
  ⟨d.entries.filter fun (k, v) => p k v, d.sorted.sublist List.filter_sublist⟩

theorem lookup_insertEntry (k : String) (v : α) (l : List (String × α)) (x : String) :
    (insertEntry k v l).lookup x = if x = k then some v else l.lookup x := by
  induction l with
  | nil =>
    by_cases h : x = k
    · simp [insertEntry, h]
    · have : (x == k) = false := by simp [h]
      simp [insertEntry, List.lookup_cons, this, h]
  | cons e rest ih =>
    obtain ⟨k', v'⟩ := e
    unfold insertEntry
    split
    · by_cases h : x = k
      · simp [h]
      · have : (x == k) = false := by simp [h]
        simp [List.lookup_cons, this, h]
    · split
      · rename_i heq
        subst heq
        by_cases h : x = k
        · simp [h]
        · have : (x == k) = false := by simp [h]
          simp [List.lookup_cons, this, h]
      · rename_i hne
        by_cases h' : x = k'
        · subst h'
          have : x ≠ k := fun h => hne h.symm
          simp [this]
        · have : (x == k') = false := by simp [h']
          simp [List.lookup_cons, this, ih]

@[simp] theorem get?_empty (k : String) : (empty : Dict α).get? k = none := rfl

theorem get?_insert (d : Dict α) (k : String) (v : α) (x : String) :
    (d.insert k v).get? x = if x = k then some v else d.get? x :=
  lookup_insertEntry k v d.entries x

theorem lookup_eq_none_of_lt {k : String} {l : List (String × α)} (h : ∀ e ∈ l, k < e.1) :
    l.lookup k = none := by
  induction l with
  | nil => rfl
  | cons e rest ih =>
    have hne : (k == e.1) = false := by
      have := h e List.mem_cons_self
      simp [Std.ne_of_lt this]
    rw [List.lookup_cons, hne]
    exact ih fun e' he => h e' (List.mem_cons_of_mem _ he)

theorem lookup_filter (p : String → α → Bool) {l : List (String × α)} (h : SortedKeys l)
    (k : String) : (l.filter fun e => p e.1 e.2).lookup k = (l.lookup k).filter (p k) := by
  induction l with
  | nil => rfl
  | cons e rest ih =>
    obtain ⟨k', v⟩ := e
    obtain ⟨hlt, hrest⟩ := List.pairwise_cons.1 h
    by_cases hk : k = k'
    · subst hk
      have hnone : rest.lookup k = none := lookup_eq_none_of_lt hlt
      by_cases hp : p k v = true
      · simp [hp, Option.filter]
      · simp [hp, Option.filter, ih hrest, hnone]
    · have hne : (k == k') = false := by simp [hk]
      by_cases hp : p k' v = true
      · simp [hp, List.lookup_cons, hne, ih hrest]
      · simp [hp, List.lookup_cons, hne, ih hrest]

theorem get?_filter (d : Dict α) (p : String → α → Bool) (k : String) :
    (d.filter p).get? k = (d.get? k).filter (p k) :=
  lookup_filter p d.sorted k

/-- Of entries that are inserted one after the other, the last one for a key stays. -/
theorem get?_foldl_insert (l : List (String × α)) (d : Dict α) (k : String) :
    (l.foldl (fun d (k, v) => d.insert k v) d).get? k = (l.reverse.lookup k <|> d.get? k) := by
  induction l generalizing d with
  | nil => rfl
  | cons e rest ih =>
    obtain ⟨k', v⟩ := e
    rw [List.foldl_cons, ih, get?_insert, List.reverse_cons, List.lookup_append]
    by_cases hk : k = k'
    · cases rest.reverse.lookup k <;> simp [hk]
    · have hne : (k == k') = false := by simpa using hk
      cases rest.reverse.lookup k <;> simp [List.lookup_cons, hk, hne]

theorem lookup_reverse {l : List (String × α)} (h : SortedKeys l) (k : String) :
    l.reverse.lookup k = l.lookup k := by
  induction l with
  | nil => rfl
  | cons e rest ih =>
    obtain ⟨k', v⟩ := e
    obtain ⟨hlt, hrest⟩ := List.pairwise_cons.1 h
    rw [List.reverse_cons, List.lookup_append, ih hrest]
    by_cases hk : k = k'
    · subst hk
      simp [lookup_eq_none_of_lt hlt]
    · have hne : (k == k') = false := by simp [hk]
      simp [List.lookup_cons, hne]

theorem get?_union (d e : Dict α) (k : String) :
    (d.union e).get? k = (e.get? k <|> d.get? k) := by
  rw [union, get?_foldl_insert, lookup_reverse e.sorted]
  rfl

theorem insertEntry_of_last {k : String} {l : List (String × α)} (h : ∀ e ∈ l, e.1 < k) (v : α) :
    insertEntry k v l = l ++ [(k, v)] := by
  induction l with
  | nil => rfl
  | cons e rest ih =>
    obtain ⟨hk, hrest⟩ := List.forall_mem_cons.1 h
    rw [insertEntry, if_neg (String.lt_asymm hk), if_neg (String.ne_of_lt hk).symm, ih hrest]
    rfl

/-- Entries that are sorted are left as they are. -/
theorem entries_ofList {l : List (String × α)} (h : SortedKeys l) : (ofList l).entries = l := by
  have hfold : ∀ (l : List (String × α)) (d : Dict α), SortedKeys (d.entries ++ l) →
      (l.foldl (fun d (k, v) => d.insert k v) d).entries = d.entries ++ l := by
    intro l
    induction l with
    | nil =>
      intro d _
      exact (List.append_nil _).symm
    | cons e rest ih =>
      intro d hsorted
      have hlast : ∀ x ∈ d.entries, x.1 < e.1 := fun x hx =>
        (List.pairwise_append.1 hsorted).2.2 x hx e List.mem_cons_self
      have hinsert : (d.insert e.1 e.2).entries = d.entries ++ [e] :=
        insertEntry_of_last hlast e.2
      have hall : d.entries ++ e :: rest = (d.insert e.1 e.2).entries ++ rest := by
        rw [hinsert, List.append_assoc, List.singleton_append]
      rw [hall] at hsorted ⊢
      exact ih _ hsorted
  exact hfold l empty h

theorem get?_ofList {l : List (String × α)} (h : SortedKeys l) (k : String) :
    (ofList l).get? k = l.lookup k := by
  rw [get?, entries_ofList h]

theorem ofList_entries (d : Dict α) : ofList d.entries = d := Dict.ext (entries_ofList d.sorted)

theorem mem_iff_lookup {l : List (String × α)} (h : SortedKeys l) (k : String) (v : α) :
    (k, v) ∈ l ↔ l.lookup k = some v := by
  induction l with
  | nil => simp
  | cons e rest ih =>
    obtain ⟨k', v'⟩ := e
    obtain ⟨hlt, hrest⟩ := List.pairwise_cons.1 h
    by_cases hk : k = k'
    · subst hk
      have hnot : (k, v) ∉ rest := by
        rw [ih hrest, lookup_eq_none_of_lt hlt]
        simp
      simp [hnot, eq_comm]
    · have hne : (k == k') = false := by simp [hk]
      simp [List.lookup_cons, hne, hk, ih hrest]

theorem mem_entries {d : Dict α} {k : String} {v : α} :
    (k, v) ∈ d.entries ↔ d.get? k = some v :=
  mem_iff_lookup d.sorted k v

/-- The value of a key is that of its last entry. -/
theorem get?_ofList_iff {l : List (String × α)} {k : String} {v : α} :
    (ofList l).get? k = some v ↔
      ∃ before after, l = before ++ (k, v) :: after ∧ ∀ w, (k, w) ∉ after := by
  have hlast : (ofList l).get? k = l.reverse.lookup k := by
    rw [ofList, get?_foldl_insert, get?_empty]
    simp
  rw [hlast, List.lookup_eq_some_iff]
  constructor
  · rintro ⟨after, before, hsplit, hafter⟩
    refine ⟨before.reverse, after.reverse, ?_, ?_⟩
    · rw [← List.reverse_reverse l, hsplit]
      simp
    · intro w hw
      simpa using hafter (k, w) (List.mem_reverse.1 hw)
  · rintro ⟨before, after, rfl, hafter⟩
    refine ⟨after.reverse, before.reverse, by simp, ?_⟩
    rintro ⟨k', w⟩ hw
    have hne : k ≠ k' := by
      rintro rfl
      exact hafter w (List.mem_reverse.1 hw)
    simpa using hne

theorem nodup_entries (d : Dict α) : d.entries.Nodup := by
  refine d.sorted.imp ?_
  rintro a b hlt rfl
  exact String.lt_irrefl _ hlt

/-- Entries with different keys make a dictionary in any order. -/
theorem ofList_of_perm {l : List (String × α)} {d : Dict α} (h : l.Perm d.entries) :
    ofList l = d := by
  have hvalue (k : String) (v : α) : (ofList l).get? k = some v ↔ d.get? k = some v := by
    rw [get?_ofList_iff, ← mem_entries]
    constructor
    · rintro ⟨before, after, rfl, _⟩
      exact h.mem_iff.1 (List.mem_append_right before List.mem_cons_self)
    · intro hv
      obtain ⟨before, after, hsplit⟩ := List.append_of_mem (h.mem_iff.2 hv)
      refine ⟨before, after, hsplit, ?_⟩
      intro w hw
      have hmem : (k, w) ∈ d.entries := h.mem_iff.1 (hsplit ▸ by simp [hw])
      have hsame : some w = some v := (mem_entries.1 hmem).symm.trans (mem_entries.1 hv)
      have hnodup : l.Nodup := h.nodup_iff.2 d.nodup_entries
      rw [hsplit] at hnodup
      cases hsame
      exact (List.nodup_cons.1 (List.nodup_append.1 hnodup).2.1).1 hw
  have hperm : (ofList l).entries.Perm d.entries := by
    refine (List.perm_ext_iff_of_nodup (nodup_entries _) (nodup_entries _)).2 ?_
    rintro ⟨k, v⟩
    rw [mem_entries, mem_entries, hvalue]
  refine Dict.ext (hperm.eq_of_pairwise ?_ (ofList l).sorted d.sorted)
  intro a b _ _ hab hba
  exact absurd hba (String.lt_asymm hab)

/-- The keys of entries decide whether they are sorted. -/
theorem sortedKeys_of_keys {l : List (String × α)} {m : List (String × β)}
    (hkeys : m.map (·.1) = l.map (·.1)) (h : SortedKeys l) : SortedKeys m := by
  have hl : (l.map (·.1)).Pairwise (· < ·) := List.pairwise_map.2 h
  rw [← hkeys] at hl
  exact List.pairwise_map.1 hl

theorem size_eq_zero_of_get? {d : Dict α} (h : ∀ k, d.get? k = none) : d.size = 0 := by
  obtain ⟨entries, sorted⟩ := d
  cases entries with
  | nil => rfl
  | cons e rest =>
    have := h e.1
    simp [get?] at this

end Dict
end Conveyor
