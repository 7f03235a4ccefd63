import Conveyor.Proofs.Secret.Masking

/-!
# Conveyor.Proofs.Secret.Order

Whether it matters in which order a stage lists its secrets.

The values are hidden in the order of the list, and a value that was hidden can no longer be found
where another one reached into it. So a part of the other one stays in the text: with `token`
before `token-admin`, the text `token-admin` becomes `***-admin`. The order is of no account
exactly if no two different values can occur in one text with a place in common. Values that touch
the stars that are put in are left out here.

* `acquire_eq_ok_iff`       — when all secrets can be acquired, and what is held then.
* `maskValues_perm`         — values that are apart can be hidden in any order.
* `differ_of_inside`        — of two values of which one is inside the other, the outer one has to
                              come first.
* `differ_of_overlap`       — of two values that overlap, the first one wins.
* `order_free_iff_apart`    — the order is of no account exactly if the values are apart.
-/

namespace Conveyor
namespace Lease

open Text (Overlap)

variable {provider : SecretProvider} {stage : String} {names : List String} {l : Lease}

/-! ## Acquiring -/

/-- The value of a name; the empty one stands for a secret that is missing. -/
def valueOf (provider : SecretProvider) (n : String) : String := (provider n).getD ""

def held (provider : SecretProvider) (names : List String) : List (String × String) :=
  names.map fun n => (n, valueOf provider n)

theorem acquireFrom_ok (h : ∀ n ∈ names, ∃ v, provider n = some v) :
    acquireFrom provider stage names = .ok (held provider names) := by
  induction names with
  | nil => rfl
  | cons n rest ih =>
    obtain ⟨⟨v, hv⟩, hrest⟩ := List.forall_mem_cons.1 h
    have hheld : held provider (n :: rest) = (n, v) :: held provider rest := by
      rw [held, List.map_cons, valueOf, hv]
      rfl
    rw [acquireFrom, hv, ih hrest, hheld]
    rfl

theorem available_of_acquireFrom {secrets : List (String × String)}
    (h : acquireFrom provider stage names = .ok secrets) :
    ∀ n ∈ names, ∃ v, provider n = some v := by
  induction names generalizing secrets with
  | nil => exact List.forall_mem_nil _
  | cons n rest ih =>
    rw [acquireFrom] at h
    split at h
    · cases h
    · rename_i v hv
      cases hrest : acquireFrom provider stage rest with
      | error e =>
        rw [hrest] at h
        cases h
      | ok others => exact List.forall_mem_cons.2 ⟨⟨v, hv⟩, ih hrest⟩

theorem acquire_eq_ok_iff : acquire provider stage names = .ok l ↔
    (∀ n ∈ names, ∃ v, provider n = some v) ∧ l = ⟨stage, held provider names⟩ := by
  rw [acquire]
  constructor
  · intro h
    split at h
    · cases h
    · rename_i secrets hfrom
      have hall := available_of_acquireFrom hfrom
      rw [acquireFrom_ok hall] at hfrom
      cases hfrom
      cases h
      exact ⟨hall, rfl⟩
  · rintro ⟨hall, rfl⟩
    rw [acquireFrom_ok hall]

/-! ## Values that are apart -/

variable {v w : String} {t : List Char} {values rest : List String}

/-- The values share no place with the stars that are put in for them. -/
def Starless (values : List String) : Prop := ∀ v ∈ values, ¬ Overlap v.toList maskText

/-- No two different values share a place in any text. -/
def Apart (values : List String) : Prop :=
  ∀ v ∈ values, ∀ w ∈ values, v ≠ w → ¬ Overlap v.toList w.toList

theorem maskValue_comm (hv : ¬ Overlap v.toList maskText) (hw : ¬ Overlap w.toList maskText)
    (h : v ≠ w → ¬ Overlap v.toList w.toList) (t : List Char) :
    maskValue (maskValue t v) w = maskValue (maskValue t w) v := by
  by_cases hsame : v = w
  · rw [hsame]
  by_cases hvnil : v = ""
  · rw [hvnil, maskValue_empty, maskValue_empty]
  by_cases hwnil : w = ""
  · rw [hwnil, maskValue_empty, maskValue_empty]
  rw [maskValue_eq hvnil, maskValue_eq hwnil, maskValue_eq hwnil, maskValue_eq hvnil]
  exact Text.replaceAll_comm (toList_ne_nil hvnil) (toList_ne_nil hwnil) maskText_ne_nil
    (h hsame) hv hw t

theorem maskValues_perm {values' : List String} (hperm : values'.Perm values)
    (hstarless : Starless values) (happart : Apart values) (t : List Char) :
    values'.foldl maskValue t = values.foldl maskValue t := by
  refine (hperm.symm.foldl_eq' (fun v hv w hw t => ?_) t).symm
  exact maskValue_comm (hstarless v hv) (hstarless w hw) (happart v hv w hw) t

/-! ## Values that are not apart -/

/-- Either nothing is hidden, or there is a first place where the value is. -/
theorem maskValue_cases (t : List Char) (v : String) : maskValue t v = t ∨
    ∃ a b, t = a ++ (v.toList ++ b) ∧ maskValue t v = a ++ (maskText ++ maskValue b v) := by
  by_cases hv : v = ""
  · exact .inl (by rw [hv, maskValue_empty])
  · simp only [maskValue_eq hv]
    exact (Text.replaceAll_split (toList_ne_nil hv) t).imp And.right id

theorem not_inside_of_starless (h : Starless values) (hv : v ∈ values) (a b : List Char) :
    v.toList ≠ a ++ (maskText ++ b) := by
  intro heq
  refine h v hv (Text.overlap_comm.1 (Text.overlap_of_inside maskText_ne_nil ⟨a, b, ?_⟩))
  rw [heq, List.append_assoc]

theorem maskValues_append (h : Starless values) (t : List Char) :
    values.foldl maskValue (maskText ++ t) = maskText ++ values.foldl maskValue t := by
  induction values generalizing t with
  | nil => rfl
  | cons v rest ih =>
    obtain ⟨hv, hrest⟩ := List.forall_mem_cons.1 h
    rw [List.foldl_cons, List.foldl_cons, ← ih hrest]
    by_cases hnil : v = ""
    · rw [hnil, maskValue_empty, maskValue_empty]
    · rw [maskValue_eq hnil, maskValue_eq hnil,
        Text.replaceAll_append (toList_ne_nil hnil) (mt Text.overlap_comm.1 hv)]

theorem maskValue_eq_nil (h : maskValue t v = []) : t = [] := by
  rcases maskValue_cases t v with hsame | ⟨a, b, _, hsplit⟩
  · rw [← hsame, h]
  · rw [h] at hsplit
    have hlength := congrArg List.length hsplit
    simp [maskText] at hlength

theorem maskValue_front (hv : v ≠ "") (t : List Char) :
    maskValue (v.toList ++ t) v = maskText ++ maskValue t v := by
  rw [maskValue_eq hv, maskValue_eq hv, Text.replaceAll_here (toList_ne_nil hv)]

theorem eq_of_maskValue (h : maskValue t v = maskText) : t = maskText ∨ t = v.toList := by
  rcases maskValue_cases t v with hsame | ⟨a, b, rfl, hsplit⟩
  · exact .inl (hsame ▸ h)
  · rw [h] at hsplit
    have hlength := congrArg List.length hsplit
    simp only [List.length_append] at hlength
    obtain rfl := List.eq_nil_of_length_eq_zero (show a.length = 0 by omega)
    have hrest := List.eq_nil_of_length_eq_zero (show (maskValue b v).length = 0 by omega)
    exact .inr (by rw [maskValue_eq_nil hrest, List.append_nil, List.nil_append])

theorem eq_of_maskValues (h : Starless values) (ht : values.foldl maskValue t = maskText) :
    t = maskText ∨ ∃ v ∈ values, t = v.toList := by
  induction values generalizing t with
  | nil => exact .inl ht
  | cons v rest ih =>
    have hrest := (List.forall_mem_cons.1 h).2
    rcases ih hrest ht with hstars | ⟨r, hr, hvalue⟩
    · exact (eq_of_maskValue hstars).imp id fun hv => ⟨v, List.mem_cons_self, hv⟩
    · rcases maskValue_cases t v with hsame | ⟨a, b, _, hsplit⟩
      · exact .inr ⟨r, List.mem_cons_of_mem v hr, hsame.symm.trans hvalue⟩
      · exact absurd (hvalue.symm.trans hsplit) (not_inside_of_starless hrest hr a _)

theorem maskValues_nil (values : List String) : values.foldl maskValue [] = [] := by
  induction values with
  | nil => rfl
  | cons v rest ih =>
    have hstep : maskValue [] v = [] := by simp [maskValue, Text.replaceAll_nil]
    rw [List.foldl_cons, hstep, ih]

/-- The value that comes first is hidden as a whole. -/
theorem maskValues_self (hw : w ≠ "") (h : Starless rest) :
    (w :: rest).foldl maskValue w.toList = maskText := by
  have hfront : maskValue w.toList w = maskText := by
    have hsplit := maskValue_front hw []
    rwa [List.append_nil, show maskValue [] w = [] from maskValues_nil [w], List.append_nil]
      at hsplit
  have hkept := maskValues_append h []
  rw [List.append_nil, maskValues_nil, List.append_nil] at hkept
  rw [List.foldl_cons, hfront, hkept]

/-- If a value is inside another one, the text of the outer one is hidden as a whole in one order
and in parts in the other. -/
theorem differ_of_inside (h : Starless (v :: w :: rest)) (hne : v ≠ w) (hv : v ≠ "")
    (hinside : v.toList <:+: w.toList) :
    ∃ t, (v :: w :: rest).foldl maskValue t ≠ (w :: v :: rest).foldl maskValue t := by
  obtain ⟨hstarv, hothers⟩ := List.forall_mem_cons.1 h
  have hvrest : Starless (v :: rest) :=
    List.forall_mem_cons.2 ⟨hstarv, (List.forall_mem_cons.1 hothers).2⟩
  have hw : w ≠ "" := by
    rintro rfl
    exact toList_ne_nil hv (List.eq_nil_of_infix_nil hinside)
  have hnostars : w.toList ≠ maskText := by
    have hapart := @not_inside_of_starless w (v :: w :: rest) h (by simp) [] []
    simpa using hapart
  refine ⟨w.toList, fun heq => ?_⟩
  rw [maskValues_self hw hvrest] at heq
  have hgone := not_infix_maskValue hv hstarv w.toList
  rcases eq_of_maskValues hothers heq with hstars | ⟨r, hr, hvalue⟩
  · rcases eq_of_maskValue hstars with hstars | hsame
    · exact hnostars hstars
    · exact hne (String.toList_inj.1 hsame).symm
  · rcases maskValue_cases w.toList v with hsame | ⟨a, b, _, hsplit⟩
    · exact hgone (hsame.symm ▸ hinside)
    · exact not_inside_of_starless hothers hr a _ (hvalue.symm.trans hsplit)

/-- A character stays at the front if no value is there. -/
theorem maskValues_head {c : Char} (h : Starless values)
    (hnone : ∀ v ∈ values, v ≠ "" → ¬ v.toList <+: c :: t) :
    ∃ t', values.foldl maskValue (c :: t) = c :: t' := by
  induction values generalizing t with
  | nil => exact ⟨t, rfl⟩
  | cons v rest ih =>
    obtain ⟨hv, hrest⟩ := List.forall_mem_cons.1 h
    obtain ⟨hstart, hothers⟩ := List.forall_mem_cons.1 hnone
    rw [List.foldl_cons]
    by_cases hnil : v = ""
    · rw [hnil, maskValue_empty]
      exact ih hrest hothers
    · rw [maskValue_eq hnil, Text.replaceAll_pass (hstart hnil)]
      refine ih hrest fun w hw hwnil hstarts => hothers w hw hwnil ?_
      rw [← Text.replaceAll_pass (hstart hnil)] at hstarts
      exact (Text.prefix_of_prefix_replaceAll (toList_ne_nil hnil) maskText_ne_nil (hrest w hw)
        hstarts).1

/-- No value is inside another one. -/
def Unnested (values : List String) : Prop :=
  ∀ v ∈ values, ∀ w ∈ values, v ≠ "" → v.toList <:+: w.toList → v = w

theorem Unnested.eq_of_front {x : String} {b : List Char} (h : Unnested values) (hv : v ∈ values)
    (hvnil : v ≠ "") (hx : x ∈ values) (hxnil : x ≠ "") (hstarts : x.toList <+: v.toList ++ b) :
    x = v := by
  rcases List.prefix_or_prefix_of_prefix hstarts (List.prefix_append _ _) with hle | hle
  · exact h x hx v hv hxnil hle.isInfix
  · exact (h v hv x hx hvnil hle.isInfix).symm

theorem not_head_star (h : ¬ Overlap v.toList maskText) (cs : List Char) :
    v.toList ≠ '*' :: cs := by
  intro hlist
  have hmask : maskText <+: ['*', '*'] ++ (v.toList ++ []) := by
    rw [hlist, List.append_nil]
    exact ⟨cs, rfl⟩
  exact h (Text.overlap_comm.1 (Text.overlap_of_reaching (by simp [hlist]) (by decide) hmask))

/-- The end of `v` is the start of `w`. If `w` comes first, the front of `v` stays. -/
theorem kept_of_reaching {a b cs : List Char} {c : Char} (h : Starless (v :: w :: rest))
    (hnested : Unnested (v :: w :: rest)) (hne : v ≠ w) (hw : w ≠ "") (hlist : v.toList = c :: cs)
    (htext : v.toList ++ b = a ++ w.toList) (ha : a.length < v.toList.length) :
    ∃ t, (w :: v :: rest).foldl maskValue (v.toList ++ b) = c :: t := by
  have hv : v ≠ "" := by
    rintro rfl
    cases hlist
  have hmem {x : String} (hx : x ∈ v :: rest) : x ∈ v :: w :: rest :=
    (List.sublist_cons_self w rest).cons_cons v |>.subset hx
  have hstart : ¬ w.toList <+: v.toList ++ b := fun hstarts =>
    hne (hnested.eq_of_front List.mem_cons_self hv (by simp) hw hstarts).symm
  have hrest : v.toList ++ b = c :: (cs ++ b) := by rw [hlist, List.cons_append]
  rw [List.foldl_cons, maskValue_eq hw]
  rw [hrest] at hstart ⊢
  rw [Text.replaceAll_pass hstart]
  refine maskValues_head (fun x hx => h x (hmem hx)) fun x hx hxnil hstarts => ?_
  rw [← Text.replaceAll_pass hstart] at hstarts
  obtain ⟨hold, hnone⟩ := Text.prefix_of_prefix_replaceAll (toList_ne_nil hw) maskText_ne_nil
    (h x (hmem hx)) hstarts
  rw [← hrest] at hold hnone
  obtain rfl := hnested.eq_of_front List.mem_cons_self hv (hmem hx) hxnil hold
  exact hnone a w.toList htext ha (List.prefix_refl _)

/-- In the text of both, the one that comes first is hidden and the rest of the other one stays. -/
theorem differ_of_reaching {a b : List Char} (h : Starless (v :: w :: rest))
    (hnested : Unnested (v :: w :: rest)) (hne : v ≠ w) (hw : w ≠ "")
    (htext : v.toList ++ b = a ++ w.toList) (ha : a.length < v.toList.length) :
    (v :: w :: rest).foldl maskValue (v.toList ++ b) ≠
      (w :: v :: rest).foldl maskValue (v.toList ++ b) := by
  obtain ⟨hstarv, hothers⟩ := List.forall_mem_cons.1 h
  have hv : v ≠ "" := by
    rintro rfl
    exact Nat.not_lt_zero _ ha
  have hhidden : (v :: w :: rest).foldl maskValue (v.toList ++ b) =
      maskText ++ (w :: rest).foldl maskValue (maskValue b v) := by
    rw [List.foldl_cons, maskValue_front hv, maskValues_append hothers]
  obtain ⟨c, cs, hlist⟩ := List.exists_cons_of_ne_nil (toList_ne_nil hv)
  obtain ⟨t, hkept⟩ := kept_of_reaching h hnested hne hw hlist htext ha
  rw [hhidden, hkept]
  intro heq
  have hstar : '*' = c := (List.cons.inj heq).1
  rw [← hstar] at hlist
  exact not_head_star hstarv cs hlist

theorem differ_of_first {a r s : List Char} (h : Starless (v :: w :: rest))
    (hnested : Unnested (v :: w :: rest)) (hne : v ≠ w) (hw : w ≠ "")
    (htext : v.toList ++ r = a ++ (w.toList ++ s)) (ha : a.length < v.toList.length) :
    ∃ t, (v :: w :: rest).foldl maskValue t ≠ (w :: v :: rest).foldl maskValue t := by
  have hboth : a ++ w.toList <+: v.toList ++ r := ⟨s, by rw [htext, List.append_assoc]⟩
  rcases List.prefix_or_prefix_of_prefix (List.prefix_append v.toList r) hboth with hle | hle
  · obtain ⟨b, hb⟩ := hle
    exact ⟨_, differ_of_reaching h hnested hne hw hb ha⟩
  · have hinside : w.toList <:+: v.toList :=
      (List.suffix_append a w.toList).isInfix.trans hle.isInfix
    exact absurd (hnested w (by simp) v List.mem_cons_self hw hinside) (Ne.symm hne)

theorem differ_of_overlap (h : Starless (v :: w :: rest)) (hnested : Unnested (v :: w :: rest))
    (hne : v ≠ w) (hoverlap : Overlap v.toList w.toList) :
    ∃ t, (v :: w :: rest).foldl maskValue t ≠ (w :: v :: rest).foldl maskValue t := by
  have hv : v ≠ "" := fun hnil => hoverlap.ne_nil (String.toList_eq_nil_iff.2 hnil)
  have hw : w ≠ "" := fun hnil =>
    (Text.overlap_comm.1 hoverlap).ne_nil (String.toList_eq_nil_iff.2 hnil)
  have hmem {x : String} : x ∈ w :: v :: rest ↔ x ∈ v :: w :: rest :=
    (List.Perm.swap v w rest).mem_iff
  rcases hoverlap.reaching with ⟨a, r, s, htext, ha⟩ | ⟨a, r, s, htext, ha⟩
  · exact differ_of_first h hnested hne hw htext ha
  · obtain ⟨t, ht⟩ := differ_of_first (fun x hx => h x (hmem.1 hx))
      (fun x hx y hy => hnested x (hmem.1 hx) y (hmem.1 hy)) (Ne.symm hne) hv htext ha
    exact ⟨t, Ne.symm ht⟩

/-- Any two different values can be put first, and then it does not matter which of them is the
first one. -/
def Swappable (values : List String) : Prop :=
  ∀ v ∈ values, ∀ w ∈ values, v ≠ w → ∃ rest, (v :: w :: rest).Perm values ∧
    ∀ t, (v :: w :: rest).foldl maskValue t = (w :: v :: rest).foldl maskValue t

theorem unnested_of_swappable (h : Starless values) (hswap : Swappable values) :
    Unnested values := by
  intro v hv w hw hvnil hinside
  by_contra hne
  obtain ⟨rest, hperm, hsame⟩ := hswap v hv w hw hne
  obtain ⟨t, ht⟩ := differ_of_inside (fun x hx => h x (hperm.mem_iff.1 hx)) hne hvnil hinside
  exact ht (hsame t)

theorem apart_of_swappable (h : Starless values) (hswap : Swappable values) : Apart values := by
  intro v hv w hw hne hoverlap
  obtain ⟨rest, hperm, hsame⟩ := hswap v hv w hw hne
  have hnested := unnested_of_swappable h hswap
  obtain ⟨t, ht⟩ := differ_of_overlap (fun x hx => h x (hperm.mem_iff.1 hx))
    (fun x hx y hy => hnested x (hperm.mem_iff.1 hx) y (hperm.mem_iff.1 hy)) hne hoverlap
  exact ht (hsame t)

/-! ## Orders of names -/

theorem exists_perm_cons {n n' : String} (hn : n ∈ names) (hn' : n' ∈ names) (hne : n ≠ n') :
    ∃ rest, names.Perm (n :: n' :: rest) := by
  have hlater : n' ∈ names.erase n := (List.mem_erase_of_ne (Ne.symm hne)).2 hn'
  exact ⟨_, (List.perm_cons_erase hn).trans ((List.perm_cons_erase hlater).cons n)⟩

theorem swappable_of_free (f : String → String)
    (hfree : ∀ names' : List String, names'.Perm names →
      ∀ t, (names'.map f).foldl maskValue t = (names.map f).foldl maskValue t) :
    Swappable (names.map f) := by
  intro v hv w hw hne
  obtain ⟨n, hn, rfl⟩ := List.mem_map.1 hv
  obtain ⟨n', hn', rfl⟩ := List.mem_map.1 hw
  obtain ⟨rest, hperm⟩ := exists_perm_cons hn hn' fun heq => hne (by rw [heq])
  refine ⟨rest.map f, (hperm.map f).symm, fun t => ?_⟩
  have hswapped : (n' :: n :: rest).Perm names := (List.Perm.swap n n' rest).trans hperm.symm
  exact (hfree _ hperm.symm t).trans (hfree _ hswapped t).symm

theorem toList_mask_held (text : String) :
    ((⟨stage, held provider names⟩ : Lease).mask text).toList =
      (names.map (valueOf provider)).foldl maskValue text.toList := by
  rw [toList_mask, held, List.map_map]
  rfl

theorem starless_iff : Starless (names.map (valueOf provider)) ↔
    ∀ s ∈ held provider names, ¬ Overlap s.2.toList maskText := by
  simp only [Starless, held, List.forall_mem_map]

theorem apart_iff : Apart (names.map (valueOf provider)) ↔
    ∀ s ∈ held provider names, ∀ s' ∈ held provider names,
      s.2 ≠ s'.2 → ¬ Overlap s.2.toList s'.2.toList := by
  simp only [Apart, held, List.forall_mem_map]

/-- If all values share no place with the stars that are put in, every order of the names can be
acquired and masks every text alike exactly if no two different values overlap. -/
theorem order_free_iff_apart (h : acquire provider stage names = .ok l)
    (hstarless : ∀ s ∈ l.secrets, ¬ Overlap s.2.toList maskText) :
    (∀ names' : List String, names'.Perm names →
      ∃ l', acquire provider stage names' = .ok l' ∧ ∀ text, l'.mask text = l.mask text) ↔
    ∀ s ∈ l.secrets, ∀ s' ∈ l.secrets, s.2 ≠ s'.2 → ¬ Overlap s.2.toList s'.2.toList := by
  obtain ⟨hall, rfl⟩ := acquire_eq_ok_iff.1 h
  have hvalues : Starless (names.map (valueOf provider)) := starless_iff.2 hstarless
  rw [← apart_iff]
  constructor
  · intro hfree
    refine apart_of_swappable hvalues (swappable_of_free _ fun names' hperm t => ?_)
    obtain ⟨l', hl', hmask⟩ := hfree names' hperm
    obtain ⟨_, rfl⟩ := acquire_eq_ok_iff.1 hl'
    have htext := congrArg String.toList (hmask (String.ofList t))
    rwa [toList_mask_held, toList_mask_held, String.toList_ofList] at htext
  · intro happart names' hperm
    refine ⟨⟨stage, held provider names'⟩,
      acquire_eq_ok_iff.2 ⟨fun n hn => hall n (hperm.mem_iff.1 hn), rfl⟩, fun text => ?_⟩
    rw [← String.toList_inj, toList_mask_held, toList_mask_held]
    exact maskValues_perm (hperm.map _) hvalues happart text.toList

/-- The start of a value, listed before it, leaves the rest of it in the text. -/
theorem order_free_iff_apart_fragment :
    let provider : SecretProvider := fun n =>
      if n = "SHORT" then some "token" else if n = "LONG" then some "token-admin" else none
    let l : Lease := ⟨"deploy", [("SHORT", "token"), ("LONG", "token-admin")]⟩
    acquire provider "deploy" ["SHORT", "LONG"] = .ok l ∧
    (∀ s ∈ l.secrets, ¬ Overlap s.2.toList maskText) ∧
    l.mask "key token-admin" = "key ***-admin" ∧
    ¬ ∀ names' : List String, names'.Perm ["SHORT", "LONG"] →
      ∃ l', acquire provider "deploy" names' = .ok l' ∧ ∀ text, l'.mask text = l.mask text := by
  intro provider l
  have hacquire : acquire provider "deploy" ["SHORT", "LONG"] = .ok l := by decide
  have hstar : ∀ s ∈ l.secrets, '*' ∉ s.2.toList := by decide
  have hstarless : ∀ s ∈ l.secrets, ¬ Overlap s.2.toList maskText :=
    fun s hs => not_overlap_maskText (hstar s hs)
  have hoverlap : Overlap "token".toList "token-admin".toList :=
    Text.overlap_of_inside (by decide) ⟨[], "-admin".toList, by decide⟩
  refine ⟨hacquire, hstarless, by decide, fun hfree => ?_⟩
  exact (order_free_iff_apart hacquire hstarless).1 hfree ("SHORT", "token") (by simp [l])
    ("LONG", "token-admin") (by simp [l]) (by decide) hoverlap

end Lease
end Conveyor
