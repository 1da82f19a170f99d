import Mathlib.Data.List.Nodup
import Mathlib.Data.List.Perm.Basic
import PolyCalc.Config.Document

set_option autoImplicit false

/-! # Tables and documents as maps

A table is read through `Table.get?`, and each operation on tables has one law that says what can be
read afterwards (`Table.get?_put`, `Table.get?_merge`). No operation enters a key twice
(`Table.Unique`), so what can be read from a table does not depend on the order of its entries.

A document is read through `Document.values?`, a title and a key at a time. Its sections come from
lists of pairs in which keys and titles may occur again; the later ones count
(`Document.values?_ofSections_append`). A document without repetitions is what its own entries make
(`Document.ofSections_eq_self`), and it can be read in the same way in any other order of its
sections and keys (`Document.Reordered.values?_eq`). -/

namespace PolyCalc.Config

/-! ## Tables -/

namespace Table

variable {α : Type} {k key : List Char} {v : α} {t u : Table α}

/-- No key occurs twice. -/
def Unique (t : Table α) : Prop := (t.map Prod.fst).Nodup

instance (t : Table α) : Decidable (Unique t) :=
  inferInstanceAs (Decidable (t.map Prod.fst).Nodup)

theorem get?_put : get? k (put key v t) = if key = k then some v else get? k t := by
  induction t with
  | nil => rfl
  | cons e t ih =>
    obtain ⟨k', v'⟩ := e
    rw [put]
    by_cases hk' : k' = key
    · subst hk'
      by_cases hk : k' = k
      · simp [get?, hk]
      · simp [get?, hk]
    · rw [if_neg hk', get?, get?, ih]
      by_cases hk : k' = k
      · subst hk
        simp [Ne.symm hk']
      · simp [hk]

theorem get?_eq_none_iff : get? k t = none ↔ k ∉ t.map Prod.fst := by
  induction t with
  | nil => simp [get?]
  | cons e t ih =>
    obtain ⟨k', v'⟩ := e
    by_cases hk : k' = k
    · simp [get?, hk]
    · simp [get?, hk, ih, Ne.symm hk]

theorem mem_of_get? (h : get? k t = some v) : (k, v) ∈ t := by
  induction t with
  | nil => simp [get?] at h
  | cons e t ih =>
    obtain ⟨k', v'⟩ := e
    rw [get?] at h
    split at h
    · next hk =>
      cases h
      simp [hk]
    · exact List.mem_cons_of_mem _ (ih h)

theorem Unique.get?_eq_some_iff (h : Unique t) : get? k t = some v ↔ (k, v) ∈ t := by
  refine ⟨mem_of_get?, ?_⟩
  intro hmem
  induction t with
  | nil => simp at hmem
  | cons e t ih =>
    obtain ⟨k', v'⟩ := e
    obtain ⟨hnotMem, hrest⟩ := List.nodup_cons.mp h
    rw [get?]
    rcases List.mem_cons.mp hmem with heq | hmem
    · cases heq
      simp
    · have hne : k' ≠ k := by
        rintro rfl
        exact hnotMem (List.mem_map.mpr ⟨(k', v), hmem, rfl⟩)
      rw [if_neg hne, ih hrest hmem]

theorem Unique.perm (h : Unique t) (hperm : t.Perm u) : Unique u :=
  (hperm.map Prod.fst).nodup_iff.mp h

/-! ### Entering -/

theorem mem_keys_put : k ∈ (put key v t).map Prod.fst ↔ k = key ∨ k ∈ t.map Prod.fst := by
  rw [← not_iff_not, ← get?_eq_none_iff, not_or, ← get?_eq_none_iff, get?_put]
  by_cases hk : key = k
  · simp [hk]
  · simp [hk, Ne.symm hk]

theorem mem_put {e : List Char × α} (h : e ∈ put key v t) : e = (key, v) ∨ e ∈ t := by
  induction t with
  | nil => exact Or.inl (List.mem_singleton.mp h)
  | cons e' t ih =>
    obtain ⟨k', v'⟩ := e'
    rw [put] at h
    split at h
    · next hk =>
      subst hk
      rcases List.mem_cons.mp h with rfl | hmem
      · exact Or.inl rfl
      · exact Or.inr (List.mem_cons_of_mem _ hmem)
    · rcases List.mem_cons.mp h with rfl | hmem
      · exact Or.inr List.mem_cons_self
      · rcases ih hmem with rfl | hmem
        · exact Or.inl rfl
        · exact Or.inr (List.mem_cons_of_mem _ hmem)

theorem Unique.put (h : Unique t) : Unique (put key v t) := by
  induction t with
  | nil => exact List.nodup_singleton key
  | cons e t ih =>
    obtain ⟨k', v'⟩ := e
    obtain ⟨hnotMem, hrest⟩ := List.nodup_cons.mp h
    rw [Table.put]
    split
    · exact h
    · next hk =>
      refine List.nodup_cons.mpr ⟨?_, ih hrest⟩
      intro hmem
      rcases mem_keys_put.mp hmem with heq | hmem
      · exact hk heq
      · exact hnotMem hmem

/-- A new key is entered at the end. -/
theorem put_of_notMem (h : key ∉ t.map Prod.fst) : put key v t = t ++ [(key, v)] := by
  induction t with
  | nil => rfl
  | cons e t ih =>
    obtain ⟨k', v'⟩ := e
    simp only [List.map_cons, List.mem_cons, not_or] at h
    rw [put, if_neg (Ne.symm h.1), ih h.2]
    rfl

/-! ### Merging -/

theorem merge_cons (t u : Table α) (k : List Char) (v : α) :
    merge t ((k, v) :: u) = merge (put k v t) u := rfl

theorem Unique.merge (h : Unique t) (u : Table α) : Unique (merge t u) := by
  induction u generalizing t with
  | nil => exact h
  | cons e u ih => exact ih h.put

/-- Of two merged tables the second one counts. -/
theorem get?_merge (h : Unique u) : get? k (merge t u) = (get? k u).or (get? k t) := by
  induction u generalizing t with
  | nil => rfl
  | cons e u ih =>
    obtain ⟨k', v'⟩ := e
    obtain ⟨hnotMem, hrest⟩ := List.nodup_cons.mp h
    rw [merge_cons, ih hrest, get?_put, get?]
    by_cases hk : k' = k
    · subst hk
      rw [get?_eq_none_iff.mpr hnotMem]
      simp
    · simp [hk]

theorem mem_keys_merge :
    k ∈ (merge t u).map Prod.fst ↔ k ∈ t.map Prod.fst ∨ k ∈ u.map Prod.fst := by
  induction u generalizing t with
  | nil => simp [merge]
  | cons e u ih =>
    obtain ⟨k', v'⟩ := e
    rw [merge_cons, ih, mem_keys_put, List.map_cons, List.mem_cons]
    constructor
    · rintro ((rfl | ht) | hu)
      · exact Or.inr (Or.inl rfl)
      · exact Or.inl ht
      · exact Or.inr (Or.inr hu)
    · rintro (ht | rfl | hu)
      · exact Or.inl (Or.inr ht)
      · exact Or.inl (Or.inl rfl)
      · exact Or.inr hu

/-- Tables without a key in common are put one behind the other. -/
theorem merge_eq_append (h : Unique (t ++ u)) : merge t u = t ++ u := by
  induction u generalizing t with
  | nil => simp [merge]
  | cons e u ih =>
    obtain ⟨k', v'⟩ := e
    rw [List.append_cons] at h
    have hfirst : Unique (t ++ [(k', v')]) := by
      unfold Unique at h ⊢
      rw [List.map_append] at h
      exact h.of_append_left
    have hnotMem : k' ∉ t.map Prod.fst := by
      unfold Unique at hfirst
      rw [List.map_append, List.map_singleton, List.nodup_append] at hfirst
      intro hmem
      exact hfirst.2.2 k' hmem k' (List.mem_singleton.mpr rfl) rfl
    rw [merge_cons, put_of_notMem hnotMem, ih h, List.append_assoc]
    rfl

end Table

/-! ## Sections -/

theorem Section.unique_ofPairs (pairs : List (List Char × List Value)) :
    Table.Unique (Section.ofPairs pairs) :=
  Table.Unique.merge (t := []) List.nodup_nil pairs

theorem Section.ofPairs_ne_nil {pairs : List (List Char × List Value)} (h : pairs ≠ []) :
    Section.ofPairs pairs ≠ [] := by
  intro hempty
  obtain ⟨e, pairs, rfl⟩ := List.exists_cons_of_ne_nil h
  have hmem : e.1 ∈ (Section.ofPairs (e :: pairs)).map Prod.fst :=
    Table.mem_keys_merge.mpr (Or.inr (by simp))
  simp [hempty] at hmem

theorem Section.ofPairs_eq_self {s : Section} (h : Table.Unique s) : Section.ofPairs s = s :=
  Table.merge_eq_append (t := []) h

/-! ## Documents -/

namespace Document

variable {d e : Document} {title key : List Char} {s : Section}

/-- The values of a key in a section. -/
def values? (title key : List Char) (d : Document) : Option (List Value) :=
  (Table.get? title d).bind (Table.get? key)

/-- The titles of the sections. -/
def titles (d : Document) : List (List Char) := d.map Prod.fst

/-- No title occurs twice, no key occurs twice in a section, and no section is empty. -/
structure WellFormed (d : Document) : Prop where
  unique_titles : Table.Unique d
  unique_keys : ∀ title s, (title, s) ∈ d → Table.Unique s
  nonempty : ∀ title s, (title, s) ∈ d → s ≠ []

theorem wellFormed_iff : WellFormed d ↔
    Table.Unique d ∧ (∀ e ∈ d, Table.Unique e.2) ∧ ∀ e ∈ d, e.2 ≠ [] :=
  ⟨fun h => ⟨h.unique_titles, fun e => h.unique_keys e.1 e.2, fun e => h.nonempty e.1 e.2⟩,
    fun h => ⟨h.1, fun title s => h.2.1 (title, s), fun title s => h.2.2 (title, s)⟩⟩

instance (d : Document) : Decidable (WellFormed d) := decidable_of_iff' _ wellFormed_iff

theorem wellFormed_nil : WellFormed [] where
  unique_titles := List.nodup_nil
  unique_keys := by simp
  nonempty := by simp

/-! ### One more section -/

theorem mem_titles_extend {t : List Char} :
    t ∈ (d.extend title s).titles ↔ t = title ∨ t ∈ d.titles := Table.mem_keys_put

theorem values?_extend {t : List Char} (hs : Table.Unique s) :
    (d.extend title s).values? t key =
      if title = t then (Table.get? key s).or (d.values? t key) else d.values? t key := by
  unfold values? extend
  rw [Table.get?_put]
  by_cases ht : title = t
  · subst ht
    rw [if_pos rfl, if_pos rfl, Option.bind_some, Table.get?_merge hs]
    cases Table.get? title d <;> simp [Table.get?]
  · rw [if_neg ht, if_neg ht]

theorem WellFormed.extend (h : WellFormed d) (hs : s ≠ []) : WellFormed (d.extend title s) := by
  -- The section that is added to is either one of the document or new.
  have hold : Table.Unique ((Table.get? title d).getD []) := by
    cases hget : Table.get? title d with
    | none => exact List.nodup_nil
    | some old => exact h.unique_keys title old (Table.mem_of_get? hget)
  have hne : ((Table.get? title d).getD []).merge s ≠ [] := by
    obtain ⟨e, s', rfl⟩ := List.exists_cons_of_ne_nil hs
    intro hempty
    have hmem := (Table.mem_keys_merge (t := (Table.get? title d).getD []) (k := e.1)
      (u := e :: s')).mpr (Or.inr (by simp))
    rw [hempty] at hmem
    simp at hmem
  refine ⟨h.unique_titles.put, ?_, ?_⟩
  · intro t u hmem
    rcases Table.mem_put hmem with heq | hmem
    · cases heq
      exact hold.merge s
    · exact h.unique_keys t u hmem
  · intro t u hmem
    rcases Table.mem_put hmem with heq | hmem
    · cases heq
      exact hne
    · exact h.nonempty t u hmem

/-! ### Sections in a row -/

variable {sections later : List (List Char × List (List Char × List Value))}

/-- Adds sections to a document, in which keys may occur twice. -/
def extendAll (d : Document) (sections : List (List Char × List (List Char × List Value))) :
    Document :=
  sections.foldl (fun d (title, pairs) => Document.extend d title (Section.ofPairs pairs)) d

theorem ofSections_eq_extendAll : ofSections sections = extendAll [] sections := rfl

theorem extendAll_cons {pairs : List (List Char × List Value)} :
    d.extendAll ((title, pairs) :: sections) =
      (d.extend title (Section.ofPairs pairs)).extendAll sections := rfl

theorem ofSections_append :
    ofSections (sections ++ later) = (ofSections sections).extendAll later := List.foldl_append

theorem mem_titles_extendAll {t : List Char} :
    t ∈ (d.extendAll sections).titles ↔ t ∈ d.titles ∨ t ∈ sections.map Prod.fst := by
  induction sections generalizing d with
  | nil => simp [extendAll]
  | cons first sections ih =>
    obtain ⟨title, pairs⟩ := first
    rw [extendAll_cons, ih, mem_titles_extend, List.map_cons, List.mem_cons]
    constructor
    · rintro ((rfl | hd) | hlater)
      · exact Or.inr (Or.inl rfl)
      · exact Or.inl hd
      · exact Or.inr (Or.inr hlater)
    · rintro (hd | rfl | hlater)
      · exact Or.inl (Or.inr hd)
      · exact Or.inl (Or.inl rfl)
      · exact Or.inr hlater

theorem mem_titles_ofSections {t : List Char} :
    t ∈ (ofSections sections).titles ↔ t ∈ sections.map Prod.fst := by
  rw [ofSections_eq_extendAll, mem_titles_extendAll]
  simp [titles]

/-- What sections add to a document can be read before what was there. -/
theorem values?_extendAll {t : List Char} :
    (d.extendAll sections).values? t key =
      ((ofSections sections).values? t key).or (d.values? t key) := by
  induction sections generalizing d with
  | nil => rfl
  | cons first sections ih =>
    obtain ⟨title, pairs⟩ := first
    have hunique := Section.unique_ofPairs pairs
    rw [ofSections_eq_extendAll, extendAll_cons, extendAll_cons, ih, ih (d := extend _ _ _),
      values?_extend hunique, values?_extend hunique]
    by_cases ht : title = t
    · simp [ht, values?, Table.get?, Option.or_assoc]
    · simp [ht, values?, Table.get?]

/-- Of two rows of sections the later one counts. -/
theorem values?_ofSections_append {t : List Char} :
    (ofSections (sections ++ later)).values? t key =
      ((ofSections later).values? t key).or ((ofSections sections).values? t key) := by
  rw [ofSections_append, values?_extendAll]

theorem WellFormed.extendAll (h : WellFormed d) (hne : ∀ s ∈ sections, s.2 ≠ []) :
    WellFormed (d.extendAll sections) := by
  induction sections generalizing d with
  | nil => exact h
  | cons first sections ih =>
    obtain ⟨hfirst, hlater⟩ := List.forall_mem_cons.mp hne
    exact ih (h.extend (Section.ofPairs_ne_nil hfirst)) hlater

theorem wellFormed_ofSections (hne : ∀ s ∈ sections, s.2 ≠ []) :
    WellFormed (ofSections sections) := wellFormed_nil.extendAll hne

/-- A document without repetitions is made of its own sections. -/
theorem extendAll_eq_append (h : WellFormed (d ++ e)) : d.extendAll e = d ++ e := by
  induction e generalizing d with
  | nil => simp [Document.extendAll]
  | cons first e ih =>
    obtain ⟨title, s⟩ := first
    have hnew : Table.get? title d = none := by
      have hunique := h.unique_titles
      unfold Table.Unique at hunique
      rw [List.map_append, List.nodup_append] at hunique
      rw [Table.get?_eq_none_iff]
      intro hmem
      exact hunique.2.2 title hmem title (by simp) rfl
    have hs : Table.Unique s := h.unique_keys title s (by simp)
    have hextend : d.extend title s = d ++ [(title, s)] := by
      unfold Document.extend
      rw [Table.put_of_notMem (Table.get?_eq_none_iff.mp hnew), hnew, Option.getD_none,
        Table.merge_eq_append (t := []) hs]
      rfl
    rw [List.append_cons] at h ⊢
    rw [extendAll_cons, Section.ofPairs_eq_self hs, hextend, ih h]

theorem ofSections_eq_self (h : WellFormed d) : ofSections d = d :=
  extendAll_eq_append (d := []) h

/-! ### Other orders -/

/-- The same sections in any order, each with its keys in any order. -/
def Reordered (d e : Document) : Prop :=
  ∃ d' : Document, d.Perm d' ∧ List.Forall₂ (fun s t => s.1 = t.1 ∧ s.2.Perm t.2) d' e

theorem exists_mem_of_forall₂ {α β : Type} {r : α → β → Prop} {as : List α} {bs : List β} {a : α}
    (h : List.Forall₂ r as bs) (ha : a ∈ as) : ∃ b ∈ bs, r a b := by
  induction h with
  | nil => simp at ha
  | @cons a' b as bs hab _ ih =>
    rcases List.mem_cons.mp ha with rfl | ha
    · exact ⟨b, List.mem_cons_self, hab⟩
    · obtain ⟨b', hb', hr⟩ := ih ha
      exact ⟨b', List.mem_cons_of_mem b hb', hr⟩

namespace Reordered

theorem refl (d : Document) : d.Reordered d :=
  ⟨d, .refl d, List.forall₂_same.mpr fun _ _ => ⟨rfl, .refl _⟩⟩

theorem exists_mem (h : d.Reordered e) (hmem : (title, s) ∈ d) :
    ∃ s', (title, s') ∈ e ∧ s.Perm s' := by
  obtain ⟨d', hperm, hsections⟩ := h
  obtain ⟨⟨title', s'⟩, hs', rfl, hkeys⟩ :=
    exists_mem_of_forall₂ hsections (hperm.mem_iff.mp hmem)
  exact ⟨s', hs', hkeys⟩

theorem exists_mem_of_mem (h : d.Reordered e) (hmem : (title, s) ∈ e) :
    ∃ s', (title, s') ∈ d ∧ s.Perm s' := by
  obtain ⟨d', hperm, hsections⟩ := h
  obtain ⟨⟨title', s'⟩, hs', rfl, hkeys⟩ := exists_mem_of_forall₂ hsections.flip hmem
  exact ⟨s', hperm.mem_iff.mpr hs', hkeys.symm⟩

theorem unique_titles (h : d.Reordered e) (hd : Table.Unique d) : Table.Unique e := by
  obtain ⟨d', hperm, hsections⟩ := h
  have htitles : d'.map Prod.fst = e.map Prod.fst := by
    clear hperm
    induction hsections with
    | nil => rfl
    | cons htu _ ih => rw [List.map_cons, List.map_cons, ih, htu.1]
  have hunique := hd.perm hperm
  unfold Table.Unique at hunique ⊢
  rwa [← htitles]

theorem wellFormed (h : d.Reordered e) (hd : WellFormed d) : WellFormed e where
  unique_titles := h.unique_titles hd.unique_titles
  unique_keys := by
    intro title s hs
    obtain ⟨s', hs', hkeys⟩ := h.exists_mem_of_mem hs
    exact (hd.unique_keys title s' hs').perm hkeys.symm
  nonempty := by
    intro title s hs
    obtain ⟨s', hs', hkeys⟩ := h.exists_mem_of_mem hs
    rintro rfl
    exact hd.nonempty title s' hs' hkeys.nil_eq.symm

end Reordered

theorem WellFormed.values?_eq_some_iff (hd : WellFormed d) {values : List Value} :
    d.values? title key = some values ↔ ∃ s, (title, s) ∈ d ∧ (key, values) ∈ s := by
  unfold values?
  rw [Option.bind_eq_some_iff]
  constructor
  · rintro ⟨s, hs, hvalues⟩
    exact ⟨s, Table.mem_of_get? hs, Table.mem_of_get? hvalues⟩
  · rintro ⟨s, hs, hvalues⟩
    exact ⟨s, hd.unique_titles.get?_eq_some_iff.mpr hs,
      (hd.unique_keys title s hs).get?_eq_some_iff.mpr hvalues⟩

/-- What can be read from a document does not depend on its order. -/
theorem Reordered.values?_eq (h : d.Reordered e) (hd : WellFormed d) :
    d.values? title key = e.values? title key := by
  apply Option.ext
  intro values
  rw [hd.values?_eq_some_iff, (h.wellFormed hd).values?_eq_some_iff]
  constructor
  · rintro ⟨s, hs, hvalues⟩
    obtain ⟨s', hs', hkeys⟩ := h.exists_mem hs
    exact ⟨s', hs', hkeys.mem_iff.mp hvalues⟩
  · rintro ⟨s, hs, hvalues⟩
    obtain ⟨s', hs', hkeys⟩ := h.exists_mem_of_mem hs
    exact ⟨s', hs', hkeys.mem_iff.mp hvalues⟩

end Document

end PolyCalc.Config
