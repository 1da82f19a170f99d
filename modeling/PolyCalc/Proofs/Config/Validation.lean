import PolyCalc.Config.Settings
import PolyCalc.Proofs.Config.Reading
import PolyCalc.Proofs.Config.Tables

set_option autoImplicit false

/-! # Which documents give settings

The sections of a document and the keys of a section have no order of their own, but settings are
made from them one after the other, up to the first one that is at fault. Of what comes out, only
the choice among several faults depends on the order; a document without faults gives the same
settings in every order (`Document.Reordered`, `Settings.applyDocument_reordered`).

A document without faults is one in which every section is known and every key has the values of
its setting (`Document.Admissible`, `SettingKey.Means`). What a list of entries does to a setting is
told by what can be read from it under the key of the setting (`SettingKey.Given`). As no key occurs
twice, this does not depend on the order of the entries, and two lists in a row do what the one that
has the key does (`SettingKey.Given.or`). -/

namespace PolyCalc.LogLevel

theorem ofWord?_eq_some_iff {w : List Char} {level : LogLevel} :
    ofWord? w = some level ↔ level.word = w := by
  constructor
  · intro h
    simpa using List.find?_some h
  · rintro rfl
    cases level <;> decide

theorem word_injective {level level' : LogLevel} (h : level.word = level'.word) :
    level = level' := by
  have hsome := ofWord?_eq_some_iff.mpr h
  rw [ofWord?_eq_some_iff.mpr rfl] at hsome
  exact (Option.some.inj hsome).symm

end PolyCalc.LogLevel

namespace PolyCalc.Config

variable {values : List Value} {s s' : Settings} {k : SettingKey}

/-! ## Settings one by one -/

/-- A value of a setting. -/
inductive Setting where
  | depthLimit (n : Nat)
  | logLevel (level : LogLevel)
  | logFile (on : Bool)

/-- The setting that a value is one of. -/
def Setting.kind : Setting → SettingKey
  | .depthLimit _ => .depthLimit
  | .logLevel _ => .logLevel
  | .logFile _ => .logFile

/-- The value of a setting. -/
def Settings.get (s : Settings) : SettingKey → Setting
  | .depthLimit => .depthLimit s.depthLimit
  | .logLevel => .logLevel s.logLevel
  | .logFile => .logFile s.logFile

/-- Changes one setting. -/
def Settings.put (s : Settings) : Setting → Settings
  | .depthLimit n => { s with depthLimit := n }
  | .logLevel level => { s with logLevel := level }
  | .logFile on => { s with logFile := on }

theorem Settings.get_put (x : Setting) : (s.put x).get k = if x.kind = k then x else s.get k := by
  cases x <;> cases k <;> rfl

theorem Settings.ext_get (h : ∀ k, s.get k = s'.get k) : s = s' := by
  obtain ⟨n, level, on⟩ := s
  obtain ⟨n', level', on'⟩ := s'
  have hdepth := h .depthLimit
  have hlevel := h .logLevel
  have hfile := h .logFile
  simp only [get, Setting.depthLimit.injEq] at hdepth
  simp only [get, Setting.logLevel.injEq] at hlevel
  simp only [get, Setting.logFile.injEq] at hfile
  rw [hdepth, hlevel, hfile]

/-! ## Keys and their values -/

/-- The title of the section in which a setting stands. -/
def SettingKey.title : SettingKey → List Char
  | .depthLimit => "calculator".toList
  | .logLevel | .logFile => "logging".toList

/-- The key under which a setting stands. -/
def SettingKey.key : SettingKey → List Char
  | .depthLimit => "max_depth".toList
  | .logLevel => "loglevel".toList
  | .logFile => "log_file".toList

variable {title key : List Char}

theorem SettingKey.ofKey?_eq_some_iff :
    ofKey? title key = some k ↔ k.title = title ∧ k.key = key := by
  constructor
  · intro h
    unfold ofKey? at h
    split at h
    · next heq =>
      cases h
      exact ⟨heq.1.symm, heq.2.symm⟩
    · split at h
      · next heq =>
        cases h
        exact ⟨heq.1.symm, heq.2.symm⟩
      · split at h
        · next heq =>
          cases h
          exact ⟨heq.1.symm, heq.2.symm⟩
        · cases h
  · rintro ⟨rfl, rfl⟩
    cases k <;> decide

theorem SettingKey.eq_of_title_of_key {k' : SettingKey} (htitle : k.title = k'.title)
    (hkey : k.key = k'.key) : k = k' := by
  have hsome := ofKey?_eq_some_iff.mpr ⟨htitle, hkey⟩
  rw [ofKey?_eq_some_iff.mpr ⟨rfl, rfl⟩] at hsome
  exact (Option.some.inj hsome).symm

/-- The lists of values that a setting may have: one value, a positive integer, the word for a level
    or a truth value. -/
inductive SettingKey.Means : SettingKey → List Value → Setting → Prop
  | depthLimit {i : Int64} : 0 < i → Means .depthLimit [.integer i] (.depthLimit i.toInt.toNat)
  | logLevel (level : LogLevel) : Means .logLevel [.string level.word] (.logLevel level)
  | logFile (on : Bool) : Means .logFile [.boolean on] (.logFile on)

theorem SettingKey.Means.kind_eq {x : Setting} (h : k.Means values x) : x.kind = k := by
  cases h <;> rfl

theorem SettingKey.Means.unique {x y : Setting} (hx : k.Means values x) (hy : k.Means values y) :
    x = y := by
  generalize hvalues : values = values' at hy
  cases hx with
  | depthLimit =>
    cases hy with
    | depthLimit =>
      cases hvalues
      rfl
  | logLevel level =>
    cases hy with
    | logLevel level' =>
      simp only [List.cons.injEq, Value.string.injEq, and_true] at hvalues
      rw [LogLevel.word_injective hvalues]
  | logFile =>
    cases hy with
    | logFile =>
      cases hvalues
      rfl

theorem Settings.set?_eq_some_iff :
    s.set? k values = some s' ↔ ∃ x, k.Means values x ∧ s' = s.put x := by
  constructor
  · intro h
    unfold set? at h
    split at h
    · split at h
      · next hpos =>
        cases h
        exact ⟨_, .depthLimit hpos, rfl⟩
      · cases h
    · obtain ⟨level, hlevel, rfl⟩ := Option.map_eq_some_iff.mp h
      obtain rfl := LogLevel.ofWord?_eq_some_iff.mp hlevel
      exact ⟨_, .logLevel level, rfl⟩
    · cases h
      exact ⟨_, .logFile _, rfl⟩
    · cases h
  · rintro ⟨x, hx, rfl⟩
    cases hx with
    | depthLimit hpos => simp [set?, hpos, put]
    | logLevel level =>
      rw [set?, LogLevel.ofWord?_eq_some_iff.mpr rfl]
      rfl
    | logFile on => rfl

/-! ## Faults -/

variable {entries later : Section} {m d : Document} {e : ConfigError}

/-- What is wrong with a section of a known title. -/
inductive Section.Fault (title : List Char) (entries : Section) : ConfigError → Prop
  | unknownKey {key : List Char} {values : List Value} :
    (key, values) ∈ entries → (∀ k : SettingKey, k.title = title → k.key ≠ key) →
    Fault title entries (.unknownKey title key)
  | invalidValue {k : SettingKey} {values : List Value} :
    k.title = title → (k.key, values) ∈ entries → (∀ x, ¬ k.Means values x) →
    Fault title entries (.invalidValue title k.key values)

/-- What is wrong with a document. -/
inductive Document.Fault (d : Document) : ConfigError → Prop
  | unknownSection {title : List Char} {entries : Section} :
    (title, entries) ∈ d → title ∉ knownTitles → Fault d (.unknownSection title)
  | inSection {title : List Char} {entries : Section} {e : ConfigError} :
    (title, entries) ∈ d → title ∈ knownTitles → entries.Fault title e → Fault d e

/-- Each key stands for a setting of the section, and has values of it. -/
def Section.Admissible (title : List Char) (entries : Section) : Prop :=
  ∀ key values, (key, values) ∈ entries →
    ∃ k : SettingKey, k.title = title ∧ k.key = key ∧ ∃ x, k.Means values x

/-- Each section is known, and so are its keys, which have values of their settings. -/
def Document.Admissible (d : Document) : Prop :=
  ∀ title entries, (title, entries) ∈ d → title ∈ knownTitles ∧ Section.Admissible title entries

theorem Section.admissible_iff :
    Section.Admissible title entries ↔ ∀ e, ¬ Section.Fault title entries e := by
  constructor
  · intro h e hfault
    cases hfault with
    | unknownKey hmem hunknown =>
      obtain ⟨k, htitle, hkey, -⟩ := h _ _ hmem
      exact hunknown k htitle hkey
    | @invalidValue k values htitle hmem hinvalid =>
      obtain ⟨k', htitle', hkey', x, hx⟩ := h _ _ hmem
      obtain rfl := SettingKey.eq_of_title_of_key (htitle'.trans htitle.symm) hkey'
      exact hinvalid x hx
  · intro h key values hmem
    by_contra hnot
    push Not at hnot
    by_cases hknown : ∃ k : SettingKey, k.title = title ∧ k.key = key
    · obtain ⟨k, htitle, rfl⟩ := hknown
      exact h _ (.invalidValue htitle hmem (hnot k htitle rfl))
    · push Not at hknown
      exact h _ (.unknownKey hmem hknown)

theorem Document.admissible_iff : d.Admissible ↔ ∀ e, ¬ d.Fault e := by
  constructor
  · intro h e hfault
    cases hfault with
    | unknownSection hmem hunknown => exact hunknown (h _ _ hmem).1
    | inSection hmem _ hfault => exact Section.admissible_iff.mp (h _ _ hmem).2 _ hfault
  · intro h title entries hmem
    have hknown : title ∈ knownTitles := by
      by_contra hunknown
      exact h _ (.unknownSection hmem hunknown)
    refine ⟨hknown, Section.admissible_iff.mpr ?_⟩
    intro e hfault
    exact h _ (.inSection hmem hknown hfault)

theorem Section.Fault.of_subset (h : Section.Fault title entries e) (hsub : entries ⊆ later) :
    Section.Fault title later e := by
  cases h with
  | unknownKey hmem hunknown => exact .unknownKey (hsub hmem) hunknown
  | invalidValue htitle hmem hinvalid => exact .invalidValue htitle (hsub hmem) hinvalid

/-- A fault of one document is one of every other that has all its entries. -/
theorem Document.Fault.of_entries (h : d.Fault e)
    (hsub : ∀ title entries, (title, entries) ∈ d →
      ∃ entries', (title, entries') ∈ m ∧ entries ⊆ entries') : m.Fault e := by
  cases h with
  | unknownSection hmem hunknown =>
    obtain ⟨entries', hmem', -⟩ := hsub _ _ hmem
    exact .unknownSection hmem' hunknown
  | inSection hmem hknown hfault =>
    obtain ⟨entries', hmem', hsub'⟩ := hsub _ _ hmem
    exact .inSection hmem' hknown (hfault.of_subset hsub')

theorem Document.Fault.cons {first : List Char × Section} (h : d.Fault e) :
    Document.Fault (first :: d) e :=
  h.of_entries fun _ entries hmem => ⟨entries, List.mem_cons_of_mem first hmem, fun _ hx => hx⟩

/-- Faults do not depend on the order. -/
theorem Document.Reordered.fault_iff (h : m.Reordered d) : m.Fault e ↔ d.Fault e := by
  constructor
  · intro hfault
    apply hfault.of_entries
    intro title entries hmem
    obtain ⟨entries', hmem', hkeys⟩ := h.exists_mem hmem
    exact ⟨entries', hmem', hkeys.subset⟩
  · intro hfault
    apply hfault.of_entries
    intro title entries hmem
    obtain ⟨entries', hmem', hkeys⟩ := h.exists_mem_of_mem hmem
    exact ⟨entries', hmem', hkeys.subset⟩

/-! ## One entry -/

/-- A setting after entries that were applied to it: what the values under its key mean, or what it
    was before if there is no such key. -/
def SettingKey.Given (k : SettingKey) : Option (List Value) → Setting → Setting → Prop
  | none, old, new => new = old
  | some values, _, new => k.Means values new

/-- Two lists of entries of which at most one has the key, one after the other. -/
theorem SettingKey.Given.or {first second : Option (List Value)} {old middle new : Setting}
    (hfirst : k.Given first old middle) (hsecond : k.Given second middle new)
    (h : first = none ∨ second = none) : k.Given (first.or second) old new := by
  rcases h with rfl | rfl
  · rw [Option.none_or]
    rw [Given] at hfirst
    exact hfirst ▸ hsecond
  · rw [Option.or_none]
    rw [Given] at hsecond
    exact hsecond ▸ hfirst

theorem Settings.apply_eq_ok_iff :
    s.apply title key values = .ok s' ↔
      ∃ k : SettingKey, k.title = title ∧ k.key = key ∧ ∃ x, k.Means values x ∧ s' = s.put x := by
  unfold apply
  constructor
  · intro h
    split at h
    · cases h
    · next k hk =>
      split at h
      · cases h
      · next s₁ hset =>
        cases h
        obtain ⟨htitle, hkey⟩ := SettingKey.ofKey?_eq_some_iff.mp hk
        exact ⟨k, htitle, hkey, set?_eq_some_iff.mp hset⟩
  · rintro ⟨k, htitle, hkey, hput⟩
    simp only [SettingKey.ofKey?_eq_some_iff.mpr ⟨htitle, hkey⟩, set?_eq_some_iff.mpr hput]

theorem Settings.fault_of_apply (h : s.apply title key values = .error e) :
    Section.Fault title [(key, values)] e := by
  unfold apply at h
  split at h
  · next hnone =>
    cases h
    refine .unknownKey List.mem_cons_self ?_
    intro k htitle hkey
    rw [SettingKey.ofKey?_eq_some_iff.mpr ⟨htitle, hkey⟩] at hnone
    cases hnone
  · next k hk =>
    obtain ⟨htitle, rfl⟩ := SettingKey.ofKey?_eq_some_iff.mp hk
    split at h
    · next hset =>
      cases h
      refine .invalidValue htitle List.mem_cons_self ?_
      intro x hx
      rw [set?_eq_some_iff.mpr ⟨x, hx, rfl⟩] at hset
      cases hset
    · cases h

/-- An entry changes the setting of its key, and no other. -/
theorem Settings.given_of_apply (h : s.apply title key values = .ok s') (k : SettingKey) :
    k.Given (if k.title = title ∧ k.key = key then some values else none) (s.get k) (s'.get k) := by
  obtain ⟨k', htitle, hkey, x, hx, rfl⟩ := apply_eq_ok_iff.mp h
  rw [get_put, hx.kind_eq]
  by_cases hk : k' = k
  · subst hk
    rw [if_pos rfl, if_pos ⟨htitle, hkey⟩]
    exact hx
  · have hother : ¬ (k.title = title ∧ k.key = key) := by
      rintro ⟨htitle', hkey'⟩
      exact hk (SettingKey.eq_of_title_of_key (htitle.trans htitle'.symm) (hkey.trans hkey'.symm))
    rw [if_neg hk, if_neg hother]
    rfl

/-! ## Sections -/

theorem Settings.applySection_cons :
    s.applySection title ((key, values) :: entries) =
      match s.apply title key values with
      | .error e => .error e
      | .ok s₁ => s₁.applySection title entries := by
  rw [applySection]
  cases s.apply title key values <;> rfl

theorem Settings.fault_of_applySection (h : s.applySection title entries = .error e) :
    Section.Fault title entries e := by
  induction entries generalizing s with
  | nil => cases h
  | cons entry entries ih =>
    obtain ⟨key, values⟩ := entry
    rw [applySection_cons] at h
    split at h
    · next happly =>
      cases h
      exact (fault_of_apply happly).of_subset (by simp)
    · exact (ih h).of_subset (List.subset_cons_self _ _)

theorem Settings.admissible_of_applySection (h : s.applySection title entries = .ok s') :
    Section.Admissible title entries := by
  induction entries generalizing s with
  | nil => simp [Section.Admissible]
  | cons entry entries ih =>
    obtain ⟨key, values⟩ := entry
    rw [applySection_cons] at h
    split at h
    · cases h
    · next s₁ happly =>
      obtain ⟨k, htitle, hkey, x, hx, -⟩ := apply_eq_ok_iff.mp happly
      intro key' values' hmem
      rcases List.mem_cons.mp hmem with heq | hmem
      · cases heq
        exact ⟨k, htitle, hkey, x, hx⟩
      · exact ih h key' values' hmem

/-- The values under the key of a setting, if it stands in a section of this title. -/
def SettingKey.valuesIn? (k : SettingKey) (title : List Char) (entries : Section) :
    Option (List Value) :=
  if k.title = title then Table.get? k.key entries else none

theorem SettingKey.valuesIn?_cons :
    k.valuesIn? title ((key, values) :: entries) =
      (if k.title = title ∧ k.key = key then some values else none).or
        (k.valuesIn? title entries) := by
  unfold valuesIn?
  rw [Table.get?]
  by_cases htitle : k.title = title
  · by_cases hkey : k.key = key
    · simp [htitle, hkey]
    · simp [htitle, hkey, Ne.symm hkey]
  · simp [htitle]

/-- The entries of a section change the settings of their keys, and no others. -/
theorem Settings.given_of_applySection (hunique : Table.Unique entries)
    (h : s.applySection title entries = .ok s') (k : SettingKey) :
    k.Given (k.valuesIn? title entries) (s.get k) (s'.get k) := by
  induction entries generalizing s with
  | nil =>
    cases h
    simp [SettingKey.valuesIn?, Table.get?, SettingKey.Given]
  | cons entry entries ih =>
    obtain ⟨key, values⟩ := entry
    obtain ⟨hnew, hunique⟩ := List.nodup_cons.mp hunique
    rw [applySection_cons] at h
    split at h
    · cases h
    · next s₁ happly =>
      rw [SettingKey.valuesIn?_cons]
      refine (given_of_apply happly k).or (ih hunique h) ?_
      by_cases hkey : k.title = title ∧ k.key = key
      · right
        obtain ⟨htitle, rfl⟩ := hkey
        rw [SettingKey.valuesIn?, if_pos htitle, Table.get?_eq_none_iff]
        exact hnew
      · left
        rw [if_neg hkey]

/-! ## Documents -/

theorem Settings.applyDocument_cons :
    s.applyDocument ((title, entries) :: d) =
      if title ∈ knownTitles then
        match s.applySection title entries with
        | .error e => .error e
        | .ok s₁ => s₁.applyDocument d
      else .error (.unknownSection title) := by
  rw [applyDocument]
  split
  · cases s.applySection title entries <;> rfl
  · rfl

theorem Settings.fault_of_applyDocument (h : s.applyDocument d = .error e) : d.Fault e := by
  induction d generalizing s with
  | nil => cases h
  | cons first d ih =>
    obtain ⟨title, entries⟩ := first
    rw [applyDocument_cons] at h
    split at h
    · next hknown =>
      split at h
      · next hsection =>
        cases h
        exact .inSection List.mem_cons_self hknown (fault_of_applySection hsection)
      · exact (ih h).cons
    · next hunknown =>
      cases h
      exact .unknownSection List.mem_cons_self hunknown

theorem Settings.admissible_of_applyDocument (h : s.applyDocument d = .ok s') : d.Admissible := by
  induction d generalizing s with
  | nil => simp [Document.Admissible]
  | cons first d ih =>
    obtain ⟨title, entries⟩ := first
    rw [applyDocument_cons] at h
    split at h
    · next hknown =>
      split at h
      · cases h
      · next s₁ hsection =>
        intro title' entries' hmem
        rcases List.mem_cons.mp hmem with heq | hmem
        · cases heq
          exact ⟨hknown, admissible_of_applySection hsection⟩
        · exact ih h title' entries' hmem
    · cases h

theorem Document.values?_cons (k : SettingKey) (hnew : title ∉ d.titles) :
    Document.values? k.title k.key ((title, entries) :: d) =
      (k.valuesIn? title entries).or (d.values? k.title k.key) := by
  unfold values? SettingKey.valuesIn?
  rw [Table.get?]
  by_cases htitle : title = k.title
  · subst htitle
    rw [if_pos rfl, if_pos rfl, Table.get?_eq_none_iff.mpr hnew]
    simp
  · rw [if_neg htitle, if_neg (Ne.symm htitle), Option.none_or]

/-- The entries of a document change the settings of their keys, and no others. -/
theorem Settings.given_of_applyDocument (htitles : Table.Unique d)
    (hkeys : ∀ title entries, (title, entries) ∈ d → Table.Unique entries)
    (h : s.applyDocument d = .ok s') (k : SettingKey) :
    k.Given (d.values? k.title k.key) (s.get k) (s'.get k) := by
  induction d generalizing s with
  | nil =>
    cases h
    simp [Document.values?, Table.get?, SettingKey.Given]
  | cons first d ih =>
    obtain ⟨title, entries⟩ := first
    obtain ⟨hnew, htitles⟩ := List.nodup_cons.mp htitles
    have hunique := hkeys title entries List.mem_cons_self
    rw [applyDocument_cons] at h
    split at h
    · split at h
      · cases h
      · next s₁ hsection =>
        have hlater := ih htitles (fun t u hmem => hkeys t u (List.mem_cons_of_mem _ hmem)) h
        rw [Document.values?_cons k hnew]
        refine (given_of_applySection hunique hsection k).or hlater ?_
        by_cases htitle : k.title = title
        · right
          subst htitle
          rw [Document.values?, Table.get?_eq_none_iff.mpr hnew]
          rfl
        · left
          rw [SettingKey.valuesIn?, if_neg htitle]
    · cases h

/-- The settings follow the document: each has the value that the document gives it, and its default
    where the document does not mention it. -/
def Settings.Follows (s : Settings) (d : Document) : Prop :=
  ∀ k : SettingKey, k.Given (d.values? k.title k.key) (({} : Settings).get k) (s.get k)

theorem SettingKey.Given.unique {given : Option (List Value)} {old x y : Setting}
    (hx : k.Given given old x) (hy : k.Given given old y) : x = y := by
  cases given with
  | none =>
    rw [Given] at hx hy
    rw [hx, hy]
  | some values => exact Means.unique hx hy

/-- Of the settings that follow a document there is one. -/
theorem Settings.Follows.unique (h : s.Follows d) (h' : s'.Follows d) : s = s' :=
  ext_get fun k => (h k).unique (h' k)

/-- One order of a document, compared with another one. -/
theorem Settings.applyDocument_reordered (hm : m.WellFormed) (h : m.Reordered d) :
    (∃ s : Settings, Settings.applyDocument {} d = .ok s ∧ m.Admissible ∧ s.Follows m) ∨
      ∃ e, Settings.applyDocument {} d = .error e ∧ m.Fault e := by
  have hd := h.wellFormed hm
  cases happly : Settings.applyDocument {} d with
  | ok s =>
    left
    refine ⟨s, rfl, ?_, ?_⟩
    · rw [Document.admissible_iff]
      intro e hfault
      have hadmissible := Document.admissible_iff.mp (admissible_of_applyDocument happly)
      exact hadmissible e (h.fault_iff.mp hfault)
    · intro k
      rw [h.values?_eq hm]
      exact given_of_applyDocument hd.unique_titles hd.unique_keys happly k
  | error e =>
    right
    exact ⟨e, rfl, h.fault_iff.mpr (fault_of_applyDocument happly)⟩

/-- Settings are made from a document exactly if it is admissible. They follow it, and are the same
    in every order of its sections and keys. Otherwise the error is a fault of the document in every
    order, and is the same in every order if there is no other fault. -/
theorem Settings.ofText_exact {text : List Char} (h : Document.parse text = .ok m) :
    Settings.ofText text = Settings.applyDocument {} m ∧
      (∀ d, m.Reordered d → ((∃ s, Settings.applyDocument {} d = .ok s) ↔ m.Admissible)) ∧
      (m.Admissible → ∃ s : Settings, s.Follows m ∧
        ∀ d, m.Reordered d → Settings.applyDocument {} d = .ok s) ∧
      (¬ m.Admissible → ∀ d, m.Reordered d →
        ∃ e, Settings.applyDocument {} d = .error e ∧ m.Fault e) ∧
      ∀ e, m.Fault e → (∀ e', m.Fault e' → e' = e) →
        ∀ d, m.Reordered d → Settings.applyDocument {} d = .error e := by
  have hm := wellFormed_of_parse h
  have hfaulty : ∀ e, m.Fault e → ¬ m.Admissible :=
    fun e hfault hadmissible => Document.admissible_iff.mp hadmissible e hfault
  refine ⟨?_, ?_, ?_, ?_, ?_⟩
  · unfold ofText
    rw [h]
  · intro d hd
    rcases applyDocument_reordered hm hd with ⟨s, happly, hadmissible, -⟩ | ⟨e, happly, hfault⟩
    · simp [happly, hadmissible]
    · simp [happly, hfaulty e hfault]
  · intro hadmissible
    have hsettings : ∀ d, m.Reordered d →
        ∃ s : Settings, Settings.applyDocument {} d = .ok s ∧ s.Follows m := by
      intro d hd
      rcases applyDocument_reordered hm hd with ⟨s, happly, -, hfollows⟩ | ⟨e, -, hfault⟩
      · exact ⟨s, happly, hfollows⟩
      · exact absurd hadmissible (hfaulty e hfault)
    obtain ⟨s, -, hfollows⟩ := hsettings m (.refl m)
    refine ⟨s, hfollows, ?_⟩
    intro d hd
    obtain ⟨s', happly, hfollows'⟩ := hsettings d hd
    rw [happly, hfollows'.unique hfollows]
  · intro hnot d hd
    rcases applyDocument_reordered hm hd with ⟨s, -, hadmissible, -⟩ | herror
    · exact absurd hadmissible hnot
    · exact herror
  · intro e hfault honly d hd
    rcases applyDocument_reordered hm hd with ⟨s, -, hadmissible, -⟩ | ⟨e', happly, hfault'⟩
    · exact absurd hadmissible (hfaulty e hfault)
    · rw [happly, honly e' hfault']

/-- A document that gives settings, and one of which one key is at fault. -/
theorem Settings.ofText_exact_logging :
    (∀ d, Document.Reordered [("logging".toList, [("log_file".toList, [.boolean true])]),
        ("calculator".toList, [("max_depth".toList, [.integer 9])])] d →
      Settings.applyDocument {} d = .ok ⟨9, .off, true⟩) ∧
    ∀ d, Document.Reordered [("logging".toList, [("loglevel".toList, [.string "warn".toList]),
        ("log_file".toList, [.string "yes".toList])])] d →
      Settings.applyDocument {} d = .error
        (.invalidValue "logging".toList "log_file".toList [.string "yes".toList]) := by
  refine ⟨?_, ?_⟩
  · have hparse : Document.parse "logging log_file: true\ncalculator max_depth: 9".toList =
        .ok [("logging".toList, [("log_file".toList, [.boolean true])]),
          ("calculator".toList, [("max_depth".toList, [.integer 9])])] := by decide +kernel
    obtain ⟨-, hiff, hok, -⟩ := ofText_exact hparse
    obtain ⟨s, -, hs⟩ := hok ((hiff _ (.refl _)).mp ⟨⟨9, .off, true⟩, by decide⟩)
    have hvalue : Settings.applyDocument {} _ = .ok s := hs _ (.refl _)
    cases hvalue
    exact hs
  · have hparse : Document.parse "logging loglevel: warn log_file: yes".toList =
        .ok [("logging".toList, [("loglevel".toList, [.string "warn".toList]),
          ("log_file".toList, [.string "yes".toList])])] := by decide +kernel
    obtain ⟨-, -, -, -, hfault⟩ := ofText_exact hparse
    refine hfault _ ?_ ?_
    · refine .inSection List.mem_cons_self (by decide) ?_
      refine Section.Fault.invalidValue (k := .logFile) rfl (by decide) ?_
      rintro x ⟨⟩
    · intro e he
      cases he with
      | unknownSection hmem hunknown =>
        simp only [List.mem_singleton, Prod.mk.injEq] at hmem
        obtain ⟨rfl, -⟩ := hmem
        exact absurd (by decide) hunknown
      | inSection hmem hknown hsection =>
        simp only [List.mem_singleton, Prod.mk.injEq] at hmem
        obtain ⟨rfl, rfl⟩ := hmem
        cases hsection with
        | unknownKey hkey hunknown =>
          simp only [List.mem_cons, Prod.mk.injEq, List.not_mem_nil, or_false] at hkey
          rcases hkey with ⟨rfl, -⟩ | ⟨rfl, -⟩
          · exact absurd rfl (hunknown .logLevel rfl)
          · exact absurd rfl (hunknown .logFile rfl)
        | @invalidValue k values htitle hkey hinvalid =>
          simp only [List.mem_cons, Prod.mk.injEq, List.not_mem_nil, or_false] at hkey
          rcases hkey with ⟨hkey, rfl⟩ | ⟨hkey, rfl⟩
          · obtain rfl : k = .logLevel := SettingKey.eq_of_title_of_key htitle hkey
            exact absurd (.logLevel .warn) (hinvalid (.logLevel .warn))
          · rw [hkey]

end PolyCalc.Config
