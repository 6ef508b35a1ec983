import GoStream.Webhook.Episodes

/-!
# The order in which the registry is visited
-/

namespace GoStream.Webhook

open Foundations Engines Inodes

variable {c : Circumstances} {orders : Orders} {t : Target} {event : Event}
variable {entries : List Entry} {e : Entry}

structure Unambiguous (c : Circumstances) (t : Target) (event : Event) (entries : List Entry) :
    Prop where
  exact : ∀ e e', (e ∈ entries ∧ (t.rule e).isSome = true) →
    (e' ∈ entries ∧ (t.rule e').isSome = true) → e = e'
  fuzzy : (∀ e ∈ entries, t.rule e = none) →
    (event = .stop ∨ (t.unlabelled entries).length ≠ 1) →
    ∀ e e', IsBest (t.level c.lowering c.fields) entries e →
      IsBest (t.level c.lowering c.fields) entries e' → e = e'

theorem exact_eq_none (h : ∀ e ∈ entries, t.rule e = none) :
    t.exact (orders.exact.arrange entries) = none := by
  rw [Target.exact, List.find?_eq_none]
  intro e he
  simp [h e (orders.exact.mem_arrange.mp he)]

theorem bootstrap_eq_none_iff : t.bootstrap entries = none ↔ (t.unlabelled entries).length ≠ 1 := by
  unfold Target.bootstrap
  rcases t.unlabelled entries with _ | ⟨e, _ | ⟨e', rest⟩⟩
  · simp
  · simp
  · simp

theorem select_of_no_rule (h : ∀ e ∈ entries, t.rule e = none) :
    t.select c orders event entries =
      (if event = .stop then none else t.bootstrap entries).or
        (t.fuzzy c.lowering c.fields (orders.fuzzy.arrange entries)) := by
  rw [Target.select, exact_eq_none h, Option.none_or, bootstrap_arrange]

theorem select_of_rule (he : e ∈ entries) (hrule : (t.rule e).isSome = true) :
    ∃ e' ∈ entries, (t.rule e').isSome = true ∧ t.select c orders event entries = some e' := by
  cases hexact : t.exact (orders.exact.arrange entries) with
  | none =>
    have hnone := List.find?_eq_none.mp hexact e (orders.exact.mem_arrange.mpr he)
    exact absurd hrule hnone
  | some e' =>
    obtain ⟨hmem, hrule'⟩ := exact_some hexact
    exact ⟨e', hmem, hrule', by rw [Target.select, hexact, Option.some_or, Option.some_or]⟩

theorem Unambiguous.select_eq (h : Unambiguous c t event entries) (orders orders' : Orders) :
    t.select c orders event entries = t.select c orders' event entries := by
  by_cases hnone : ∀ e ∈ entries, t.rule e = none
  · rw [select_of_no_rule hnone, select_of_no_rule hnone]
    by_cases hboot : event = .stop ∨ (t.unlabelled entries).length ≠ 1
    · have hfuzzy := firstBest_eq_iff.mpr (h.fuzzy hnone hboot) orders.fuzzy orders'.fuzzy
      rw [Target.fuzzy, hfuzzy, Target.fuzzy]
    · -- the bootstrap selects, and the titles are not looked at
      obtain ⟨hevent, hone⟩ := not_or.mp hboot
      rw [if_neg hevent]
      cases hselect : t.bootstrap entries with
      | none => exact absurd (bootstrap_eq_none_iff.mp hselect) hone
      | some e => rw [Option.some_or, Option.some_or]
  · push Not at hnone
    obtain ⟨e, he, hrule⟩ := hnone
    have hsome := Option.isSome_iff_ne_none.mpr hrule
    obtain ⟨e₁, hmem₁, hrule₁, hselect₁⟩ := select_of_rule he hsome
    obtain ⟨e₂, hmem₂, hrule₂, hselect₂⟩ := select_of_rule he hsome
    rw [hselect₁, hselect₂, h.exact e₁ e₂ ⟨hmem₁, hrule₁⟩ ⟨hmem₂, hrule₂⟩]

def NotPreempted (c : Circumstances) (orders : Orders) (t : Target) (event : Event)
    (entries : List Entry) : Prop :=
  ∀ e ∈ entries, ∀ rule, t.rule e = some rule →
    ∃ e' rule', t.select c orders event entries = some e' ∧ t.rule e' = some rule' ∧
      rule'.rank ≤ rule.rank

theorem Unambiguous.not_preempted (h : Unambiguous c t event entries) (orders : Orders) :
    NotPreempted c orders t event entries := by
  intro e he rule hrule
  have hsome : (t.rule e).isSome = true := by rw [hrule]; rfl
  obtain ⟨e', hmem, hrule', hselect⟩ := select_of_rule he hsome
  obtain rfl := h.exact e' e ⟨hmem, hrule'⟩ ⟨he, hsome⟩
  exact ⟨e', rule, hselect, hrule, le_rfl⟩

theorem Unambiguous.of_select_eq (h : ∀ orders orders' : Orders,
    t.select c orders event entries = t.select c orders' event entries) :
    Unambiguous c t event entries where
  exact := by
    rintro e e' ⟨he, hrule⟩ ⟨he', hrule'⟩
    obtain ⟨order, rest, horder⟩ := MapOrder.exists_first he
    obtain ⟨order', rest', horder'⟩ := MapOrder.exists_first he'
    have hfirst : t.select c ⟨order, order, order⟩ event entries = some e :=
      select_of_first horder hrule
    have hfirst' : t.select c ⟨order', order', order'⟩ event entries = some e' :=
      select_of_first horder' hrule'
    rw [h ⟨order, order, order⟩ ⟨order', order', order'⟩, hfirst'] at hfirst
    exact (Option.some.inj hfirst).symm
  fuzzy := by
    intro hnone hboot
    have hskip : (if event = .stop then none else t.bootstrap entries) = none := by
      split_ifs with hevent
      · rfl
      · exact bootstrap_eq_none_iff.mpr (hboot.resolve_left hevent)
    apply firstBest_eq_iff.mp
    intro order order'
    have heq := h ⟨order, order, order⟩ ⟨order', order', order'⟩
    rwa [select_of_no_rule hnone, select_of_no_rule hnone, hskip, Option.none_or,
      Option.none_or] at heq

theorem mem_of_selected {r : Registry} {p : Payload} (h : selected c orders r p = some e) :
    e ∈ r.entries := by
  unfold selected at h
  split at h
  · exact (chosen_of_select h).mem
  · cases h

theorem selected_eq_of_path_eq {orders' : Orders} {r : Registry} {p : Payload}
    (h : (selected c orders r p).map Prod.fst = (selected c orders' r p).map Prod.fst) :
    selected c orders r p = selected c orders' r p := by
  cases hsel : selected c orders r p with
  | none =>
    rw [hsel] at h
    exact (Option.map_eq_none_iff.mp h.symm).symm
  | some e =>
    rw [hsel] at h
    obtain ⟨e', hsel', hpath⟩ := Option.map_eq_some_iff.mp h.symm
    rw [hsel', Dict.eq_of_mem_items (mem_of_selected hsel) (mem_of_selected hsel') hpath.symm]

/-- When the order of the registry does not matter. -/
theorem selection_order_irrelevant_iff (c : Circumstances) (r : Registry) (p : Payload) :
    ((∀ orders orders' : Orders,
        (selected c orders r p).map Prod.fst = (selected c orders' r p).map Prod.fst) ∧
      ∀ (orders : Orders) (event : Event) (library : LibraryType),
        p.normalizedEvent = some event → p.libraryType = some library →
        NotPreempted c orders (p.target c.lowering library) event r.entries) ↔
    ∀ (event : Event) (library : LibraryType),
      p.normalizedEvent = some event → p.libraryType = some library →
      Unambiguous c (p.target c.lowering library) event r.entries := by
  constructor
  · rintro ⟨hsame, -⟩ event library hevent hlib
    apply Unambiguous.of_select_eq
    intro orders orders'
    rw [← selected_eq hevent hlib, ← selected_eq hevent hlib]
    exact selected_eq_of_path_eq (hsame orders orders')
  · intro h
    constructor
    · intro orders orders'
      cases hevent : p.normalizedEvent with
      | none => simp [selected, hevent]
      | some event =>
        cases hlib : p.libraryType with
        | none => simp [selected, hlib]
        | some library =>
          rw [selected_eq hevent hlib, selected_eq hevent hlib,
            (h event library hevent hlib).select_eq orders orders']
    · intro orders event library hevent hlib
      exact (h event library hevent hlib).not_preempted orders

def rotatedOrders : Orders := ⟨.startingAt 1, .startingAt 1, .startingAt 1⟩

theorem season_pack_selection_depends_on_order :
    (selected plainText listedOrders seasonPack playSecond).map Prod.fst = some packFirst ∧
    (selected plainText rotatedOrders seasonPack playSecond).map Prod.fst = some packSecond ∧
    (playSecond.target .ascii .tvShow).rule (packFirst, opened []) = some .suffix ∧
    (playSecond.target .ascii .tvShow).rule (packSecond, opened (ascii "tt1")) = some .imdb := by
  decide +kernel

end GoStream.Webhook
