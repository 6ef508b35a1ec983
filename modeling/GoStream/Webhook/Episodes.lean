import GoStream.Webhook.Matching

/-!
# Which episode a webhook acts on
-/

namespace GoStream.Webhook

open Foundations Engines Inodes

variable {c : Circumstances} {orders : Orders} {t : Target} {event : Event}
variable {entries : List Entry} {e : Entry}

inductive Chosen (c : Circumstances) (t : Target) (event : Event) (entries : List Entry) :
    Entry → Prop
  | exact (e : Entry) (hmem : e ∈ entries) (hrule : (t.rule e).isSome = true) :
      Chosen c t event entries e
  | bootstrap (e : Entry) (hevent : event ≠ .stop) (honly : t.unlabelled entries = [e]) :
      Chosen c t event entries e
  | fuzzy (e : Entry) (hbest : IsBest (t.level c.lowering c.fields) entries e) :
      Chosen c t event entries e

theorem exact_some (h : t.exact (orders.exact.arrange entries) = some e) :
    e ∈ entries ∧ (t.rule e).isSome = true := by
  unfold Target.exact at h
  have hrule := List.find?_some h
  exact ⟨orders.exact.mem_arrange.mp (List.mem_of_find?_eq_some h), hrule⟩

theorem bootstrap_arrange (order : MapOrder) (t : Target) (entries : List Entry) :
    t.bootstrap (order.arrange entries) = t.bootstrap entries := by
  have hperm : (t.unlabelled (order.arrange entries)).Perm (t.unlabelled entries) :=
    (order.perm entries).filter _
  unfold Target.bootstrap
  rcases hlist : t.unlabelled entries with _ | ⟨e, _ | ⟨e', rest⟩⟩
  · rw [hlist] at hperm
    rw [hperm.eq_nil]
  · rw [hlist] at hperm
    rw [List.perm_singleton.mp hperm]
  · rw [hlist] at hperm
    have hlen := hperm.length_eq
    rcases hlist' : t.unlabelled (order.arrange entries) with _ | ⟨d, _ | ⟨d', rest'⟩⟩
    · rfl
    · rw [hlist'] at hlen
      simp at hlen
    · rfl

theorem bootstrap_some (h : t.bootstrap entries = some e) : t.unlabelled entries = [e] := by
  unfold Target.bootstrap at h
  split at h
  · next e' hlist =>
    obtain rfl := Option.some.inj h
    exact hlist
  · cases h

theorem chosen_of_select (h : t.select c orders event entries = some e) :
    Chosen c t event entries e := by
  unfold Target.select at h
  rcases Option.or_eq_some_iff.mp h with hfirst | ⟨-, hfuzzy⟩
  · rcases Option.or_eq_some_iff.mp hfirst with hexact | ⟨-, hboot⟩
    · obtain ⟨hmem, hrule⟩ := exact_some hexact
      exact .exact e hmem hrule
    · split_ifs at hboot with hevent
      rw [bootstrap_arrange] at hboot
      exact .bootstrap e hevent (bootstrap_some hboot)
  · exact .fuzzy e ((isBest_of_firstBest hfuzzy).perm (orders.fuzzy.perm entries))

theorem Chosen.mem (h : Chosen c t event entries e) : e ∈ entries := by
  cases h with
  | exact hmem hrule => exact hmem
  | bootstrap hevent honly =>
    have hmem : e ∈ t.unlabelled entries := by rw [honly]; simp
    exact List.mem_of_mem_filter hmem
  | fuzzy hbest => exact hbest.mem

theorem select_of_first {rest : List Entry} (horder : orders.exact.arrange entries = e :: rest)
    (hrule : (t.rule e).isSome = true) : t.select c orders event entries = some e := by
  have hexact : t.exact (e :: rest) = some e := by simp [Target.exact, hrule]
  rw [Target.select, horder, hexact, Option.some_or, Option.some_or]

def Target.Names (t : Target) (path : Bytes) : Prop :=
  (t.suffix ≠ [] ∧ extractHashSuffix path = t.suffix) ∨
    ∃ f ∈ t.files, filepathBase f = filepathBase path

theorem rule_isSome_of_names (h : t.Names e.1) : (t.rule e).isSome = true := by
  unfold Target.rule
  split_ifs with himdb hsuffix hfile
  · rfl
  · rfl
  · rfl
  · rcases h with hsuff | ⟨f, hf, hbase⟩
    · exact absurd hsuff hsuffix
    · exact absurd (List.any_eq_true.mpr ⟨f, hf, by simpa using hbase⟩) hfile

theorem names_or_matches_of_rule (h : (t.rule e).isSome = true) :
    t.Names e.1 ∨ pathMatchesWebhookEpisode e.1 t = true := by
  unfold Target.rule at h
  split_ifs at h with himdb hsuffix hfile
  · exact .inr himdb.2.2.2
  · exact .inl (.inl hsuffix)
  · obtain ⟨f, hf, hbase⟩ := List.any_eq_true.mp hfile
    exact .inl (.inr ⟨f, hf, by simpa using hbase⟩)
  · cases h

theorem pathMatches_of_level_pos (h : 0 < t.level c.lowering c.fields e) :
    pathMatchesWebhookEpisode e.1 t = true := by
  unfold Target.level at h
  split_ifs at h with hmatch
  · exact hmatch
  · omega

theorem Chosen.names_or_matches (h : Chosen c t event entries e) :
    t.Names e.1 ∨ pathMatchesWebhookEpisode e.1 t = true := by
  cases h with
  | exact hmem hrule => exact names_or_matches_of_rule hrule
  | bootstrap hevent honly =>
    have hmem : e ∈ t.unlabelled entries := by rw [honly]; simp
    have hpass := (List.mem_filter.mp hmem).2
    simp only [Bool.and_eq_true] at hpass
    exact .inr hpass.2
  | fuzzy hbest => exact .inr (pathMatches_of_level_pos hbest.pos)

theorem pathMatches_show {n : ℤ} {path : Bytes} (hlib : t.library = .tvShow)
    (hep : t.episode = some n) :
    pathMatchesWebhookEpisode path t = true ↔ extractPathEpisodeNumber path = some n := by
  simp [pathMatchesWebhookEpisode, hlib, hep]

def Act.path : Act → Option Bytes
  | .confirmed path => some path
  | .stopped path => some path
  | .pumpTerminated path => some path
  | .shieldReset => none
  | .prioritized _ _ => none

structure Untouched (path : Bytes) (w : World) (r : World × List Act) : Prop where
  acts : ∀ a ∈ r.2, a.path ≠ some path
  state : r.1.registry.states.lookup path = w.registry.states.lookup path
  pump : path ∈ r.1.activePumps ↔ path ∈ w.activePumps

theorem Untouched.refl (path : Bytes) (w : World) : Untouched path w (w, []) :=
  ⟨by simp, rfl, Iff.rfl⟩

theorem path_of_mem_prioritize {hash : Bytes} {on : Bool} {a : Act}
    (h : a ∈ prioritize c hash on) : a.path = none := by
  unfold prioritize at h
  split_ifs at h
  · rw [List.mem_singleton.mp h]
    rfl
  · cases h

theorem path_of_mem_respond {w : World} {h : e.1 ≠ []} {a : Act} {path : Bytes}
    (ha : a ∈ (respond c t event w e h).2) (hpath : a.path = some path) : path = e.1 := by
  have hpriority : ∀ {hash : Bytes} {on : Bool}, a ∉ prioritize c hash on := by
    intro hash on hmem
    rw [path_of_mem_prioritize hmem] at hpath
    cases hpath
  cases event with
  | stop =>
    simp only [respond, List.mem_cons, List.mem_append] at ha
    rcases ha with rfl | hpump | rfl | hmem
    · exact (Option.some.inj hpath).symm
    · split_ifs at hpump
      · rw [List.mem_singleton.mp hpump] at hpath
        exact (Option.some.inj hpath).symm
      · cases hpump
    · cases hpath
    · exact absurd hmem hpriority
  | play | resume =>
    rcases List.mem_cons.mp ha with rfl | hmem
    · exact (Option.some.inj hpath).symm
    · exact absurd hmem hpriority

theorem respond_untouched {w : World} {path : Bytes} (h : e.1 ≠ []) (hne : path ≠ e.1) :
    Untouched path w (respond c t event w e h) where
  acts := fun _ ha hpath => hne (path_of_mem_respond ha hpath)
  state := by cases event <;> exact AList.lookup_insert_ne hne
  pump := by cases event <;> simp [respond, hne]

theorem respond_touches {w : World} (h : e.1 ≠ []) :
    ¬ Untouched e.1 w (respond c t event w e h) := by
  intro hleft
  cases event with
  | stop => exact hleft.acts (.stopped e.1) (by simp [respond]) rfl
  | play | resume => exact hleft.acts (.confirmed e.1) (by simp [respond]) rfl

theorem untouched_iff_not_selected {w : World} {p : Payload} {path : Bytes} :
    Untouched path w (handlePlexWebhook c orders w p) ↔
      ∀ e, selected c orders w.registry p = some e → e.1 ≠ path := by
  unfold handlePlexWebhook selected
  cases p.normalizedEvent with
  | none => simpa using Untouched.refl path w
  | some event =>
    cases p.libraryType with
    | none => simpa using Untouched.refl path w
    | some library =>
      dsimp only
      cases hselect : (p.target c.lowering library).select c orders event w.registry.entries with
      | none => simpa using Untouched.refl path w
      | some e =>
        have hne := Registry.path_ne_nil (chosen_of_select hselect).mem
        simp only [dif_pos hne, Option.some.injEq, forall_eq']
        constructor
        · rintro hleft rfl
          exact respond_touches hne hleft
        · intro hpath
          exact respond_untouched hne (Ne.symm hpath)

def OtherEpisode (n : ℤ) (path : Bytes) : Prop :=
  ∃ m, extractPathEpisodeNumber path = some m ∧ m ≠ n

theorem selected_eq {r : Registry} {p : Payload} {library : LibraryType}
    (hevent : p.normalizedEvent = some event) (hlib : p.libraryType = some library) :
    selected c orders r p = (p.target c.lowering library).select c orders event r.entries := by
  rw [selected, hevent, hlib]

/-- When a webhook leaves other episodes alone. -/
theorem other_episodes_untouched_iff (c : Circumstances) (w : World) (p : Payload) (n : ℤ)
    (hlib : p.libraryType = some .tvShow)
    (hep : extractWebhookEpisodeNumber (c.lowering.lower p.title) = some n) :
    (∀ (orders : Orders) (path : Bytes), OtherEpisode n path →
      Untouched path w (handlePlexWebhook c orders w p)) ↔
    (p.normalizedEvent.isSome = true → ∀ path ∈ w.registry.states, OtherEpisode n path →
      ¬ (p.target c.lowering .tvShow).Names path) := by
  constructor
  · intro huntouched hevent path hpath hother hnames
    obtain ⟨event, hevent⟩ := Option.isSome_iff_exists.mp hevent
    obtain ⟨state, hstate⟩ := Option.isSome_iff_exists.mp (AList.lookup_isSome.mpr hpath)
    have hentry : (path, state) ∈ w.registry.entries := Dict.mem_items.mpr hstate
    obtain ⟨order, rest, horder⟩ := MapOrder.exists_first hentry
    -- the registry is visited from this path on
    let orders : Orders := ⟨order, order, order⟩
    have hselect : selected c orders w.registry p = some (path, state) := by
      rw [selected_eq hevent hlib]
      exact select_of_first horder (rule_isSome_of_names hnames)
    exact untouched_iff_not_selected.mp (huntouched orders path hother) _ hselect rfl
  · intro hnames orders path hother
    rw [untouched_iff_not_selected]
    rintro e hselect rfl
    obtain ⟨m, hm, hne⟩ := hother
    cases hevent : p.normalizedEvent with
    | none => simp [selected, hevent] at hselect
    | some event =>
      rw [selected_eq hevent hlib] at hselect
      have hchosen := chosen_of_select hselect
      rcases hchosen.names_or_matches with hnamed | hmatch
      · have hpath := Dict.mem_keys_of_mem_items hchosen.mem
        exact hnames (by simp [hevent]) e.1 hpath ⟨m, hm, hne⟩ hnamed
      · rw [pathMatches_show rfl hep, hm] at hmatch
        exact hne (Option.some.inj hmatch)

def packFirst : Bytes := ascii "/tv/Show_S01E01_0a1b2c3d.mkv"

def packSecond : Bytes := ascii "/tv/Show_S01E02_0a1b2c3d.mkv"

def opened (imdbID : Bytes) : PlaybackState := ⟨[], imdbID, 0, false, false⟩

def seasonPack : Registry where
  states := AList.insert packFirst (opened []) (AList.singleton packSecond (opened (ascii "tt1")))
  named := by decide +kernel

def playSecond : Payload where
  text := ascii "\"imdb://tt1\""
  event := ascii "media.play"
  title := ascii "Episode 2"
  grandparentTitle := ascii "Show"
  year := 2020
  librarySectionType := ascii "show"
  media := [[ascii "/srv/Show_S01E02_0a1b2c3d.mkv"]]

def plainText : Circumstances where
  lowering := .ascii
  fields := fun s => (s.splitOnP isBlank).filter (· ≠ [])
  now := 0
  loaded := fun _ => false

def listedOrders : Orders := ⟨.listed, .listed, .listed⟩

theorem localized_title_untouched :
    extractWebhookEpisodeNumber (ascii "episodio 2") = some 2 ∧
    ∀ (orders : Orders) (path : Bytes), OtherEpisode 2 path →
      Untouched path ⟨seasonPack, [packFirst]⟩ (handlePlexWebhook plainText orders
        ⟨seasonPack, [packFirst]⟩
        { playSecond with title := ascii "Episodio 2", media := [] }) := by
  refine ⟨by decide +kernel, ?_⟩
  rw [other_episodes_untouched_iff plainText _ _ 2 (by decide +kernel) (by decide +kernel)]
  intro _ path _ _ hnames
  rcases hnames with ⟨hsuffix, -⟩ | ⟨f, hf, -⟩
  · exact hsuffix rfl
  · cases hf

theorem season_pack_wrong_episode :
    extractWebhookEpisodeNumber (ascii "episode 2") = some 2 ∧
    extractPathEpisodeNumber packFirst = some 1 ∧
    (handlePlexWebhook plainText listedOrders ⟨seasonPack, [packFirst]⟩ playSecond).2 =
      [.confirmed packFirst] ∧
    (handlePlexWebhook plainText listedOrders ⟨seasonPack, [packFirst]⟩
      { playSecond with event := ascii "media.stop" }).2 =
      [.stopped packFirst, .pumpTerminated packFirst, .shieldReset] := by
  decide +kernel

end GoStream.Webhook
