import Mathlib.Data.List.Nodup
import Mathlib.Tactic

/-!
# The first record of every key
-/

namespace GoStream.Foundations

variable {α κ ι : Type*} [DecidableEq κ] {key : α → Option κ}

def firsts (key : α → Option κ) : List κ → List α → List α
  | _, [] => []
  | seen, a :: l =>
    match key a with
    | none => firsts key seen l
    | some k => if seen.contains k then firsts key seen l else a :: firsts key (k :: seen) l

theorem firsts_cons_none {seen : List κ} {a : α} {l : List α} (h : key a = none) :
    firsts key seen (a :: l) = firsts key seen l := by
  rw [firsts, h]

theorem firsts_cons_seen {seen : List κ} {a : α} {l : List α} {k : κ} (h : key a = some k)
    (hk : k ∈ seen) : firsts key seen (a :: l) = firsts key seen l := by
  simp only [firsts, h]
  rw [if_pos (List.contains_iff_mem.mpr hk)]

theorem firsts_cons_new {seen : List κ} {a : α} {l : List α} {k : κ} (h : key a = some k)
    (hk : k ∉ seen) : firsts key seen (a :: l) = a :: firsts key (k :: seen) l := by
  simp only [firsts, h]
  rw [if_neg (mt List.contains_iff_mem.mp hk)]

theorem mem_firsts {l : List α} {seen : List κ} {a : α} : a ∈ firsts key seen l ↔
    ∃ k, key a = some k ∧ k ∉ seen ∧ l.find? (fun b => key b = some k) = some a := by
  induction l generalizing seen with
  | nil => simp [firsts]
  | cons b l ih =>
    have hpass : ∀ k, key b ≠ some k →
        (b :: l).find? (fun b => key b = some k) = l.find? fun b => key b = some k := by
      intro k hne
      exact List.find?_cons_of_neg (by simpa using hne)
    cases hb : key b with
    | none =>
      rw [firsts_cons_none hb, ih]
      refine exists_congr fun k => ?_
      rw [hpass k (by rw [hb]; simp)]
    | some k₀ =>
      by_cases hseen : k₀ ∈ seen
      · rw [firsts_cons_seen hb hseen, ih]
        refine exists_congr fun k => and_congr_right fun _ => and_congr_right fun hk => ?_
        rw [hpass k]
        intro heq
        exact hk (Option.some.inj (hb.symm.trans heq) ▸ hseen)
      · rw [firsts_cons_new hb hseen, List.mem_cons, ih]
        have hfirst : (b :: l).find? (fun b => key b = some k₀) = some b :=
          List.find?_cons_of_pos (by simpa using hb)
        constructor
        · rintro (rfl | ⟨k, hk, hnew, hfind⟩)
          · exact ⟨k₀, hb, hseen, hfirst⟩
          · rw [List.mem_cons, not_or] at hnew
            refine ⟨k, hk, hnew.2, ?_⟩
            rwa [hpass k]
            rw [hb]
            exact fun heq => hnew.1 (Option.some.inj heq).symm
        · rintro ⟨k, hk, hnew, hfind⟩
          by_cases heq : k = k₀
          · subst heq
            exact .inl (Option.some.inj (hfirst.symm.trans hfind)).symm
          · rw [hpass k (by rw [hb]; exact fun h => heq (Option.some.inj h).symm)] at hfind
            refine .inr ⟨k, hk, ?_, hfind⟩
            exact fun hmem => (List.mem_cons.mp hmem).elim heq hnew

theorem nodup_firsts (l : List α) (seen : List κ) : ((firsts key seen l).map key).Nodup := by
  induction l generalizing seen with
  | nil => exact List.nodup_nil
  | cons b l ih =>
    cases hb : key b with
    | none =>
      rw [firsts_cons_none hb]
      exact ih seen
    | some k =>
      by_cases hseen : k ∈ seen
      · rw [firsts_cons_seen hb hseen]
        exact ih seen
      · rw [firsts_cons_new hb hseen, List.map_cons, List.nodup_cons]
        refine ⟨fun hmem => ?_, ih (k :: seen)⟩
        obtain ⟨a, ha, hkey⟩ := List.mem_map.mp hmem
        obtain ⟨k', hk', hnew, -⟩ := mem_firsts.mp ha
        obtain rfl : k' = k := Option.some.inj (hk'.symm.trans (hkey.trans hb))
        exact hnew (by simp)

variable {ok : α → Bool} {answers : ι → List α} {l p : List ι}

def merged (key : α → Option κ) (ok : α → Bool) (answers : ι → List α) (l : List ι) : List α :=
  (firsts key [] (l.flatMap answers)).filter ok

def Agreeing (key : α → Option κ) (ok : α → Bool) (answers : ι → List α) (l : List ι) : Prop :=
  ∀ k, ∀ i ∈ l, ∀ j ∈ l, ∀ a b, (answers i).find? (fun x => key x = some k) = some a →
    (answers j).find? (fun x => key x = some k) = some b → ok a = ok b

theorem mem_keys_merged {k : κ} : some k ∈ (merged key ok answers l).map key ↔
    ∃ a, l.findSome? (fun i => (answers i).find? fun x => key x = some k) = some a ∧ ok a = true := by
  rw [← List.find?_flatMap]
  constructor
  · intro hmem
    obtain ⟨a, ha, hkey⟩ := List.mem_map.mp hmem
    obtain ⟨hfirst, hok⟩ := List.mem_filter.mp ha
    obtain ⟨k', hk', -, hfind⟩ := mem_firsts.mp hfirst
    obtain rfl : k' = k := Option.some.inj (hk'.symm.trans hkey)
    exact ⟨a, hfind, hok⟩
  · rintro ⟨a, hfind, hok⟩
    have hkey : key a = some k := by simpa using List.find?_some hfind
    refine List.mem_map.mpr ⟨a, List.mem_filter.mpr ⟨?_, hok⟩, hkey⟩
    exact mem_firsts.mpr ⟨k, hkey, by simp, hfind⟩

theorem nodup_keys_merged : ((merged key ok answers l).map key).Nodup :=
  (nodup_firsts _ _).sublist (List.filter_sublist.map key)

theorem Agreeing.mem_keys_iff (h : Agreeing key ok answers l) (hp : p.Perm l) {k : κ} :
    some k ∈ (merged key ok answers p).map key ↔
      ∃ i ∈ l, ∃ a, (answers i).find? (fun x => key x = some k) = some a ∧ ok a = true := by
  rw [mem_keys_merged]
  constructor
  · rintro ⟨a, hfind, hok⟩
    obtain ⟨i, hi, ha⟩ := List.exists_of_findSome?_eq_some hfind
    exact ⟨i, hp.mem_iff.mp hi, a, ha, hok⟩
  · rintro ⟨i, hi, a, ha, hok⟩
    have hsome : (p.findSome? fun i => (answers i).find? fun x => key x = some k).isSome = true := by
      rw [List.findSome?_isSome_iff]
      exact ⟨i, hp.mem_iff.mpr hi, by rw [ha]; rfl⟩
    obtain ⟨b, hb⟩ := Option.isSome_iff_exists.mp hsome
    obtain ⟨j, hj, hfind⟩ := List.exists_of_findSome?_eq_some hb
    refine ⟨b, hb, ?_⟩
    rw [← hok]
    exact h k j (hp.mem_iff.mp hj) i hi b a hfind ha

theorem merged_keys_iff : (∀ p p', p.Perm l → p'.Perm l → ∀ k,
    some k ∈ (merged key ok answers p).map key ↔ some k ∈ (merged key ok answers p').map key) ↔
      Agreeing key ok answers l := by
  constructor
  · intro h k i hi j hj a b ha hb
    -- the answer that arrives first decides
    have hdecides : ∀ i ∈ l, ∀ a, (answers i).find? (fun x => key x = some k) = some a →
        ∃ p, p.Perm l ∧ (some k ∈ (merged key ok answers p).map key ↔ ok a = true) := by
      intro i hi a ha
      obtain ⟨s, t, rfl⟩ := List.append_of_mem hi
      refine ⟨i :: (s ++ t), List.perm_middle.symm, ?_⟩
      rw [mem_keys_merged, List.findSome?_cons_of_isSome (by rw [ha]; rfl), ha]
      simp
    obtain ⟨p, hp, hpa⟩ := hdecides i hi a ha
    obtain ⟨p', hp', hpb⟩ := hdecides j hj b hb
    rw [Bool.eq_iff_iff, ← hpa, ← hpb]
    exact h p p' hp hp' k
  · intro h p p' hp hp' k
    rw [h.mem_keys_iff hp, h.mem_keys_iff hp']

end GoStream.Foundations
