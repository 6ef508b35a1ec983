import GoStream.Foundations.Ledger
import Mathlib.Tactic

/-!
# A directory of sparse files with its journal
-/

namespace GoStream.Foundations

abbrev Bytes := List UInt8

def pwrite (f : Bytes) (off : ℕ) (d : Bytes) : Bytes :=
  if d = [] then f
  else (f ++ List.replicate (off - f.length) 0).take off ++ d ++ f.drop (off + d.length)

def pread (f : Bytes) (off n : ℕ) : Bytes := (f.drop off).take n

theorem length_pwrite (f : Bytes) (off : ℕ) {d : Bytes} (hd : d ≠ []) :
    (pwrite f off d).length = max f.length (off + d.length) := by
  simp only [pwrite, if_neg hd, List.length_append, List.length_take, List.length_replicate,
    List.length_drop]
  omega

theorem length_le_pwrite (f : Bytes) (off : ℕ) (d : Bytes) : f.length ≤ (pwrite f off d).length := by
  by_cases hd : d = []
  · simp [pwrite, hd]
  · rw [length_pwrite f off hd]
    exact le_max_left _ _

theorem getElem?_pwrite_of_mem (f : Bytes) (off : ℕ) (d : Bytes) {i : ℕ}
    (hlo : off ≤ i) (hhi : i < off + d.length) : (pwrite f off d)[i]? = d[i - off]? := by
  have hd : d ≠ [] := by
    rintro rfl
    simp at hhi
    omega
  have hlen : ((f ++ List.replicate (off - f.length) (0 : UInt8)).take off).length = off := by
    simp only [List.length_take, List.length_append, List.length_replicate]
    omega
  rw [pwrite, if_neg hd, List.append_assoc, List.getElem?_append_right (by omega), hlen,
    List.getElem?_append_left (by omega)]

theorem getElem?_pwrite_of_not_mem (f : Bytes) (off : ℕ) (d : Bytes) {i : ℕ}
    (hi : i < f.length) (hout : ¬ (off ≤ i ∧ i < off + d.length)) :
    (pwrite f off d)[i]? = f[i]? := by
  by_cases hd : d = []
  · simp [pwrite, hd]
  · rw [pwrite, if_neg hd]
    have hlen : ((f ++ List.replicate (off - f.length) (0 : UInt8)).take off).length = off := by
      simp only [List.length_take, List.length_append, List.length_replicate]
      omega
    by_cases hlo : i < off
    · rw [List.append_assoc, List.getElem?_append_left (by omega), List.getElem?_take_of_lt hlo,
        List.getElem?_append_left hi]
    · rw [List.append_assoc, List.getElem?_append_right (by omega), hlen,
        List.getElem?_append_right (by omega), List.getElem?_drop]
      congr 1
      omega

theorem getElem?_pwrite_of_gap (f : Bytes) (off : ℕ) {d : Bytes} (hd : d ≠ []) {i : ℕ}
    (hi : f.length ≤ i) (hgap : i < off) : (pwrite f off d)[i]? = some 0 := by
  have hlen : ((f ++ List.replicate (off - f.length) (0 : UInt8)).take off).length = off := by
    simp only [List.length_take, List.length_append, List.length_replicate]
    omega
  rw [pwrite, if_neg hd, List.append_assoc, List.getElem?_append_left (by omega),
    List.getElem?_take_of_lt hgap, List.getElem?_append_right hi, List.getElem?_replicate,
    if_pos (by omega)]

theorem getElem?_pread (f : Bytes) (off n i : ℕ) :
    (pread f off n)[i]? = if i < n then f[off + i]? else none := by
  simp [pread, List.getElem?_take, List.getElem?_drop]

variable {π : Type*} [DecidableEq π]

inductive FileEvent (π : Type*) where
  | create (p : π)
  | write (p : π) (off : ℕ) (d : Bytes)
  | remove (p : π)

def replay : List (FileEvent π) → π → Option Bytes
  | [], _ => none
  | .create q :: t, p => if p = q then some [] else replay t p
  | .write q off d :: t, p =>
      if p = q then (replay t p).map fun f => pwrite f off d else replay t p
  | .remove q :: t, p => if p = q then none else replay t p

def WrittenSince : List (FileEvent π) → π → ℕ → UInt8 → Prop
  | [], _, _, _ => False
  | .create q :: t, p, o, b => p ≠ q ∧ WrittenSince t p o b
  | .write q off d :: t, p, o, b =>
      (p = q ∧ off ≤ o ∧ d[o - off]? = some b) ∨ WrittenSince t p o b
  | .remove q :: t, p, o, b => p ≠ q ∧ WrittenSince t p o b

instance decidableWrittenSince : ∀ (t : List (FileEvent π)) (p : π) (o : ℕ) (b : UInt8),
    Decidable (WrittenSince t p o b)
  | [], _, _, _ => .isFalse id
  | .create q :: t, p, o, b =>
      have := decidableWrittenSince t p o b
      inferInstanceAs (Decidable (p ≠ q ∧ WrittenSince t p o b))
  | .write q off d :: t, p, o, b =>
      have := decidableWrittenSince t p o b
      inferInstanceAs (Decidable ((p = q ∧ off ≤ o ∧ d[o - off]? = some b) ∨ WrittenSince t p o b))
  | .remove q :: t, p, o, b =>
      have := decidableWrittenSince t p o b
      inferInstanceAs (Decidable (p ≠ q ∧ WrittenSince t p o b))

def GaplessAt (p : π) : List (FileEvent π) → Prop
  | [] => True
  | .create _ :: t => GaplessAt p t
  | .write q off d :: t =>
      (p = q → d ≠ [] → ∀ f, replay t p = some f → off ≤ f.length) ∧ GaplessAt p t
  | .remove _ :: t => GaplessAt p t

theorem writtenSince_of_gapless {p : π} : ∀ {t : List (FileEvent π)} {f : Bytes} {o : ℕ} {b : UInt8},
    GaplessAt p t → replay t p = some f → f[o]? = some b → WrittenSince t p o b := by
  intro t
  induction t with
  | nil => intro f o b _ hf; simp [replay] at hf
  | cons e t ih =>
    intro f o b hg hf hb
    cases e with
    | create q =>
      by_cases hpq : p = q
      · simp only [replay, if_pos hpq, Option.some.injEq] at hf
        subst hf
        simp at hb
      · exact ⟨hpq, ih hg (by simpa [replay, hpq] using hf) hb⟩
    | remove q =>
      by_cases hpq : p = q
      · simp [replay, hpq] at hf
      · exact ⟨hpq, ih hg (by simpa [replay, hpq] using hf) hb⟩
    | write q off d =>
      by_cases hpq : p = q
      · simp only [replay, if_pos hpq, Option.map_eq_some_iff] at hf
        obtain ⟨g, hgt, rfl⟩ := hf
        by_cases hin : off ≤ o ∧ o < off + d.length
        · rw [getElem?_pwrite_of_mem g off d hin.1 hin.2] at hb
          exact .inl ⟨hpq, hin.1, hb⟩
        · have ho : o < g.length := by
            by_contra hge
            have hd : d ≠ [] := by
              rintro rfl
              exact hge (List.getElem?_eq_some_iff.mp (by simpa [pwrite] using hb)).1
            have hlt : o < (pwrite g off d).length := (List.getElem?_eq_some_iff.mp hb).1
            rw [length_pwrite g off hd] at hlt
            have := hg.1 hpq hd g hgt
            omega
          rw [getElem?_pwrite_of_not_mem g off d ho hin] at hb
          exact .inr (ih hg.2 hgt hb)
      · exact .inr (ih hg.2 (by simpa [replay, hpq] using hf) hb)

theorem lt_length_of_writtenSince {p : π} :
    ∀ {t : List (FileEvent π)} {f : Bytes} {o : ℕ} {b : UInt8},
      replay t p = some f → WrittenSince t p o b → o < f.length := by
  intro t
  induction t with
  | nil => intro f o b hf; simp [replay] at hf
  | cons e t ih =>
    intro f o b hf hw
    cases e with
    | create q | remove q => exact ih (by simpa [replay, hw.1] using hf) hw.2
    | write q off d =>
      by_cases hpq : p = q
      · simp only [replay, if_pos hpq, Option.map_eq_some_iff] at hf
        obtain ⟨g, hgt, rfl⟩ := hf
        rcases hw with ⟨-, hlo, hb⟩ | hw
        · have hlt := (List.getElem?_eq_some_iff.mp hb).1
          have hd : d ≠ [] := by rintro rfl; simp at hlt
          rw [length_pwrite g off hd]
          omega
        · have hlt := ih hgt hw
          by_cases hd : d = []
          · simpa [pwrite, hd] using hlt
          · rw [length_pwrite g off hd]
            omega
      · rcases hw with ⟨h, -⟩ | hw
        · exact absurd h hpq
        · exact ih (by simpa [replay, hpq] using hf) hw

structure StoredFile where
  data : Bytes
  modTime : ℕ

structure Disk (π : Type*) [DecidableEq π] where
  files : AList fun _ : π => StoredFile
  journal : List (FileEvent π)
  agree : ∀ p, (files.lookup p).map StoredFile.data = replay journal p

namespace Disk

def empty : Disk π := ⟨∅, [], fun _ => by simp [replay]⟩

variable (D : Disk π)

def content (p : π) : Option Bytes := (D.files.lookup p).map StoredFile.data

def size (p : π) : Option ℕ := (D.content p).map List.length

def paths : List π := D.files.keys

def totalBytes : ℕ := (D.files.entries.map fun e => e.2.data.length).sum

def create (p : π) (now : ℕ) : Disk π where
  files := D.files.insert p ⟨[], now⟩
  journal := .create p :: D.journal
  agree := by
    intro q
    by_cases h : q = p
    · subst h; simp [replay]
    · simp [replay, h, D.agree]

def write (p : π) (off : ℕ) (d : Bytes) (now : ℕ) : Disk π :=
  match hf : D.files.lookup p with
  | none => D
  | some f =>
    if d = [] then D
    else
      { files := D.files.insert p ⟨pwrite f.data off d, now⟩
        journal := .write p off d :: D.journal
        agree := by
          intro q
          by_cases h : q = p
          · subst h
            simp [replay, ← D.agree, hf]
          · simp [replay, h, D.agree] }

def remove (p : π) : Disk π where
  files := D.files.erase p
  journal := .remove p :: D.journal
  agree := by
    intro q
    by_cases h : q = p
    · subst h; simp [replay]
    · simp [replay, h, D.agree]

theorem replay_journal (p : π) : replay D.journal p = D.content p := (D.agree p).symm

@[simp] theorem content_empty (p : π) : (empty : Disk π).content p = none := by
  simp [content, empty]

@[simp] theorem content_create (p q : π) (now : ℕ) :
    (D.create p now).content q = if q = p then some [] else D.content q := by
  by_cases h : q = p
  · subst h; simp [content, create]
  · simp [content, create, h]

@[simp] theorem content_remove (p q : π) :
    (D.remove p).content q = if q = p then none else D.content q := by
  by_cases h : q = p
  · subst h; simp [content, remove]
  · simp [content, remove, h]

@[simp] theorem content_write (p q : π) (off : ℕ) (d : Bytes) (now : ℕ) :
    (D.write p off d now).content q =
      if q = p then (D.content q).map fun f => pwrite f off d else D.content q := by
  unfold write
  split
  · next hf =>
    by_cases h : q = p
    · subst h; simp [content, hf]
    · simp [h]
  · next f hf =>
    by_cases hd : d = []
    · by_cases h : q = p
      · subst h; simp [content, hf, hd, pwrite]
      · simp [h, hd]
    · by_cases h : q = p
      · subst h; simp [content, hf, hd]
      · simp [content, h, hd]

theorem totalBytes_eq_total :
    (D.totalBytes : ℤ) = Dict.total (fun f : StoredFile => (f.data.length : ℤ)) D.files := by
  simp [totalBytes, Dict.total, Function.comp_def]

theorem totalBytes_remove (p : π) :
    ((D.remove p).totalBytes : ℤ) = D.totalBytes - (D.size p).getD 0 := by
  have hfiles : (D.remove p).files = AList.erase p D.files := rfl
  rw [totalBytes_eq_total, totalBytes_eq_total, hfiles, size, content]
  cases hf : D.files.lookup p with
  | none =>
    rw [Dict.erase_of_lookup_eq_none hf]
    simp
  | some f =>
    rw [Dict.total_erase hf]
    simp

theorem totalBytes_create {p : π} (h : D.content p = none) (now : ℕ) :
    ((D.create p now).totalBytes : ℤ) = D.totalBytes := by
  have hf : D.files.lookup p = none := by simpa [content] using h
  have hfiles : (D.create p now).files = AList.insert p ⟨[], now⟩ D.files := rfl
  rw [totalBytes_eq_total, totalBytes_eq_total, hfiles, Dict.total_insert,
    Dict.erase_of_lookup_eq_none hf]
  simp

theorem totalBytes_write {p : π} {f : Bytes} (h : D.content p = some f) (off : ℕ) (d : Bytes)
    (now : ℕ) : ((D.write p off d now).totalBytes : ℤ) =
      D.totalBytes + ((pwrite f off d).length - f.length) := by
  obtain ⟨file, hfile, rfl⟩ := Option.map_eq_some_iff.mp h
  unfold write
  split
  · next hnone => cases hnone.symm.trans hfile
  · next file' hfile' =>
    obtain rfl := Option.some.inj (hfile.symm.trans hfile')
    split_ifs with hd
    · simp [pwrite, hd]
    · rw [totalBytes_eq_total, totalBytes_eq_total, Dict.total_insert, Dict.total_erase hfile]
      ring

theorem written_of_gapless {p : π} {f : Bytes} {o : ℕ} {b : UInt8}
    (hg : GaplessAt p D.journal) (hf : D.content p = some f) (hb : f[o]? = some b) :
    WrittenSince D.journal p o b :=
  writtenSince_of_gapless hg ((D.replay_journal p).trans hf) hb

theorem gapless_write {p q : π} {off : ℕ} {d : Bytes} {now : ℕ} (h : GaplessAt p D.journal)
    (hin : p = q → d ≠ [] → ∀ f, D.content p = some f → off ≤ f.length) :
    GaplessAt p (D.write q off d now).journal := by
  unfold write
  split
  · exact h
  · split_ifs with hd
    · exact h
    · exact ⟨fun hpq hne f hf => hin hpq hne f ((D.replay_journal p).symm.trans hf), h⟩

theorem not_written_of_gap {p : π} {off : ℕ} {d f : Bytes} {now : ℕ} {b : UInt8}
    (hf : D.content p = some f) (hgap : f.length < off) :
    ¬ WrittenSince (D.write p off d now).journal p f.length b := by
  have hold : ¬ WrittenSince D.journal p f.length b := fun hw =>
    absurd (lt_length_of_writtenSince ((D.replay_journal p).trans hf) hw) (lt_irrefl _)
  unfold write
  split
  · exact hold
  · split_ifs with hd
    · exact hold
    · rintro (⟨-, hlo, -⟩ | hw)
      · omega
      · exact hold hw

end Disk

end GoStream.Foundations
