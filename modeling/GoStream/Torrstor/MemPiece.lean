import GoStream.Foundations.Buffers
import GoStream.Foundations.Run

/-!
# Piece buffers
-/

namespace GoStream.Torrstor

open Foundations

structure MemPiece where
  buffer : Option ℕ
  size : ℤ
  complete : Bool
  accessed : ℤ
  deriving DecidableEq, Repr

structure PieceStore (ι : Type*) where
  pieces : ι → MemPiece
  pool : List ℕ
  heap : Heap

namespace PieceStore

variable {ι : Type*} [DecidableEq ι]

def empty : PieceStore ι := ⟨fun _ => ⟨none, 0, false, 0⟩, [], .empty⟩

variable (pieceLength : ι → ℕ) (s : PieceStore ι)

def setPiece (i : ι) (p : MemPiece) : PieceStore ι := { s with pieces := Function.update s.pieces i p }

def allocBuffer (i : ι) : PieceStore ι :=
  { s with heap := s.heap.alloc (List.replicate (pieceLength i) 0) }.setPiece i
    { s.pieces i with buffer := some s.heap.next }

def ensureBuffer (i : ι) (pooled : Option ℕ) : PieceStore ι :=
  match (s.pieces i).buffer with
  | some _ => s
  | none =>
    match pooled.filter fun a => a ∈ s.pool with
    | none => s.allocBuffer pieceLength i
    | some a =>
      let s := { s with pool := s.pool.erase a }
      if (s.heap.cells a).length = pieceLength i then
        s.setPiece i { s.pieces i with buffer := some a }
      else s.allocBuffer pieceLength i

def writeBuffer (i : ι) (b : Bytes) (off : ℕ) (now : ℤ) : PieceStore ι :=
  match (s.pieces i).buffer with
  | none => s
  | some a =>
    let buf := s.heap.cells a
    let n := min (buf.length - off) b.length
    { s with heap := s.heap.store a (copyAt buf off b) }.setPiece i
      { s.pieces i with size := min ((s.pieces i).size + n) (pieceLength i), accessed := now }

def writeAt (i : ι) (b : Bytes) (off : ℕ) (pooled : Option ℕ) (now : ℤ) : PieceStore ι :=
  (s.ensureBuffer pieceLength i pooled).writeBuffer pieceLength i b off now

def bytesAt (i : ι) (len off : ℕ) : Bytes :=
  match (s.pieces i).buffer with
  | none => []
  | some a => ((s.heap.cells a).drop off).take len

def readAt (i : ι) (len off : ℕ) (now : ℤ) : PieceStore ι :=
  if (s.bytesAt i len off).isEmpty then s.setPiece i { s.pieces i with complete := false }
  else s.setPiece i { s.pieces i with accessed := now }

def release (i : ι) : PieceStore ι :=
  { s with pool := s.pool ++ (s.pieces i).buffer.toList }.setPiece i
    { s.pieces i with buffer := none, size := 0, complete := false }

end PieceStore

structure Trace (ι : Type*) where
  store : PieceStore ι
  written : ι → ℕ → Option UInt8
  taken : ι → Bytes

namespace Trace

variable {ι : Type*} [DecidableEq ι]

inductive Op (ι : Type*) where
  | writeAt (i : ι) (b : Bytes) (off : ℕ) (pooled : Option ℕ) (now : ℤ)
  | readAt (i : ι) (len off : ℕ) (now : ℤ)
  | release (i : ι)
  | collect (a : ℕ)

def start : Trace ι := ⟨.empty, fun _ _ => none, fun _ => []⟩

variable (pieceLength : ι → ℕ)

def bufferOf (s : PieceStore ι) (i : ι) : Bytes := ((s.pieces i).buffer.map s.heap.cells).getD []

def overwrite (written : ℕ → Option UInt8) (b : Bytes) (off o : ℕ) : Option UInt8 :=
  if off ≤ o ∧ o < off + b.length then b[o - off]? else written o

def step (t : Trace ι) : Op ι → Trace ι
  | .writeAt i b off pooled now =>
    { store := t.store.writeAt pieceLength i b off pooled now
      written := Function.update t.written i (overwrite (t.written i) b off)
      taken := if (t.store.pieces i).buffer.isSome then t.taken
        else Function.update t.taken i (bufferOf (t.store.ensureBuffer pieceLength i pooled) i) }
  | .readAt i len off now => { t with store := t.store.readAt i len off now }
  | .release i =>
    { t with
      store := t.store.release i
      written := Function.update t.written i fun _ => none }
  | .collect a => { t with store := { t.store with pool := t.store.pool.erase a } }

def Fits : Op ι → Prop
  | .writeAt i b off _ _ => off + b.length ≤ pieceLength i
  | _ => True

def ReadsWritten (t : Trace ι) (i : ι) (len off : ℕ) : Prop :=
  ∀ k b, (t.store.bytesAt i len off)[k]? = some b → b = (t.written i (off + k)).getD 0

def CleanRead (t : Trace ι) (i : ι) (len off : ℕ) : Prop :=
  (t.store.pieces i).buffer ≠ none → ∀ o, off ≤ o → o < off + len → o < pieceLength i →
    t.written i o = none → (t.taken i)[o]? = some 0

structure Inv (t : Trace ι) : Prop where
  separated : Separated t.store.heap (fun i => (t.store.pieces i).buffer) t.store.pool
  cleared : ∀ i, (t.store.pieces i).buffer = none → ∀ o, t.written i o = none
  length : ∀ i a, (t.store.pieces i).buffer = some a →
    (t.store.heap.cells a).length = pieceLength i
  content : ∀ i a, (t.store.pieces i).buffer = some a → ∀ o,
    (t.store.heap.cells a)[o]? = (t.written i o).or ((t.taken i)[o]?)

variable {pieceLength} {t : Trace ι} {i : ι}

omit [DecidableEq ι] in
theorem inv_start : Inv pieceLength (start : Trace ι) where
  separated := ⟨nofun, nofun, nofun, nofun, List.nodup_nil⟩
  cleared := fun _ _ _ => rfl
  length := nofun
  content := nofun

theorem buffer_setPiece (s : PieceStore ι) (i : ι) (p : MemPiece) :
    (fun j => ((s.setPiece i p).pieces j).buffer) =
      Function.update (fun j => (s.pieces j).buffer) i p.buffer := by
  funext j
  by_cases h : j = i
  · subst h; simp [PieceStore.setPiece]
  · simp [PieceStore.setPiece, h]

theorem Inv.take (h : Inv pieceLength t) (hnone : (t.store.pieces i).buffer = none)
    {s' : PieceStore ι} {a : ℕ}
    (hpieces : s'.pieces = Function.update t.store.pieces i { t.store.pieces i with buffer := some a })
    (hsep : Separated s'.heap
      (Function.update (fun j => (t.store.pieces j).buffer) i (some a)) s'.pool)
    (hcells : ∀ j b, (t.store.pieces j).buffer = some b → s'.heap.cells b = t.store.heap.cells b)
    (hlen : (s'.heap.cells a).length = pieceLength i) :
    Inv pieceLength { t with
      store := s'
      taken := Function.update t.taken i (bufferOf s' i) } := by
  have howner : (fun j => (s'.pieces j).buffer) =
      Function.update (fun j => (t.store.pieces j).buffer) i (some a) := by
    rw [hpieces]
    exact buffer_setPiece t.store i _
  have hown : ∀ j, (s'.pieces j).buffer =
      Function.update (fun j => (t.store.pieces j).buffer) i (some a) j := fun j => congrFun howner j
  have htaken : bufferOf s' i = s'.heap.cells a := by simp [bufferOf, hown]
  refine ⟨by rw [howner]; exact hsep, ?_, ?_, ?_⟩
  · intro j hj
    by_cases hji : j = i
    · subst hji
      simp [hown] at hj
    · exact h.cleared j (by simpa [hown, hji] using hj)
  · intro j b hj
    by_cases hji : j = i
    · subst hji
      obtain rfl : a = b := by simpa [hown] using hj
      exact hlen
    · have hj' : (t.store.pieces j).buffer = some b := by simpa [hown, hji] using hj
      dsimp only
      rw [hcells j b hj']
      exact h.length j b hj'
  · intro j b hj o
    by_cases hji : j = i
    · subst hji
      obtain rfl : a = b := by simpa [hown] using hj
      simp [h.cleared j hnone o, htaken]
    · have hj' : (t.store.pieces j).buffer = some b := by simpa [hown, hji] using hj
      dsimp only
      rw [hcells j b hj', Function.update_of_ne hji]
      exact h.content j b hj' o

theorem Inv.allocBuffer (h : Inv pieceLength t) (hnone : (t.store.pieces i).buffer = none)
    {pool : List ℕ} (hpool : pool.Sublist t.store.pool) :
    Inv pieceLength { t with
      store := { t.store with pool := pool }.allocBuffer pieceLength i
      taken := Function.update t.taken i
        (bufferOf ({ t.store with pool := pool }.allocBuffer pieceLength i) i) } := by
  have hsep := h.separated.mono (fun _ _ hj => hj) hpool
  refine h.take hnone (a := t.store.heap.next) rfl (hsep.alloc hnone _) ?_ ?_
  · intro j b hj
    exact hsep.cells_alloc hj _
  · simp [PieceStore.allocBuffer, PieceStore.setPiece, Heap.alloc]

theorem Inv.ensureBuffer (h : Inv pieceLength t) (hnone : (t.store.pieces i).buffer = none)
    (pooled : Option ℕ) :
    Inv pieceLength { t with
      store := t.store.ensureBuffer pieceLength i pooled
      taken := Function.update t.taken i (bufferOf (t.store.ensureBuffer pieceLength i pooled) i) } := by
  unfold PieceStore.ensureBuffer
  simp only [hnone]
  cases hp : pooled.filter fun a => decide (a ∈ t.store.pool) with
  | none => exact h.allocBuffer hnone (List.Sublist.refl _)
  | some a =>
    have hmem : a ∈ t.store.pool := by
      simpa using (Option.filter_eq_some_iff.mp hp).2
    dsimp only
    by_cases hlen : (t.store.heap.cells a).length = pieceLength i
    · rw [if_pos hlen]
      exact h.take hnone rfl (h.separated.acquire hnone hmem) (fun _ _ _ => rfl) hlen
    · rw [if_neg hlen]
      exact h.allocBuffer hnone List.erase_sublist

theorem Inv.writeBuffer (h : Inv pieceLength t) {a : ℕ} (ha : (t.store.pieces i).buffer = some a)
    {b : Bytes} {off : ℕ} (hfits : off + b.length ≤ pieceLength i) (now : ℤ) :
    Inv pieceLength { t with
      store := t.store.writeBuffer pieceLength i b off now
      written := Function.update t.written i (overwrite (t.written i) b off) } := by
  have hlen := h.length i a ha
  unfold PieceStore.writeBuffer
  simp only [ha]
  set s' : PieceStore ι := { t.store with
    heap := t.store.heap.store a (copyAt (t.store.heap.cells a) off b) } with hs'
  have howner : ∀ p : MemPiece, p.buffer = some a →
      (fun j => ((s'.setPiece i p).pieces j).buffer) = fun j => (t.store.pieces j).buffer := by
    intro p hp
    rw [buffer_setPiece, hp, ← ha]
    exact Function.update_eq_self i _
  have hown : ∀ (p : MemPiece) (j : ι), p.buffer = some a →
      ((s'.setPiece i p).pieces j).buffer = (t.store.pieces j).buffer :=
    fun p j hp => congrFun (howner p hp) j
  have hself : s'.heap.cells a = copyAt (t.store.heap.cells a) off b := by simp [hs', Heap.store]
  have hother : ∀ j c, (t.store.pieces j).buffer = some c → j ≠ i →
      s'.heap.cells c = t.store.heap.cells c :=
    fun j c hj hne => h.separated.cells_store ha hj hne _
  refine ⟨?_, ?_, ?_, ?_⟩
  · dsimp only
    rw [howner _ rfl]
    exact h.separated.store _
  · intro j hj o
    rw [hown _ _ rfl] at hj
    have hji : j ≠ i := by
      rintro rfl
      simp [ha] at hj
    dsimp only
    rw [Function.update_of_ne hji]
    exact h.cleared j hj o
  · intro j c hj
    rw [hown _ _ rfl] at hj
    by_cases hji : j = i
    · subst hji
      obtain rfl := Option.some.inj (ha.symm.trans hj)
      exact (congrArg List.length hself).trans ((length_copyAt ..).trans hlen)
    · exact (congrArg List.length (hother j c hj hji)).trans (h.length j c hj)
  · intro j c hj o
    rw [hown _ _ rfl] at hj
    by_cases hji : j = i
    · subst hji
      obtain rfl := Option.some.inj (ha.symm.trans hj)
      refine (congrArg (·[o]?) hself).trans ?_
      dsimp only
      rw [getElem?_copyAt (hlen ▸ hfits), Function.update_self, overwrite]
      split_ifs with hin
      · have hlt : o - off < b.length := by omega
        simp [List.getElem?_eq_getElem hlt]
      · exact h.content j a ha o
    · refine (congrArg (·[o]?) (hother j c hj hji)).trans ?_
      dsimp only
      rw [Function.update_of_ne hji]
      exact h.content j c hj o

theorem buffer_ensureBuffer (s : PieceStore ι) (i : ι) (pooled : Option ℕ) :
    ∃ a, ((s.ensureBuffer pieceLength i pooled).pieces i).buffer = some a := by
  unfold PieceStore.ensureBuffer
  split
  · next a ha => exact ⟨a, ha⟩
  split
  · simp [PieceStore.allocBuffer, PieceStore.setPiece]
  · dsimp only
    split_ifs <;> simp [PieceStore.allocBuffer, PieceStore.setPiece]

theorem Inv.writeAt (h : Inv pieceLength t) {b : Bytes} {off : ℕ}
    (hfits : off + b.length ≤ pieceLength i) (pooled : Option ℕ) (now : ℤ) :
    Inv pieceLength (t.step pieceLength (.writeAt i b off pooled now)) := by
  obtain ⟨a, ha⟩ := @buffer_ensureBuffer ι _ pieceLength t.store i pooled
  simp only [step, PieceStore.writeAt]
  cases hbuf : (t.store.pieces i).buffer with
  | none =>
    simp only [Option.isSome_none, Bool.false_eq_true, if_false]
    exact (h.ensureBuffer hbuf pooled).writeBuffer ha hfits now
  | some c =>
    have hkeep : t.store.ensureBuffer pieceLength i pooled = t.store := by
      simp [PieceStore.ensureBuffer, hbuf]
    simp only [Option.isSome_some, if_true, hkeep]
    exact h.writeBuffer hbuf hfits now

theorem Inv.release (h : Inv pieceLength t) (i : ι) :
    Inv pieceLength (t.step pieceLength (.release i)) := by
  have howner : (fun j => ((t.store.release i).pieces j).buffer) =
      Function.update (fun j => (t.store.pieces j).buffer) i none :=
    buffer_setPiece _ i _
  have hown : ∀ j, ((t.store.release i).pieces j).buffer =
      Function.update (fun j => (t.store.pieces j).buffer) i none j := fun j => congrFun howner j
  -- a piece with a buffer is another piece, and keeps it
  have hother : ∀ j b, ((t.store.release i).pieces j).buffer = some b →
      j ≠ i ∧ (t.store.pieces j).buffer = some b := by
    intro j b hj
    rw [hown] at hj
    by_cases hji : j = i
    · subst hji
      simp at hj
    · exact ⟨hji, by simpa [hji] using hj⟩
  refine ⟨?_, ?_, fun j b hj => h.length j b (hother j b hj).2, ?_⟩
  · simp only [step]
    rw [howner]
    cases hbuf : (t.store.pieces i).buffer with
    | none =>
      have hsame : Function.update (fun j => (t.store.pieces j).buffer) i none =
          fun j => (t.store.pieces j).buffer := by
        rw [← hbuf]
        exact Function.update_eq_self i _
      rw [hsame]
      simpa [PieceStore.release, PieceStore.setPiece, hbuf] using h.separated
    | some a => simpa [PieceStore.release, PieceStore.setPiece, hbuf] using h.separated.release hbuf
  · intro j hj o
    simp only [step]
    by_cases hji : j = i
    · subst hji
      simp
    · rw [Function.update_of_ne hji]
      exact h.cleared j (by simpa [step, hown, hji] using hj) o
  · intro j b hj o
    obtain ⟨hji, hj⟩ := hother j b hj
    simp only [step]
    rw [Function.update_of_ne hji]
    exact h.content j b hj o

theorem Inv.readAt (h : Inv pieceLength t) (i : ι) (len off : ℕ) (now : ℤ) :
    Inv pieceLength (t.step pieceLength (.readAt i len off now)) := by
  have hsame : ∀ p : MemPiece, p.buffer = (t.store.pieces i).buffer →
      Inv pieceLength { t with store := t.store.setPiece i p } := by
    intro p hp
    have howner : (fun j => ((t.store.setPiece i p).pieces j).buffer) =
        fun j => (t.store.pieces j).buffer := by
      rw [buffer_setPiece, hp]
      exact Function.update_eq_self i _
    have hown : ∀ j, ((t.store.setPiece i p).pieces j).buffer = (t.store.pieces j).buffer :=
      fun j => congrFun howner j
    refine ⟨?_, fun j hj => h.cleared j (hown j ▸ hj), fun j b hj => h.length j b (hown j ▸ hj),
      fun j b hj => h.content j b (hown j ▸ hj)⟩
    dsimp only
    rw [howner]
    exact h.separated
  simp only [step, PieceStore.readAt]
  split_ifs
  · exact hsame _ rfl
  · exact hsame _ rfl

theorem inv_step (t : Trace ι) (op : Op ι) (h : Inv pieceLength t) (hop : Fits pieceLength op) :
    Inv pieceLength (t.step pieceLength op) := by
  cases op with
  | writeAt i b off pooled now => exact h.writeAt hop pooled now
  | readAt i len off now => exact h.readAt i len off now
  | release i => exact h.release i
  | collect a =>
    exact ⟨h.separated.mono (fun _ _ hj => hj) List.erase_sublist, h.cleared, h.length, h.content⟩

omit [DecidableEq ι] in
theorem Inv.readsWritten_iff (h : Inv pieceLength t) (i : ι) (len off : ℕ) :
    ReadsWritten t i len off ↔ CleanRead pieceLength t i len off := by
  unfold ReadsWritten CleanRead PieceStore.bytesAt
  cases hbuf : (t.store.pieces i).buffer with
  | none => simp
  | some a =>
    have hlen := h.length i a hbuf
    have hcontent := h.content i a hbuf
    have hread : ∀ k, (((t.store.heap.cells a).drop off).take len)[k]? =
        if k < len then (t.written i (off + k)).or ((t.taken i)[off + k]?) else none := by
      intro k
      rw [← hcontent]
      exact getElem?_pread (t.store.heap.cells a) off len k
    constructor
    · intro hreads _ o hlo hhi ho hnone
      have hbyte := hread (o - off)
      rw [if_pos (by omega), Nat.add_sub_cancel' hlo, hnone, Option.none_or] at hbyte
      have htaken : (t.taken i)[o]? = some (t.store.heap.cells a)[o] := by
        rw [← List.getElem?_eq_getElem, hcontent, hnone, Option.none_or]
      have hzero := hreads (o - off) _ (hbyte.trans htaken)
      rw [Nat.add_sub_cancel' hlo, hnone] at hzero
      rw [htaken, hzero]
      rfl
    · intro hclean k b hb
      rw [hread] at hb
      split_ifs at hb with hk
      cases hw : t.written i (off + k) with
      | some w =>
        rw [hw] at hb
        exact (Option.some.inj hb).symm
      | none =>
        have ho : off + k < pieceLength i := by
          rw [← hlen]
          by_contra hge
          have := hcontent (off + k)
          rw [hb, List.getElem?_eq_none (by omega)] at this
          cases this
        have hzero := hclean (by simp) (off + k) (by omega) (by omega) ho hw
        rw [hw, Option.none_or, hzero] at hb
        exact (Option.some.inj hb).symm

/-- When a read returns only what was written. -/
theorem readsWritten_iff_cleanRead (pieceLength : ι → ℕ) (ops : List (Op ι))
    (hfits : ∀ op ∈ ops, Fits pieceLength op) (i : ι) (len off : ℕ) :
    ReadsWritten (run (step pieceLength) start ops) i len off ↔
      CleanRead pieceLength (run (step pieceLength) start ops) i len off :=
  (run_invariant inv_step ops inv_start hfits).readsWritten_iff i len off

theorem readsWritten_iff_cleanRead_new :
    let ops : List (Op Bool) := [.writeAt true [9] 0 none 0]
    (run (step fun _ => 2) start ops).store.bytesAt true 2 0 = [9, 0] ∧
      (ReadsWritten (run (step fun _ => 2) start ops) true 2 0 ↔
        CleanRead (fun _ => 2) (run (step fun _ => 2) start ops) true 2 0) := by
  refine ⟨by decide, readsWritten_iff_cleanRead (fun _ => 2) _ ?_ true 2 0⟩
  simp [Fits]

theorem readsWritten_fails : ¬ ∀ (ops : List (Op Bool)), (∀ op ∈ ops, Fits (fun _ => 2) op) →
    ∀ i len off, ReadsWritten (run (step fun _ => 2) start ops) i len off := by
  intro h
  have hread := h [.writeAt false [7, 8] 0 none 0, .release false, .writeAt true [9] 0 (some 0) 0]
    (by simp [Fits]) true 2 0 1 8 (by decide)
  exact absurd hread (by decide)

end Trace

end GoStream.Torrstor
