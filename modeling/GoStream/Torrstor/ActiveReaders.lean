import GoStream.Foundations.Collections
import GoStream.Foundations.Threads
import GoStream.Torrstor.Suspension

/-!
# The number of active readers
-/

namespace GoStream.Torrstor

open Foundations

inductive ClosePc where
  | notYet
  | marked (locked : Bool)
  | off (locked : Bool)
  | done
  deriving DecidableEq, Repr

structure Entry where
  reader : Reader
  ready : Bool
  registered : Bool
  close : ClosePc

inductive Thread where
  | registering (i : ℕ)
  | call (i : ℕ) (pc : Pc)
  | scan (rest : List ℕ)
  | checkLoaded (i : ℕ) (accessTime : ℤ) (rest : List ℕ)
  | checkDecided (i : ℕ) (off : Bool) (rest : List ℕ)
  deriving DecidableEq, Repr

def Thread.scans : Thread → Bool
  | .scan _ | .checkLoaded _ _ _ | .checkDecided _ _ _ => true
  | _ => false

structure Pool where
  readers : List Entry
  activeReaders : ℤ
  threads : List Thread
  now : ℤ

inductive Pool.Op where
  | tick (seconds : ℕ)
  | newReader (file : TorrentFile)
  | read (i len : ℕ)
  | seek (i : ℕ) (offset : ℤ) (whence : Whence)
  | close (i : ℕ)
  | closeReader (i : ℕ)
  | closeOff (i : ℕ)
  | closeEnd (i : ℕ)
  | scan (order : MapOrder)
  | advance (k : ℕ) (info : Bool) (avail : ℕ)

def callStep (content : TorrentFile → Bytes) (info : Bool) (avail : ℕ) (now : ℤ) (r : Reader) :
    Pc → Reader × ℤ × Option Pc
  | .idle => (r, 0, none)
  | .readOpen len => (r, 0, if info then some (.readReady len) else none)
  | .readReady len => (r.readerOn.1, r.readerOn.2, some (.readOn len))
  | .readOn len =>
    let out := r.engine.read (content r.file) (min len avail)
    ({ r with engine := out.1 }, 0, some (.readDone out.2))
  | .readDone bytes => (r.readEnd bytes.length now, 0, none)
  | .seekSet offset whence => (r.readerOn.1, r.readerOn.2, some (.seekOn offset whence))
  | .seekOn offset whence =>
    let out := r.engine.seek r.file.length offset whence
    ({ r with engine := out.1 }, 0, some (.seekDone offset whence out.2))
  | .seekDone _ _ n => (r.seekEnd n now, 0, none)

namespace Pool

def start (now : ℤ) : Pool := ⟨[], 0, [], now⟩

variable (content : TorrentFile → Bytes) (s : Pool)

def update (i : ℕ) (e : Entry) (delta : ℤ) : Pool :=
  { s with readers := s.readers.set i e, activeReaders := s.activeReaders + delta }

def goOn (k : ℕ) : Option Thread → Pool
  | some t => { s with threads := s.threads.set k t }
  | none => { s with threads := s.threads.eraseIdx k }

def writeHeld : Bool :=
  s.readers.any fun e => e.close == .marked true || e.close == .off true

def readHeld : Bool := s.threads.any Thread.scans

def registeredIds : List ℕ :=
  (List.range s.readers.length).filter fun i => (s.readers[i]?).any Entry.registered

def mark (i : ℕ) (e : Entry) (locked : Bool) : Pool :=
  s.update i { e with reader := { e.reader with isClosed := true }, close := .marked locked } 0

def on (i : ℕ) (f : Entry → Pool) : Pool :=
  match s.readers[i]? with
  | none => s
  | some e => f e

def turn (k : ℕ) (info : Bool) (avail : ℕ) : Thread → Pool
  | .registering i => s.on i fun e =>
    if s.writeHeld || s.readHeld then s
    else (s.update i { e with registered := true, ready := true } 0).goOn k none
  | .call i pc => s.on i fun e =>
    let out := callStep content info avail s.now e.reader pc
    (s.update i { e with reader := out.1 } out.2.1).goOn k (out.2.2.map (.call i))
  | .scan [] => s.goOn k none
  | .scan (i :: rest) => s.on i fun e =>
    s.goOn k (some (.checkLoaded i e.reader.lastAccess rest))
  | .checkLoaded i accessTime rest =>
    s.goOn k (some (.checkDecided i
      (Reader.expired accessTime s.now s.registeredIds.length) rest))
  | .checkDecided i off rest => s.on i fun e =>
    let out := if off then e.reader.readerOff else e.reader.readerOn
    (s.update i { e with reader := out.1 } out.2).goOn k (some (.scan rest))

def advance (k : ℕ) (info : Bool) (avail : ℕ) : Pool :=
  match s.threads[k]? with
  | none => s
  | some t => s.turn content k info avail t

def step (s : Pool) : Op → Pool
  | .tick seconds => { s with now := s.now + seconds }
  | .newReader file =>
    { s with
      readers := s.readers ++ [⟨Torrstor.newReader file, false, false, .notYet⟩]
      activeReaders := s.activeReaders + 1
      threads := s.threads ++ [.registering s.readers.length] }
  | .read i len => s.on i fun e =>
    if e.ready && !e.reader.isClosed then
      { s with threads := s.threads ++ [.call i (.readOpen len)] }
    else s
  | .seek i offset whence => s.on i fun e =>
    if e.ready && !e.reader.isClosed then
      { s.update i { e with reader := e.reader.seekBegin offset whence } 0 with
        threads := s.threads ++ [.call i (.seekSet offset whence)] }
    else s
  | .close i => s.on i fun e =>
    if e.ready && !e.reader.isClosed then s.mark i e false else s
  | .closeReader i => s.on i fun e =>
    if !e.ready || s.writeHeld || s.readHeld then s
    else if e.reader.isClosed then s.update i { e with registered := false } 0
    else s.mark i e true
  | .closeOff i => s.on i fun e =>
    match e.close with
    | .marked locked =>
      s.update i { e with reader := e.reader.readerOff.1, close := .off locked }
        e.reader.readerOff.2
    | _ => s
  | .closeEnd i => s.on i fun e =>
    match e.close with
    | .off locked =>
      s.update i { e with close := .done, registered := e.registered && !locked } 0
    | _ => s
  | .scan order =>
    if s.writeHeld then s
    else { s with threads := s.threads ++ [.scan (order.arrange s.registeredIds)] }
  | .advance k info avail => s.advance content k info avail

end Pool

namespace Entry

def switchedOff (e : Entry) : Bool :=
  match e.close with
  | .off _ | .done => true
  | _ => false

def inUse (e : Entry) : Bool := e.reader.isUse

def openInUse (e : Entry) : Bool := !e.reader.isClosed && e.reader.isUse

def closingInUse (e : Entry) : Bool :=
  match e.close with
  | .marked _ => e.reader.isUse
  | _ => false

structure Sound (e : Entry) : Prop where
  closed : e.reader.isClosed = true ↔ e.close ≠ .notYet
  off : e.switchedOff = true → e.reader.isUse = false

end Entry

namespace Pool

structure Exact (s : Pool) : Prop where
  count : s.activeReaders = s.readers.countP Entry.openInUse + s.readers.countP Entry.closingInUse
  settled : (∀ e ∈ s.readers, ∀ locked, e.close ≠ .marked locked) →
    s.activeReaders = s.readers.countP Entry.openInUse
  stays : ∀ e ∈ s.readers, e.switchedOff = true → e.reader.isUse = false
  all_closed : (∀ e ∈ s.readers, e.close = .done) → s.activeReaders = 0

def resumes : Thread → Option ℕ
  | .call i (.readReady _) => some i
  | .call i (.seekSet _ _) => some i
  | .checkDecided i false _ => some i
  | _ => none

def NoRevival (s : Pool) : Op → Prop
  | .advance k _ _ => ∀ t ∈ s.threads[k]?, ∀ i ∈ resumes t, ∀ e ∈ s.readers[i]?,
      e.switchedOff = false
  | _ => True

inductive Change (e : Entry) : Entry → ℤ → Prop
  | other {e' : Entry} (hclosed : e'.reader.isClosed = e.reader.isClosed)
      (huse : e'.reader.isUse = e.reader.isUse) (hclose : e'.close = e.close) : Change e e' 0
  | mark (locked : Bool) (hopen : e.reader.isClosed = false) :
      Change e { e with reader := { e.reader with isClosed := true }, close := .marked locked } 0
  | suspend : Change e { e with reader := e.reader.readerOff.1 } e.reader.readerOff.2
  | closeOff (locked : Bool) (hclose : e.close = .marked locked) :
      Change e { e with reader := e.reader.readerOff.1, close := .off locked } e.reader.readerOff.2
  | closeEnd (locked registered : Bool) (hclose : e.close = .off locked) :
      Change e { e with close := .done, registered := registered } 0

inductive Effect (s : Pool) (ok : Prop) (s' : Pool) : Prop
  | same (hreaders : s'.readers = s.readers) (hactive : s'.activeReaders = s.activeReaders)
      (hok : ok)
  | added (file : TorrentFile) (hok : ok)
      (hreaders : s'.readers = s.readers ++ [⟨Torrstor.newReader file, false, false, .notYet⟩])
      (hactive : s'.activeReaders = s.activeReaders + 1)
  | changed (i : ℕ) (e e' : Entry) (delta : ℤ) (he : s.readers[i]? = some e)
      (hchange : Change e e' delta) (hok : ok) (hreaders : s'.readers = s.readers.set i e')
      (hactive : s'.activeReaders = s.activeReaders + delta)
  | resumed (i : ℕ) (e : Entry) (he : s.readers[i]? = some e) (hok : ok ↔ e.switchedOff = false)
      (hreaders : s'.readers = s.readers.set i { e with reader := e.reader.readerOn.1 })
      (hactive : s'.activeReaders = s.activeReaders + e.reader.readerOn.2)

variable {content : TorrentFile → Bytes} {s : Pool}

theorem goOn_readers (s : Pool) (k : ℕ) (t : Option Thread) : (s.goOn k t).readers = s.readers := by
  cases t <;> rfl

theorem goOn_activeReaders (s : Pool) (k : ℕ) (t : Option Thread) :
    (s.goOn k t).activeReaders = s.activeReaders := by
  cases t <;> rfl

theorem Effect.of_goOn {ok : Prop} {s' : Pool} {k : ℕ} {t : Option Thread}
    (h : Effect s ok s') : Effect s ok (s'.goOn k t) := by
  have hr := goOn_readers s' k t
  have ha := goOn_activeReaders s' k t
  cases h with
  | same hreaders hactive hok => exact .same (hr.trans hreaders) (ha.trans hactive) hok
  | added file hok hreaders hactive =>
    exact .added file hok (hr.trans hreaders) (ha.trans hactive)
  | changed i e e' delta he hchange hok hreaders hactive =>
    exact .changed i e e' delta he hchange hok (hr.trans hreaders) (ha.trans hactive)
  | resumed i e he hok hreaders hactive =>
    exact .resumed i e he hok (hr.trans hreaders) (ha.trans hactive)

theorem Effect.of_other {ok : Prop} {i : ℕ} {e e' : Entry} (he : s.readers[i]? = some e)
    (hclosed : e'.reader.isClosed = e.reader.isClosed)
    (huse : e'.reader.isUse = e.reader.isUse) (hclose : e'.close = e.close) (hok : ok) :
    Effect s ok (s.update i e' 0) :=
  .changed i e e' 0 he (.other hclosed huse hclose) hok rfl rfl

theorem callStep_keeps (content : TorrentFile → Bytes) {i : ℕ} {pc : Pc}
    (h : resumes (.call i pc) = none) (info : Bool) (avail : ℕ) (now : ℤ) (r : Reader) :
    (callStep content info avail now r pc).1.isClosed = r.isClosed ∧
      (callStep content info avail now r pc).1.isUse = r.isUse ∧
      (callStep content info avail now r pc).2.1 = 0 := by
  cases pc with
  | readReady len | seekSet offset whence => cases h
  | _ => exact ⟨rfl, rfl, rfl⟩

theorem Effect.on {ok : Prop} {i : ℕ} {f : Entry → Pool} (hnone : s.readers[i]? = none → ok)
    (hsome : ∀ e, s.readers[i]? = some e → Effect s ok (f e)) : Effect s ok (s.on i f) := by
  unfold Pool.on
  cases he : s.readers[i]? with
  | none => exact .same rfl rfl (hnone he)
  | some e => exact hsome e he

theorem effect_turn (content : TorrentFile → Bytes) (s : Pool) (k : ℕ) (info : Bool) (avail : ℕ)
    (t : Thread) :
    Effect s (∀ i ∈ resumes t, ∀ e ∈ s.readers[i]?, e.switchedOff = false)
      (s.turn content k info avail t) := by
  have hsame : Effect s True s := .same rfl rfl trivial
  -- a thread that does not resume a reader, and one that does
  have hfree : resumes t = none → ((∀ i ∈ resumes t, ∀ e ∈ s.readers[i]?, e.switchedOff = false) ↔
      True) := fun h => by simp [h]
  have hbound : ∀ {i}, resumes t = some i →
      ((∀ i ∈ resumes t, ∀ e ∈ s.readers[i]?, e.switchedOff = false) ↔
        ∀ e ∈ s.readers[i]?, e.switchedOff = false) := fun h => by simp [h]
  have hresume : ∀ {i next}, resumes t = some i → Effect s
      (∀ i ∈ resumes t, ∀ e ∈ s.readers[i]?, e.switchedOff = false)
      (s.on i fun e => (s.update i { e with reader := e.reader.readerOn.1 }
        e.reader.readerOn.2).goOn k next) := by
    intro i next h
    rw [hbound h]
    refine .on (fun hnone => by simp [hnone]) fun e he => Effect.of_goOn ?_
    exact .resumed i e he (by simp [he]) rfl rfl
  cases t with
  | registering i =>
    rw [hfree rfl]
    refine .on (fun _ => trivial) fun e he => ?_
    split_ifs
    · exact hsame
    · apply Effect.of_goOn
      exact .of_other he rfl rfl rfl trivial
  | call i pc =>
    cases hpc : resumes (.call i pc) with
    | none =>
      rw [← hpc, hfree hpc]
      refine .on (fun _ => trivial) fun e he => Effect.of_goOn ?_
      obtain ⟨hclosed, huse, hdelta⟩ :=
        callStep_keeps content hpc info avail s.now e.reader
      rw [hdelta]
      exact .of_other he hclosed huse rfl trivial
    | some j =>
      rw [← hpc]
      cases pc with
      | readReady len | seekSet offset whence => exact hresume rfl
      | _ => cases hpc
  | scan rest =>
    rw [hfree rfl]
    cases rest with
    | nil =>
      rw [turn]
      exact hsame.of_goOn
    | cons i rest => exact .on (fun _ => trivial) fun e he => hsame.of_goOn
  | checkLoaded i accessTime rest =>
    rw [hfree rfl, turn]
    exact hsame.of_goOn
  | checkDecided i off rest =>
    cases off with
    | true =>
      rw [hfree rfl]
      refine .on (fun _ => trivial) fun e he => Effect.of_goOn ?_
      exact .changed i e _ _ he .suspend trivial rfl rfl
    | false => exact hresume rfl

theorem effect_step (content : TorrentFile → Bytes) (s : Pool) (op : Op) :
    Effect s (s.NoRevival op) (s.step content op) := by
  have hsame : Effect s True s := .same rfl rfl trivial
  have hmark : ∀ {i e} (locked : Bool), s.readers[i]? = some e → e.reader.isClosed = false →
      Effect s True (s.mark i e locked) :=
    fun locked he hopen => .changed _ _ _ 0 he (.mark locked hopen) trivial rfl rfl
  cases op with
  | tick seconds => exact .same rfl rfl trivial
  | newReader file => exact .added file trivial rfl rfl
  | read i len =>
    refine .on (fun _ => trivial) fun e he => ?_
    split_ifs
    · exact .same rfl rfl trivial
    · exact hsame
  | seek i offset whence =>
    refine .on (fun _ => trivial) fun e he => ?_
    split_ifs
    · exact .changed i e { e with reader := e.reader.seekBegin offset whence } 0 he
        (.other rfl rfl rfl) trivial rfl rfl
    · exact hsame
  | close i =>
    refine .on (fun _ => trivial) fun e he => ?_
    split_ifs with hopen
    · exact hmark false he (by simpa using (Bool.and_eq_true_iff.mp hopen).2)
    · exact hsame
  | closeReader i =>
    refine .on (fun _ => trivial) fun e he => ?_
    split_ifs with hwait hclosed
    · exact hsame
    · exact .of_other he rfl rfl rfl trivial
    · exact hmark true he (by simpa using hclosed)
  | closeOff i =>
    refine .on (fun _ => trivial) fun e he => ?_
    cases hclose : e.close with
    | marked locked => exact .changed i e _ _ he (.closeOff locked hclose) trivial rfl rfl
    | _ => exact hsame
  | closeEnd i =>
    refine .on (fun _ => trivial) fun e he => ?_
    cases hclose : e.close with
    | off locked => exact .changed i e _ 0 he (.closeEnd locked _ hclose) trivial rfl rfl
    | _ => exact hsame
  | scan order =>
    rw [step]
    split_ifs
    · exact hsame
    · exact .same rfl rfl trivial
  | advance k info avail =>
    rw [step, advance]
    cases hk : s.threads[k]? with
    | none => exact .same rfl rfl (by simp [NoRevival, hk])
    | some t =>
      have hturn := effect_turn content s k info avail t
      have hok : s.NoRevival (.advance k info avail) ↔
          ∀ i ∈ resumes t, ∀ e ∈ s.readers[i]?, e.switchedOff = false := by
        simp [NoRevival, hk]
      rw [hok]
      exact hturn

def use (e : Entry) : ℕ := e.reader.isUse.toNat

theorem use_readerOn (e : Entry) :
    e.reader.readerOn.1.isUse = true ∧ e.reader.readerOn.1.isClosed = e.reader.isClosed ∧
      e.reader.readerOn.2 = 1 - use e := by
  unfold Reader.readerOn
  split_ifs with huse hpos
  · exact ⟨huse, rfl, by simp [use, huse]⟩
  · exact ⟨rfl, rfl, by simp [use, huse]⟩
  · exact ⟨rfl, rfl, by simp [use, huse]⟩

theorem use_readerOff (e : Entry) :
    e.reader.readerOff.1.isUse = false ∧ e.reader.readerOff.1.isClosed = e.reader.isClosed ∧
      e.reader.readerOff.2 = - use e := by
  unfold Reader.readerOff
  split_ifs with huse hoff
  · exact ⟨rfl, rfl, by simp [use, huse]⟩
  · exact ⟨rfl, rfl, by simp [use, huse]⟩
  · exact ⟨by simpa using huse, rfl, by simp [use, huse]⟩

theorem Change.sound {e e' : Entry} {delta : ℤ} (h : Change e e' delta) (hs : e.Sound) :
    e'.Sound ∧ delta = use e' - use e := by
  cases h with
  | other hclosed huse hclose =>
    refine ⟨⟨?_, ?_⟩, by simp [use, huse]⟩
    · rw [hclosed, hclose]
      exact hs.closed
    · intro hoff
      rw [huse]
      apply hs.off
      rwa [Entry.switchedOff, ← hclose]
  | mark locked hopen => exact ⟨⟨by simp, fun hoff => by cases hoff⟩, by simp [use]⟩
  | suspend =>
    obtain ⟨huse, hclosed, hdelta⟩ := use_readerOff e
    refine ⟨⟨?_, fun _ => huse⟩, by simp [hdelta, use, huse]⟩
    rw [hclosed]
    exact hs.closed
  | closeOff locked hclose =>
    obtain ⟨huse, hclosed, hdelta⟩ := use_readerOff e
    refine ⟨⟨?_, fun _ => huse⟩, by simp [hdelta, use, huse]⟩
    rw [hclosed, hs.closed, hclose]
    simp
  | closeEnd locked registered hclose =>
    refine ⟨⟨?_, fun _ => hs.off (by rw [Entry.switchedOff, hclose])⟩, by simp [use]⟩
    rw [hs.closed, hclose]
    simp

structure Inv (s : Pool) : Prop where
  sound : ∀ e ∈ s.readers, e.Sound
  active : s.activeReaders = s.readers.countP Entry.inUse

theorem inv_start (now : ℤ) : Inv (start now) := ⟨by simp [start], rfl⟩

theorem use_eq {e : Entry} (h : e.Sound) :
    use e = e.openInUse.toNat + e.closingInUse.toNat := by
  have hclosed := h.closed
  have hoff := h.off
  cases hclose : e.close with
  | notYet =>
    have hopen : e.reader.isClosed = false := by simpa [hclose] using hclosed
    simp [use, Entry.openInUse, Entry.closingInUse, hclose, hopen]
  | marked locked =>
    have hmarked : e.reader.isClosed = true := by simp [hclosed, hclose]
    simp [use, Entry.openInUse, Entry.closingInUse, hclose, hmarked]
  | off locked | done =>
    have huse : e.reader.isUse = false := hoff (by rw [Entry.switchedOff, hclose])
    simp [use, Entry.openInUse, Entry.closingInUse, hclose, huse]

theorem countP_inUse {readers : List Entry} (h : ∀ e ∈ readers, e.Sound) :
    readers.countP Entry.inUse =
      readers.countP Entry.openInUse + readers.countP Entry.closingInUse := by
  induction readers with
  | nil => rfl
  | cons e readers ih =>
    obtain ⟨he, hrest⟩ := List.forall_mem_cons.mp h
    have huse : e.inUse.toNat = e.openInUse.toNat + e.closingInUse.toNat := use_eq he
    simp only [List.countP_cons, ite_eq_toNat, ih hrest, huse]
    omega

theorem Inv.exact (h : Inv s) : Exact s := by
  have hcount : s.activeReaders =
      s.readers.countP Entry.openInUse + s.readers.countP Entry.closingInUse := by
    rw [h.active, countP_inUse h.sound]
    push_cast
    rfl
  refine ⟨hcount, fun hsettled => ?_, fun e he => (h.sound e he).off, fun hdone => ?_⟩
  · have hnone : s.readers.countP Entry.closingInUse = 0 := by
      rw [List.countP_eq_zero]
      intro e he
      cases hclose : e.close with
      | marked locked => exact absurd hclose (hsettled e he locked)
      | _ => simp [Entry.closingInUse, hclose]
    rw [hcount, hnone, Nat.cast_zero, add_zero]
  · have hnone : s.readers.countP Entry.inUse = 0 := by
      rw [List.countP_eq_zero]
      intro e he
      have huse := (h.sound e he).off (by rw [Entry.switchedOff, hdone e he])
      simp [Entry.inUse, huse]
    rw [h.active, hnone, Nat.cast_zero]

theorem Inv.set (h : Inv s) {s' : Pool} {i : ℕ} {e e' : Entry} (he : s.readers[i]? = some e)
    (hsound : e'.Sound) (hreaders : s'.readers = s.readers.set i e')
    (hactive : s'.activeReaders = s.activeReaders + (use e' - use e)) : Inv s' := by
  constructor
  · rw [hreaders]
    intro e'' hmem
    rcases List.mem_or_eq_of_mem_set hmem with hmem | rfl
    · exact h.sound e'' hmem
    · exact hsound
  · have hcount := countP_set_add (p := Entry.inUse) e' he
    simp only [ite_eq_toNat] at hcount
    have hold : use e = e.inUse.toNat := rfl
    have hnew : use e' = e'.inUse.toNat := rfl
    rw [hreaders, hactive, h.active]
    omega

theorem Inv.step (h : Inv s) {op : Op} (hop : s.NoRevival op) : Inv (s.step content op) := by
  cases effect_step content s op with
  | same hreaders hactive _ =>
    constructor
    · rw [hreaders]
      exact h.sound
    · rw [hreaders, hactive]
      exact h.active
  | added file _ hreaders hactive =>
    constructor
    · rw [hreaders]
      intro e he
      rcases List.mem_append.mp he with he | he
      · exact h.sound e he
      · rw [List.mem_singleton.mp he]
        exact ⟨by simp [Torrstor.newReader], fun hoff => by cases hoff⟩
    · rw [hreaders, hactive, h.active, List.countP_append, List.countP_singleton]
      rfl
  | changed i e e' delta he hchange _ hreaders hactive =>
    obtain ⟨hsound, hdelta⟩ := hchange.sound (h.sound e (List.mem_of_getElem? he))
    exact h.set he hsound hreaders (hdelta ▸ hactive)
  | resumed i e he hok hreaders hactive =>
    have hsound := h.sound e (List.mem_of_getElem? he)
    obtain ⟨huse, hclosed, hdelta⟩ := use_readerOn e
    refine h.set he ⟨?_, fun hoff => ?_⟩ hreaders (by simpa [hdelta, use, huse] using hactive)
    · rw [hclosed]
      exact hsound.closed
    · exact absurd hoff (by rw [Entry.switchedOff]; simpa [Entry.switchedOff] using hok.mp hop)

theorem countP_set_of_false {p : Entry → Bool} {readers : List Entry} {i : ℕ} {e e' : Entry}
    (he : readers[i]? = some e) (hold : p e = false) (hnew : p e' = false) :
    (readers.set i e').countP p = readers.countP p := by
  have hcount := countP_set_add (p := p) e' he
  simpa [hold, hnew] using hcount

theorem Inv.not_exact (h : Inv s) {op : Op} (hop : ¬ s.NoRevival op) :
    ¬ Exact (s.step content op) := by
  cases effect_step content s op with
  | same _ _ hok | added _ hok _ _ | changed _ _ _ _ _ _ hok _ _ => exact absurd hok hop
  | resumed i e he hok hreaders hactive =>
    intro hexact
    have hoff : e.switchedOff = true := by
      by_contra hnot
      exact hop (hok.mpr (by simpa using hnot))
    have hsound := h.sound e (List.mem_of_getElem? he)
    have huse : e.reader.isUse = false := hsound.off hoff
    obtain ⟨-, hclosed, hdelta⟩ := use_readerOn e
    -- the reader counts neither as open nor as closing, before and after
    have hnever : e.reader.isClosed = true ∧
        ∀ r, Entry.closingInUse { e with reader := r } = false := by
      cases hclose : e.close with
      | notYet | marked locked => simp [Entry.switchedOff, hclose] at hoff
      | off locked | done => exact ⟨by simp [hsound.closed, hclose], fun r => rfl⟩
    have hnew : Entry.openInUse { e with reader := e.reader.readerOn.1 } = false := by
      simp [Entry.openInUse, hclosed, hnever.1]
    have hopen := countP_set_of_false he (by simp [Entry.openInUse, huse]) hnew
    have hclosing := countP_set_of_false (p := Entry.closingInUse) he (hnever.2 e.reader)
      (hnever.2 e.reader.readerOn.1)
    have hone : e.reader.readerOn.2 = 1 := by simp [hdelta, use, huse]
    have hcount := hexact.count
    rw [hreaders, hactive, hone, h.exact.count, hopen, hclosing] at hcount
    omega

/-- When the number of active readers is exact. -/
theorem exact_iff (content : TorrentFile → Bytes) (now : ℤ) (ops : List Op) :
    (∀ pre, pre <+: ops → Exact (run (step content) (start now) pre)) ↔
      Meets NoRevival (step content) (start now) ops := by
  have hkeep : ∀ s op, Inv s → NoRevival s op → Inv (step content s op) :=
    fun s op h hop => h.step hop
  constructor
  · exact meets_of_good hkeep (fun s op h _ hop => h.not_exact hop) ops (inv_start now)
      fun _ _ => (trivial : True)
  · exact Meets.good hkeep (fun s h => h.exact) ops (inv_start now)

def readAcrossClose : List Op :=
  [.newReader ⟨0, 8⟩, .advance 0 true 0, .read 0 4, .advance 0 true 4,
    .closeReader 0, .closeOff 0, .closeEnd 0, .advance 0 true 4]

theorem closed_reader_revived :
    (run (step fun _ => []) (start 0) readAcrossClose).activeReaders = 1 ∧
      ((run (step fun _ => []) (start 0) readAcrossClose).readers.map fun e =>
        (e.close, e.reader.isClosed, e.reader.isUse)) = [(.done, true, true)] := by
  decide +kernel

end Pool

end GoStream.Torrstor
