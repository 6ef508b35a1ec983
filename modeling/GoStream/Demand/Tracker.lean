import GoStream.Foundations.Maps
import GoStream.Foundations.Run
import GoStream.Foundations.Text
import GoStream.Foundations.Threads

/-!
# On-demand syncs of single series
-/

namespace GoStream.Demand

open GoStream.Foundations

inductive JobStatus where
  | started
  | running
  | completed
  | failed
deriving DecidableEq, Repr

structure DemandJob where
  jobID : Bytes
  tmdbID : ℤ
  jellyfinItemID : Bytes
  status : JobStatus
  error : Bytes
  second : ℤ
deriving DecidableEq

def DemandJob.active (job : DemandJob) : Bool :=
  job.status = .started || job.status = .running

def demandID (tmdbID second : ℤ) : Bytes :=
  ascii "demand-" ++ itoa tmdbID ++ ascii "-" ++ itoa second

inductive Reply where
  | invalidBody
  | invalidID
  | inProgress (jobID : Bytes) (status : JobStatus)
  | queued (jobID : Bytes)
deriving DecidableEq

inductive Request where
  | checked (tmdbID : ℤ) (jellyfinItemID : Bytes)
  | created (job : ℕ)
deriving DecidableEq

structure DemandTracker where
  jobs : Dict Bytes ℕ
  records : List DemandJob
  requests : List Request
  accepted : List ℕ
  replies : List Reply
  now : ℤ
deriving DecidableEq

namespace DemandTracker

def newDemandTracker (now : ℤ) : DemandTracker := ⟨∅, [], [], [], [], now⟩

def get (s : DemandTracker) (id : Bytes) : Option DemandJob :=
  (s.jobs.lookup id).bind fun i => s.records[i]?

def listActive (order : MapOrder) (s : DemandTracker) : List DemandJob :=
  ((order.arrange s.jobs.items).filterMap fun e => s.records[e.2]?).filter DemandJob.active

def reply (s : DemandTracker) (r : Reply) : DemandTracker := { s with replies := s.replies ++ [r] }

def check (order : MapOrder) (s : DemandTracker) : Option (ℤ × Bytes) → DemandTracker
  | none => s.reply .invalidBody
  | some (tmdbID, item) =>
    if tmdbID ≤ 0 then s.reply .invalidID
    else
      match (s.listActive order).find? fun job => job.tmdbID = tmdbID with
      | some job => s.reply (.inProgress job.jobID job.status)
      | none => { s with requests := s.requests ++ [.checked tmdbID item] }

def newJob (s : DemandTracker) (tmdbID : ℤ) (item : Bytes) : DemandJob :=
  ⟨demandID tmdbID s.now, tmdbID, item, .started, [], s.now⟩

def create (s : DemandTracker) (k : ℕ) (tmdbID : ℤ) (item : Bytes) : DemandTracker :=
  { s with
    records := s.records ++ [s.newJob tmdbID item]
    requests := s.requests.set k (.created s.records.length) }

def add (s : DemandTracker) (k i : ℕ) (job : DemandJob) : DemandTracker :=
  { s with
    jobs := s.jobs.insert job.jobID i
    requests := s.requests.eraseIdx k
    accepted := i :: s.accepted
    replies := s.replies ++ [.queued job.jobID] }

def advance (s : DemandTracker) (k : ℕ) : DemandTracker :=
  match s.requests[k]? with
  | some (.checked tmdbID item) => s.create k tmdbID item
  | some (.created i) =>
    match s.records[i]? with
    | some job => s.add k i job
    | none => s
  | none => s

def write (s : DemandTracker) (i : ℕ) (status : JobStatus) (f : DemandJob → DemandJob) :
    DemandTracker :=
  match s.records[i]? with
  | some job =>
    if s.accepted.contains i ∧ job.status = status then { s with records := s.records.set i (f job) }
    else s
  | none => s

end DemandTracker

def DemandJob.run (job : DemandJob) : DemandJob := { job with status := .running }

def DemandJob.finish (error : Option Bytes) (job : DemandJob) : DemandJob :=
  match error with
  | some e => { job with status := .failed, error := e }
  | none => { job with status := .completed }

inductive Op where
  | post (order : MapOrder) (body : Option (ℤ × Bytes))
  | advance (k : ℕ)
  | begin (i : ℕ)
  | finish (i : ℕ) (error : Option Bytes)
  | clock (now : ℤ)

open DemandTracker in
def step (s : DemandTracker) : Op → DemandTracker
  | .post order body => s.check order body
  | .advance k => s.advance k
  | .begin i => s.write i .started DemandJob.run
  | .finish i error => s.write i .running (DemandJob.finish error)
  | .clock now => { s with now := now }

def OneActive (s : DemandTracker) : Prop := ∀ (i j : ℕ) (job other : DemandJob), s.records[i]? = some job →
  s.records[j]? = some other → job.active = true → other.active = true →
    job.tmdbID = other.tmdbID → i = j

def Retrievable (s : DemandTracker) : Prop := ∀ i ∈ s.accepted, ∀ job : DemandJob,
  s.records[i]? = some job → s.jobs.lookup job.jobID = some i

def Promised (s : DemandTracker) : Prop := OneActive s ∧ Retrievable s

def Undisturbed (s : DemandTracker) : Op → Prop
  | .advance k =>
    match s.requests[k]? with
    | some (.checked tmdbID _) => ∀ job ∈ s.records, job.active = true → job.tmdbID ≠ tmdbID
    | some (.created i) => ∀ job : DemandJob, s.records[i]? = some job →
        ∀ j ∈ s.accepted, ∀ other : DemandJob, s.records[j]? = some other → other.tmdbID = job.tmdbID → other.second ≠ job.second
    | none => True
  | _ => True

theorem minus_not_mem_itoa {n : ℤ} (hn : 0 < n) : 45 ∉ itoa n := by
  cases n with
  | ofNat m => exact not_mem_of_all (all_isDecimal_decimal m) rfl
  | negSucc m => exact absurd hn (by simp)

theorem demandID_inj {t t' u u' : ℤ} (ht : 0 < t) (ht' : 0 < t')
    (h : demandID t u = demandID t' u') : t = t' ∧ u = u' := by
  have hdash : ∀ t u, demandID t u = ascii "demand-" ++ (itoa t ++ 45 :: itoa u) := by
    intro t u
    simp only [demandID, List.append_assoc]
    rfl
  rw [hdash, hdash] at h
  have hsplit := congrArg (splitFirst 45) (List.append_cancel_left h)
  rw [splitFirst_append (minus_not_mem_itoa ht), splitFirst_append (minus_not_mem_itoa ht')] at hsplit
  obtain ⟨hseries, hsecond⟩ := Prod.mk.inj (Option.some.inj hsplit)
  exact ⟨itoa_injective hseries, itoa_injective hsecond⟩

def Request.job? : Request → Option ℕ
  | .checked _ _ => none
  | .created i => some i

structure Sound (s : DemandTracker) : Prop where
  named : ∀ job ∈ s.records, job.jobID = demandID job.tmdbID job.second ∧ 0 < job.tmdbID
  wanted : ∀ tmdbID item, .checked tmdbID item ∈ s.requests → 0 < tmdbID
  pending : ∀ i, .created i ∈ s.requests → i < s.records.length ∧ i ∉ s.accepted
  exclusive : Exclusive Request.job? s.requests
  known : ∀ i ∈ s.accepted, i < s.records.length

theorem sound_new (now : ℤ) : Sound (DemandTracker.newDemandTracker now) where
  named := by simp [DemandTracker.newDemandTracker]
  wanted := by simp [DemandTracker.newDemandTracker]
  pending := by simp [DemandTracker.newDemandTracker]
  exclusive := Exclusive.nil
  known := by simp [DemandTracker.newDemandTracker]

structure Orderly (s : DemandTracker) : Prop where
  sound : Sound s
  oneActive : OneActive s
  retrievable : Retrievable s

variable {s : DemandTracker}

theorem Orderly.of_eq {s' : DemandTracker} (h : Orderly s) (hjobs : s'.jobs = s.jobs)
    (hrecords : s'.records = s.records) (haccepted : s'.accepted = s.accepted)
    (hrequests : s'.requests = s.requests ∨
      ∃ tmdbID item, 0 < tmdbID ∧ s'.requests = s.requests ++ [.checked tmdbID item]) :
    Orderly s' := by
  have hsound : Sound s' := by
    refine ⟨hrecords ▸ h.sound.named, ?_, ?_, ?_, ?_⟩
    · intro t item hmem
      rcases hrequests with heq | ⟨t', item', ht', heq⟩
      · exact h.sound.wanted t item (heq ▸ hmem)
      · rw [heq, List.mem_append, List.mem_singleton] at hmem
        rcases hmem with hmem | hmem
        · exact h.sound.wanted t item hmem
        · injection hmem with ht
          exact ht ▸ ht'
    · intro i hmem
      rw [hrecords, haccepted]
      rcases hrequests with heq | ⟨t', item', ht', heq⟩
      · exact h.sound.pending i (heq ▸ hmem)
      · rw [heq, List.mem_append, List.mem_singleton] at hmem
        exact h.sound.pending i (hmem.resolve_right (by simp))
    · rcases hrequests with heq | ⟨t', item', ht', heq⟩
      · exact heq ▸ h.sound.exclusive
      · rw [heq]
        refine h.sound.exclusive.append (Exclusive.singleton _) ?_
        intro r hr k hk
        rw [List.mem_singleton.mp hr] at hk
        cases hk
    · rw [hrecords, haccepted]
      exact h.sound.known
  refine ⟨hsound, ?_, ?_⟩
  · unfold OneActive
    rw [hrecords]
    exact h.oneActive
  · unfold Retrievable
    rw [hrecords, haccepted, hjobs]
    exact h.retrievable

theorem Orderly.check (h : Orderly s) (order : MapOrder) (body : Option (ℤ × Bytes)) :
    Orderly (s.check order body) := by
  unfold DemandTracker.check
  split
  · exact h.of_eq rfl rfl rfl (.inl rfl)
  · rename_i tmdbID item
    split_ifs with hid
    · exact h.of_eq rfl rfl rfl (.inl rfl)
    · split
      · exact h.of_eq rfl rfl rfl (.inl rfl)
      · exact h.of_eq rfl rfl rfl (.inr ⟨tmdbID, item, by omega, rfl⟩)

theorem getElem?_create {k : ℕ} {tmdbID : ℤ} {item : Bytes} {i : ℕ} {job : DemandJob} :
    (s.create k tmdbID item).records[i]? = some job ↔
      s.records[i]? = some job ∨ i = s.records.length ∧ job = s.newJob tmdbID item :=
  getElem?_append_one

theorem Sound.create (h : Sound s) {k : ℕ} {tmdbID : ℤ} {item : Bytes}
    (hk : s.requests[k]? = some (.checked tmdbID item)) : Sound (s.create k tmdbID item) := by
  obtain ⟨hlt, hget⟩ := List.getElem?_eq_some_iff.mp hk
  have hpos : 0 < tmdbID := h.wanted tmdbID item (List.mem_of_getElem? hk)
  have hperm : (s.create k tmdbID item).requests.Perm
      (s.requests.eraseIdx k ++ [.created s.records.length]) :=
    (List.set_perm_cons_eraseIdx hlt _).trans (List.perm_append_singleton _ _).symm
  have hmem : ∀ r, r ∈ (s.create k tmdbID item).requests →
      r ∈ s.requests ∨ r = .created s.records.length := by
    intro r hr
    rcases List.mem_append.mp (hperm.mem_iff.mp hr) with hr | hr
    · exact .inl (List.mem_of_mem_eraseIdx hr)
    · exact .inr (List.mem_singleton.mp hr)
  refine ⟨?_, ?_, ?_, ?_, ?_⟩
  · intro job hjob
    rcases List.mem_append.mp hjob with hjob | hjob
    · exact h.named job hjob
    · rw [List.mem_singleton.mp hjob]
      exact ⟨rfl, hpos⟩
  · intro t item' ht
    exact h.wanted t item' ((hmem _ ht).resolve_right (by simp))
  · intro i hi
    have hlength : (s.create k tmdbID item).records.length = s.records.length + 1 :=
      List.length_append
    rw [hlength]
    rcases hmem _ hi with hi | hi
    · exact ⟨Nat.lt_succ_of_lt (h.pending i hi).1, (h.pending i hi).2⟩
    · injection hi with hi
      subst hi
      exact ⟨Nat.lt_succ_self _, fun hacc => absurd (h.known _ hacc) (lt_irrefl _)⟩
  · unfold Exclusive
    rw [(hperm.filterMap _).nodup_iff]
    refine (h.exclusive.eraseIdx hk).1.append (Exclusive.singleton _) ?_
    -- the new record is past the end of the others
    rintro r hr j hj u hu huj
    rw [List.mem_singleton.mp hr] at hj
    obtain rfl : s.records.length = j := Option.some.inj hj
    cases u with
    | checked => cases huj
    | created j =>
      obtain rfl : j = s.records.length := Option.some.inj huj
      exact lt_irrefl _ (h.pending _ (List.mem_of_mem_eraseIdx hu)).1
  · intro i hi
    exact lt_of_lt_of_le (h.known i hi) (List.length_append ▸ Nat.le_add_right _ _)

theorem Orderly.create (h : Orderly s) {k : ℕ} {tmdbID : ℤ} {item : Bytes}
    (hk : s.requests[k]? = some (.checked tmdbID item))
    (hfree : ∀ job ∈ s.records, job.active = true → job.tmdbID ≠ tmdbID) :
    Orderly (s.create k tmdbID item) := by
  refine ⟨h.sound.create hk, ?_, ?_⟩
  · intro i j job other hi hj hactive hactive' heq
    rcases getElem?_create.mp hi with hi | ⟨rfl, rfl⟩ <;>
      rcases getElem?_create.mp hj with hj | ⟨rfl, rfl⟩
    · exact h.oneActive i j job other hi hj hactive hactive' heq
    · exact absurd heq (hfree job (List.mem_of_getElem? hi) hactive)
    · exact absurd heq.symm (hfree other (List.mem_of_getElem? hj) hactive')
    · rfl
  · intro i hi job hjob
    rcases getElem?_create.mp hjob with hjob | ⟨rfl, rfl⟩
    · exact h.retrievable i hi job hjob
    · exact absurd (h.sound.known _ hi) (lt_irrefl _)

theorem not_oneActive_create {k : ℕ} {tmdbID : ℤ} {item : Bytes} {job : DemandJob}
    (hjob : job ∈ s.records) (hactive : job.active = true) (heq : job.tmdbID = tmdbID) :
    ¬ OneActive (s.create k tmdbID item) := by
  intro hone
  obtain ⟨i, hi⟩ := List.mem_iff_getElem?.mp hjob
  have hlt : i < s.records.length := (List.getElem?_eq_some_iff.mp hi).1
  have hsame := hone i s.records.length job _ (getElem?_create.mpr (.inl hi))
    (getElem?_create.mpr (.inr ⟨rfl, rfl⟩)) hactive rfl heq
  omega

theorem Sound.jobID_inj (h : Sound s) {i j : ℕ} {job other : DemandJob}
    (hi : s.records[i]? = some job) (hj : s.records[j]? = some other)
    (heq : other.jobID = job.jobID) : other.tmdbID = job.tmdbID ∧ other.second = job.second := by
  obtain ⟨hname, hpos⟩ := h.named job (List.mem_of_getElem? hi)
  obtain ⟨hname', hpos'⟩ := h.named other (List.mem_of_getElem? hj)
  exact demandID_inj hpos' hpos (by rw [← hname, ← hname', heq])

theorem Sound.add (h : Sound s) {k i : ℕ} {job : DemandJob}
    (hk : s.requests[k]? = some (.created i)) : Sound (s.add k i job) := by
  have hpending := h.pending i (List.mem_of_getElem? hk)
  refine ⟨h.named, ?_, ?_, (h.exclusive.eraseIdx hk).1, ?_⟩
  · intro t item ht
    exact h.wanted t item (List.mem_of_mem_eraseIdx ht)
  · intro j hj
    obtain ⟨hlt, hfresh⟩ := h.pending j (List.mem_of_mem_eraseIdx hj)
    refine ⟨hlt, List.not_mem_cons_of_ne_of_not_mem ?_ hfresh⟩
    -- no other request has made the record
    rintro rfl
    exact (h.exclusive.eraseIdx hk).2 j rfl _ hj rfl
  · intro j hj
    rcases List.mem_cons.mp hj with rfl | hj
    · exact hpending.1
    · exact h.known j hj

theorem Orderly.add (h : Orderly s) {k i : ℕ} {job : DemandJob}
    (hk : s.requests[k]? = some (.created i)) (hi : s.records[i]? = some job)
    (hfree : ∀ j ∈ s.accepted, ∀ other : DemandJob, s.records[j]? = some other →
      other.tmdbID = job.tmdbID → other.second ≠ job.second) : Orderly (s.add k i job) := by
  refine ⟨h.sound.add hk, h.oneActive, ?_⟩
  intro j hj other hother
  have hlookup : (s.add k i job).jobs.lookup other.jobID =
      if other.jobID = job.jobID then some i else s.jobs.lookup other.jobID :=
    Dict.lookup_insert _ _ _ _
  rw [hlookup]
  rcases List.mem_cons.mp hj with rfl | hj
  · obtain rfl : other = job := Option.some.inj (hother.symm.trans hi)
    rw [if_pos rfl]
  · rw [if_neg, h.retrievable j hj other hother]
    intro heq
    obtain ⟨hseries, hsecond⟩ := h.sound.jobID_inj hi hother heq
    exact hfree j hj other hother hseries hsecond

theorem not_retrievable_add (h : Sound s) {k i j : ℕ} {job other : DemandJob}
    (hk : s.requests[k]? = some (.created i)) (hi : s.records[i]? = some job)
    (hj : j ∈ s.accepted) (hother : s.records[j]? = some other)
    (hseries : other.tmdbID = job.tmdbID) (hsecond : other.second = job.second) :
    ¬ Retrievable (s.add k i job) := by
  intro hall
  have hname : other.jobID = job.jobID := by
    rw [(h.named other (List.mem_of_getElem? hother)).1, hseries, hsecond,
      (h.named job (List.mem_of_getElem? hi)).1]
  have hget : (s.jobs.insert job.jobID i).lookup other.jobID = some j :=
    hall j (List.mem_cons_of_mem _ hj) other hother
  rw [Dict.lookup_insert, if_pos hname] at hget
  obtain rfl : i = j := Option.some.inj hget
  exact (h.pending i (List.mem_of_getElem? hk)).2 hj

structure Continues (status : JobStatus) (f : DemandJob → DemandJob) : Prop where
  jobID : ∀ job, (f job).jobID = job.jobID
  tmdbID : ∀ job, (f job).tmdbID = job.tmdbID
  second : ∀ job, (f job).second = job.second
  active : ∀ job : DemandJob, job.status = status → job.active = true

theorem continues_run : Continues .started DemandJob.run where
  jobID _ := rfl
  tmdbID _ := rfl
  second _ := rfl
  active job h := by simp [DemandJob.active, h]

theorem continues_finish (error : Option Bytes) :
    Continues .running (DemandJob.finish error) where
  jobID _ := by cases error <;> rfl
  tmdbID _ := by cases error <;> rfl
  second _ := by cases error <;> rfl
  active job h := by simp [DemandJob.active, h]

theorem Continues.of_getElem?_set {status : JobStatus} {f : DemandJob → DemandJob}
    (hf : Continues status f) {records : List DemandJob} {i j : ℕ} {job other : DemandJob}
    (hi : records[i]? = some job) (hstatus : job.status = status)
    (hother : (records.set i (f job))[j]? = some other) :
    ∃ old : DemandJob, records[j]? = some old ∧ other.jobID = old.jobID ∧
      other.tmdbID = old.tmdbID ∧ other.second = old.second ∧
        (other.active = true → old.active = true) := by
  by_cases hij : i = j
  · subst hij
    rw [List.getElem?_set_self (List.getElem?_eq_some_iff.mp hi).1] at hother
    obtain rfl : f job = other := Option.some.inj hother
    exact ⟨job, hi, hf.jobID job, hf.tmdbID job, hf.second job, fun _ => hf.active job hstatus⟩
  · rw [List.getElem?_set_ne hij] at hother
    exact ⟨other, hother, rfl, rfl, rfl, id⟩

/-- What becomes of a job. -/
structure Follows (job other : DemandJob) : Prop where
  jobID : other.jobID = job.jobID
  tmdbID : other.tmdbID = job.tmdbID
  active : other.active = true → job.active = true

theorem follows_write {status : JobStatus} {f : DemandJob → DemandJob} (hf : Continues status f)
    (k : ℕ) {i : ℕ} {job : DemandJob} (hi : s.records[i]? = some job) :
    ∃ other, (s.write k status f).records[i]? = some other ∧ Follows job other := by
  have hsame : Follows job job := ⟨rfl, rfl, id⟩
  unfold DemandTracker.write
  split
  · rename_i old hk
    split_ifs with hstatus
    · by_cases hki : k = i
      · subst hki
        obtain rfl : old = job := Option.some.inj (hk.symm.trans hi)
        exact ⟨f old, List.getElem?_set_self (List.getElem?_eq_some_iff.mp hk).1, hf.jobID old,
          hf.tmdbID old, fun _ => hf.active old hstatus.2⟩
      · exact ⟨job, by rw [List.getElem?_set_ne hki]; exact hi, hsame⟩
    · exact ⟨job, hi, hsame⟩
  · exact ⟨job, hi, hsame⟩

theorem Orderly.set (h : Orderly s) {status : JobStatus} {f : DemandJob → DemandJob}
    (hf : Continues status f) {i : ℕ} {job : DemandJob} (hi : s.records[i]? = some job)
    (hstatus : job.status = status) : Orderly { s with records := s.records.set i (f job) } := by
  refine ⟨⟨?_, h.sound.wanted, ?_, h.sound.exclusive, ?_⟩, ?_, ?_⟩
  · intro other hother
    obtain ⟨j, hj⟩ := List.mem_iff_getElem?.mp hother
    obtain ⟨old, hold, hid, hseries, hsecond, -⟩ := hf.of_getElem?_set hi hstatus hj
    rw [hid, hseries, hsecond]
    exact h.sound.named old (List.mem_of_getElem? hold)
  · intro j hj
    rw [List.length_set]
    exact h.sound.pending j hj
  · intro j hj
    rw [List.length_set]
    exact h.sound.known j hj
  · intro j k other other' hj hk hactive hactive' heq
    obtain ⟨old, hold, -, hseries, -, hback⟩ := hf.of_getElem?_set hi hstatus hj
    obtain ⟨old', hold', -, hseries', -, hback'⟩ := hf.of_getElem?_set hi hstatus hk
    exact h.oneActive j k old old' hold hold' (hback hactive) (hback' hactive')
      (by rw [← hseries, ← hseries', heq])
  · intro j hj other hother
    obtain ⟨old, hold, hid, -⟩ := hf.of_getElem?_set hi hstatus hother
    rw [hid]
    exact h.retrievable j hj old hold

theorem Orderly.write (h : Orderly s) {status : JobStatus} {f : DemandJob → DemandJob}
    (hf : Continues status f) (i : ℕ) : Orderly (s.write i status f) := by
  unfold DemandTracker.write
  split
  · rename_i job hi
    split_ifs with hstatus
    · exact h.set hf hi hstatus.2
    · exact h
  · exact h

theorem orderly_new (now : ℤ) : Orderly (DemandTracker.newDemandTracker now) where
  sound := sound_new now
  oneActive := by simp [OneActive, DemandTracker.newDemandTracker]
  retrievable := by simp [Retrievable, DemandTracker.newDemandTracker]

theorem Orderly.advance (h : Orderly s) {k : ℕ} (hok : Undisturbed s (.advance k)) :
    Orderly (s.advance k) := by
  unfold DemandTracker.advance
  cases hk : s.requests[k]? with
  | none => exact h
  | some r =>
    simp only [Undisturbed, hk] at hok
    cases r with
    | checked tmdbID item => exact h.create hk hok
    | created i =>
      cases hi : s.records[i]? with
      | none => simpa only [hi] using h
      | some job => simpa only [hi] using h.add hk hi (hok job hi)

theorem Orderly.step (s : DemandTracker) (op : Op) (h : Orderly s) (hok : Undisturbed s op) :
    Orderly (step s op) := by
  cases op with
  | post order body => exact h.check order body
  | advance k => exact h.advance hok
  | begin i => exact h.write continues_run i
  | finish i error => exact h.write (continues_finish error) i
  | clock now => exact h.of_eq rfl rfl rfl (.inl rfl)

theorem records_check (order : MapOrder) (body : Option (ℤ × Bytes)) :
    (s.check order body).records = s.records := by
  unfold DemandTracker.check
  split
  · rfl
  · split_ifs
    · rfl
    · split <;> rfl

theorem follows_step (s : DemandTracker) (op : Op) {i : ℕ} {job : DemandJob}
    (hi : s.records[i]? = some job) :
    ∃ other, (step s op).records[i]? = some other ∧ Follows job other := by
  have hsame : Follows job job := ⟨rfl, rfl, id⟩
  cases op with
  | post order body =>
    rw [Demand.step, records_check]
    exact ⟨job, hi, hsame⟩
  | advance k =>
    refine ⟨job, ?_, hsame⟩
    simp only [Demand.step, DemandTracker.advance]
    split
    · exact (List.getElem?_append_left (List.getElem?_eq_some_iff.mp hi).1).trans hi
    · split <;> exact hi
    · exact hi
  | begin k => exact follows_write continues_run k hi
  | finish k error => exact follows_write (continues_finish error) k hi
  | clock now => exact ⟨job, hi, hsame⟩

theorem bad_of_disturbed (s : DemandTracker) (op : Op) (h : Orderly s) (hbad : ¬ Undisturbed s op) :
    ¬ Promised (Demand.step s op) := by
  cases op with
  | advance k =>
    have hstep : Demand.step s (.advance k) = s.advance k := rfl
    rw [hstep, DemandTracker.advance]
    cases hk : s.requests[k]? with
    | none => simp [Undisturbed, hk] at hbad
    | some r =>
      simp only [Undisturbed, hk] at hbad
      cases r with
      | checked tmdbID item =>
        push Not at hbad
        obtain ⟨job, hjob, hactive, heq⟩ := hbad
        exact fun hgood => not_oneActive_create hjob hactive heq hgood.1
      | created i =>
        push Not at hbad
        obtain ⟨job, hi, j, hj, other, hother, hseries, hsecond⟩ := hbad
        simp only [hi]
        exact fun hgood => not_retrievable_add h.sound hk hi hj hother hseries hsecond hgood.2
  | post | begin | finish | clock => exact absurd trivial hbad

/-- When jobs of one series exclude each other. -/
theorem demand_exclusive_iff (now : ℤ) (ops : List Op) :
    (∀ pre, pre <+: ops → Promised (run Demand.step (.newDemandTracker now) pre)) ↔
      Meets Undisturbed Demand.step (.newDemandTracker now) ops := by
  constructor
  · apply meets_of_good Orderly.step _ ops (orderly_new now) fun _ _ => (trivial : True)
    exact fun s op h _ hbad => bad_of_disturbed s op h hbad
  · exact Meets.good Orderly.step (fun s h => ⟨h.oneActive, h.retrievable⟩) ops (orderly_new now)

def twoRequests : List Op :=
  [.post .listed (some (5, [])), .post .listed (some (5, [])), .advance 0, .advance 1, .advance 0,
    .advance 0]

theorem twoRequests_both_active :
    ¬ OneActive (run Demand.step (.newDemandTracker 1700000000) twoRequests) ∧
    ¬ Retrievable (run Demand.step (.newDemandTracker 1700000000) twoRequests) := by
  constructor
  · intro h
    exact absurd (h 0 1 _ _ rfl rfl rfl rfl rfl) (by decide)
  · intro h
    have hlookup := h 0 (by decide) _ rfl
    revert hlookup
    decide

end GoStream.Demand
