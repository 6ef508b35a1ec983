import GoStream.Foundations.Buffers
import GoStream.Foundations.Text

/-!
# What a stream writes into its pipe
-/

namespace GoStream.Bridge

open Foundations

structure StreamEnv where
  gotInfo : Bool
  hasFile : Bool
  hasReader : Bool
  seekFails : Bool
  cut : Option ℕ
  panics : Bool
  deriving DecidableEq, Repr

def StreamEnv.good : StreamEnv := ⟨true, true, true, false, none, false⟩

def httpError (text : Bytes) : Bytes := text ++ [10]

def serveContent (content : Bytes) (off : ℕ) (last : Option ℤ) : Bytes :=
  if off ≥ content.length then
    -- the range of an empty file is ignored
    if content = [] then [] else httpError (ascii "invalid range: failed to overlap")
  else
    match last with
    | none => content.drop off
    | some last =>
      if last < off then httpError (ascii "invalid range")
      else byteRange content off (min last (content.length - 1))

def served (content : Bytes) (env : StreamEnv) (off : ℕ) (last : Option ℤ) : Bytes :=
  let body := if env.seekFails then httpError (ascii "seeker can't seek")
    else serveContent content off last
  match env.cut with
  | none => body
  | some k => body.take k

structure Sent where
  bytes : Bytes
  failed : Bool
  deriving DecidableEq, Repr

def stream (maxSize : ℤ) (content : Bytes) (env : StreamEnv) (off : ℕ) (last : Option ℤ) : Sent :=
  if !env.gotInfo then ⟨httpError (ascii "404 page not found"), true⟩
  else if !env.hasFile then ⟨[], true⟩
  else if maxSize > 0 ∧ (content.length : ℤ) > maxSize then
    ⟨httpError (ascii "file size exceeded max allowed " ++ itoa maxSize ++ ascii " bytes"), true⟩
  else if !env.hasReader then ⟨[], true⟩
  else ⟨served content env off last, env.panics⟩

def Answers (maxSize : ℤ) (content : Bytes) (env : StreamEnv) (off : ℕ) : Prop :=
  env.gotInfo = true ∧
    (env.hasFile = true → ¬ (maxSize > 0 ∧ (content.length : ℤ) > maxSize) ∧
      (env.hasReader = true → env.seekFails = false ∧ (off < content.length ∨ content = [])))

instance (maxSize : ℤ) (content : Bytes) (env : StreamEnv) (off : ℕ) :
    Decidable (Answers maxSize content env off) :=
  inferInstanceAs (Decidable (_ ∧ _))

variable {maxSize : ℤ} {content : Bytes} {env : StreamEnv} {off : ℕ} {last : Option ℤ}

theorem serveContent_prefix (hoff : off < content.length ∨ content = [])
    (hlast : ∀ l ∈ last, (off : ℤ) ≤ l) :
    serveContent content off last <+: content.drop off := by
  unfold serveContent
  split_ifs with hge hnil
  · exact List.nil_prefix
  · rcases hoff with hlt | hnil'
    · omega
    · exact absurd hnil' hnil
  · cases last with
    | none => exact List.prefix_refl _
    | some l =>
      simp only [not_lt.mpr (hlast l rfl), if_false]
      exact List.take_prefix _ _

theorem stream_prefix (h : Answers maxSize content env off) (hlast : ∀ l ∈ last, (off : ℤ) ≤ l) :
    (stream maxSize content env off last).bytes <+: content.drop off := by
  obtain ⟨hinfo, hfile⟩ := h
  unfold stream
  split_ifs with h1 h2 h3 h4
  · simp [hinfo] at h1
  · exact List.nil_prefix
  · exact absurd h3 (hfile (by simpa using h2)).1
  · exact List.nil_prefix
  · obtain ⟨hseek, hoff⟩ := (hfile (by simpa using h2)).2 (by simpa using h4)
    have hbody := serveContent_prefix hoff hlast
    simp only [served, hseek, Bool.false_eq_true, if_false]
    cases env.cut with
    | none => exact hbody
    | some k => exact (List.take_prefix k _).trans hbody

end GoStream.Bridge
