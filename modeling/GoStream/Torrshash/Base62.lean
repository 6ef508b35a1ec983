import GoStream.Torrshash.Tokens

/-!
# The base-62 codec
-/

namespace GoStream.Torrshash

open Foundations

def encodeTurn (s : ℕ × Bytes) : ℕ × Bytes :=
  if 0 < s.1 then (s.1 / 62, s.2 ++ [base62Alphabet.getD (s.1 % 62) 0]) else s

theorem iterate_encodeTurn (x : ℕ) (res : Bytes) :
    encodeTurn^[(Nat.digits 62 x).length] (x, res) =
      (0, res ++ (Nat.digits 62 x).map fun d => base62Alphabet.getD d 0) := by
  induction x using Nat.strongRecOn generalizing res with
  | ind x ih =>
    rcases Nat.eq_zero_or_pos x with rfl | hpos
    · simp
    · have hturn : encodeTurn (x, res) = (x / 62, res ++ [base62Alphabet.getD (x % 62) 0]) :=
        if_pos hpos
      rw [Nat.digits_def' (by decide) hpos, List.length_cons, Function.iterate_succ_apply, hturn,
        ih (x / 62) (Nat.div_lt_self hpos (by decide)), List.map_cons, List.append_assoc,
        List.singleton_append]

theorem length_base62Alphabet : base62Alphabet.length = 62 := by decide

theorem nodup_base62Alphabet : base62Alphabet.Nodup := by decide +kernel

theorem encode62_decode62 {s : Bytes} (hs : ∀ c ∈ s, c ∈ base62Alphabet)
    (hhead : s.head? ≠ (ascii "0").head?) : encode62 (decode62 s) = s := by
  rw [encode62, decode62, ofBigEndian_bigEndian]
  exact encodeBase_decodeBase (by decide) nodup_base62Alphabet hs hhead

/-- Decoding inverts encoding up to leading zeros. -/
theorem base62_codec :
    (∀ b : Bytes, decode62 (encode62 b) = b.dropWhile (· = 0)) ∧
      (∀ s : Bytes, (∀ c ∈ s, c ∈ base62Alphabet) → s.head? ≠ (ascii "0").head? →
        encode62 (decode62 s) = s) ∧
      ∀ b : Bytes, (∃ n, encodeTurn^[n] (ofBigEndian b, []) = (0, (encode62 b).reverse)) ∧
        ∀ c ∈ encode62 b, c ∈ base62Alphabet := by
  refine ⟨fun b => ?_, fun s => encode62_decode62, fun b => ⟨?_, fun c => ?_⟩⟩
  · rw [decode62, encode62, decodeBase_encodeBase (by decide) nodup_base62Alphabet,
      Int.natAbs_natCast, bigEndian_ofBigEndian_eq_dropWhile]
  · refine ⟨_, (iterate_encodeTurn (ofBigEndian b) []).trans ?_⟩
    rw [encode62, encodeBase, length_base62Alphabet, List.reverse_reverse, List.nil_append]
  · exact mem_encodeBase (by decide)

end GoStream.Torrshash
