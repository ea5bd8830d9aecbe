/-
Which pieces a segment is cut into (`Segment.chunks`).

Pieces of a length that is a signed 64-bit number follow one another from the
begin of the segment to its end (`cuts_chunks`). A longer length is added as
the negative number it is read as, so that every piece ends where it begins
or before, and no index of the segment is in any of them
(`isEmpty_of_mem_chunks`).

Where a piece begins is exact for every length (`toInt_chunkBegin`), as the
length is unsigned there.
-/
import AdaptiveLoops.Proofs.Segment.Pieces
import Mathlib.Data.List.Range

namespace AdaptiveLoops.Segment

/-- `pieces` follow one another from the begin of `s` to its end, of `size` indices each but the last. -/
structure Cuts (s : Segment) (size : Nat) (pieces : List Segment) : Prop where
  nonempty : ∀ p ∈ pieces, 0 < p.length
  length_le : ∀ p ∈ pieces, p.length ≤ size
  length_eq : ∀ p ∈ pieces.dropLast, p.length = size
  consecutive : pieces.IsChain fun p q => q.begin = p.stop
  first : ∀ p ∈ pieces.head?, p.begin = s.begin
  last : ∀ p ∈ pieces.getLast?, p.stop = s.stop
  eq_nil_iff : pieces = [] ↔ s.stop ≤ s.begin

theorem toNat_step (len : UInt64) : (step len).toNat = max len.toNat 1 := by
  unfold step
  split
  · next h => simp [h]
  · next h =>
    have : 0 < len.toNat := Nat.pos_of_ne_zero fun e => h (UInt64.toNat_inj.1 e)
    omega

variable {s : Segment} {len : UInt64} {k : Nat}

theorem mem_chunks {p : Segment} : p ∈ s.chunks len ↔ ∃ k < s.chunkCount len, s.chunk len k = p := by
  simp [chunks]

theorem chunks_eq_nil_iff : s.chunks len = [] ↔ s.stop ≤ s.begin := by
  have hpos : 0 < s.chunkCount len ↔ 0 < s.length := by simpa using lt_chunkCount_iff (k := 0)
  have hempty := s.isEmpty_iff
  simp only [isEmpty, decide_eq_true_eq] at hempty
  rw [chunks, List.map_eq_nil_iff, List.range_eq_nil, hempty]
  omega

/-! ## Lengths that are signed 64-bit numbers -/

theorem toInt_stop_chunk (hlen : (len.toNat : Int) ≤ Int64.maxValue.toInt)
    (hk : k * (step len).toNat < s.length) :
    (s.chunk len k).stop.toInt = min (s.begin.toInt + ((k + 1) * (step len).toNat : Nat)) s.stop.toInt := by
  have hle := s.stop.toInt_le
  rw [chunk, toInt_min, toInt_advance hlen, toInt_chunkBegin hk, Nat.succ_mul]
  omega

/-- A piece is as long as asked for, or has what is left of the segment. -/
theorem length_chunk (hlen : (len.toNat : Int) ≤ Int64.maxValue.toInt)
    (hk : k * (step len).toNat < s.length) :
    (s.chunk len k).length = min (step len).toNat (s.length - k * (step len).toNat) := by
  have hend := begin_add_length (s := s) (by omega)
  have hstop := toInt_stop_chunk hlen hk
  have hbegin : (s.chunk len k).begin.toInt = _ := toInt_chunkBegin hk
  rw [Nat.succ_mul] at hstop
  rw [length, hstop, hbegin]
  omega

theorem length_chunk_of_next (hlen : (len.toNat : Int) ≤ Int64.maxValue.toInt) (hnext : k + 1 < s.chunkCount len) :
    (s.chunk len k).length = (step len).toNat := by
  have hnext := lt_chunkCount_iff.1 hnext
  rw [Nat.succ_mul] at hnext
  rw [length_chunk hlen (by omega)]
  omega

theorem chunkBegin_succ (hlen : (len.toNat : Int) ≤ Int64.maxValue.toInt) (hnext : k + 1 < s.chunkCount len) :
    s.chunkBegin len (k + 1) = (s.chunk len k).stop := by
  have hk := lt_chunkCount_iff.1 (Nat.lt_of_succ_lt hnext)
  have hnext := lt_chunkCount_iff.1 hnext
  have hend := begin_add_length (s := s) (by omega)
  rw [← Int64.toInt_inj, toInt_chunkBegin hnext, toInt_stop_chunk hlen hk]
  omega

theorem chunkBegin_zero (hpos : 0 < s.chunkCount len) : s.chunkBegin len 0 = s.begin := by
  rw [← Int64.toInt_inj, toInt_chunkBegin (lt_chunkCount_iff.1 hpos)]
  simp

theorem stop_chunk_last (hlen : (len.toNat : Int) ≤ Int64.maxValue.toInt) (hlast : s.chunkCount len = k + 1) :
    (s.chunk len k).stop = s.stop := by
  have hk := lt_chunkCount_iff.1 (show k < s.chunkCount len by omega)
  have hnext := mt lt_chunkCount_iff.2 (show ¬ k + 1 < s.chunkCount len by omega)
  have hend := begin_add_length (s := s) (by omega)
  rw [← Int64.toInt_inj, toInt_stop_chunk hlen hk]
  omega

/-- **Pieces of a signed length cut the segment**, whatever its begin and its end. -/
theorem cuts_chunks (hlen : (len.toNat : Int) ≤ Int64.maxValue.toInt) :
    s.Cuts (max len.toNat 1) (s.chunks len) := by
  have hpos := step_pos len
  rw [← toNat_step]
  have hlength : ∀ k < s.chunkCount len, 0 < (s.chunk len k).length ∧ (s.chunk len k).length ≤ (step len).toNat := by
    intro k hk
    have hk := lt_chunkCount_iff.1 hk
    rw [length_chunk hlen hk]
    omega
  refine ⟨?_, ?_, ?_, ?_, ?_, ?_, chunks_eq_nil_iff⟩
  · intro p hp
    obtain ⟨k, hk, rfl⟩ := mem_chunks.1 hp
    exact (hlength k hk).1
  · intro p hp
    obtain ⟨k, hk, rfl⟩ := mem_chunks.1 hp
    exact (hlength k hk).2
  · intro p hp
    cases hcount : s.chunkCount len with
    | zero => simp [chunks, hcount] at hp
    | succ n =>
      rw [chunks, hcount, List.range_succ, List.map_append, List.map_singleton, List.dropLast_concat,
        List.mem_map] at hp
      obtain ⟨k, hk, rfl⟩ := hp
      exact length_chunk_of_next hlen (by have := List.mem_range.1 hk; omega)
  · rw [chunks, List.isChain_map, List.isChain_range]
    exact fun k hk => chunkBegin_succ hlen (by omega)
  · intro p hp
    obtain ⟨hcount, rfl⟩ : s.chunkCount len ≠ 0 ∧ s.chunk len 0 = p := by
      simpa [chunks, List.head?_range] using hp
    exact chunkBegin_zero (Nat.pos_of_ne_zero hcount)
  · intro p hp
    obtain ⟨hcount, rfl⟩ : s.chunkCount len ≠ 0 ∧ s.chunk len (s.chunkCount len - 1) = p := by
      simpa [chunks, List.getLast?_range] using hp
    exact stop_chunk_last hlen (by omega)

/-! ## Longer lengths -/

/-- A longer length leads back, or stays at the smallest index. -/
theorem toInt_advance_le {i : Int64} (hlen : Int64.maxValue.toInt < (len.toNat : Int)) :
    (advance i len).toInt ≤ i.toInt := by
  have hmax : Int64.maxValue.toInt = 2 ^ 63 - 1 := rfl
  have hsigned : (step len).toInt64.toInt = (len.toNat : Int) - 2 ^ 64 := by
    have hstep : (step len).toNat = len.toNat := by
      rw [toNat_step]
      omega
    show (step len).toBitVec.toInt = _
    rw [BitVec.toInt_eq_toNat_cond, if_neg]
    · show ((step len).toNat : Int) - _ = _
      rw [hstep]
      rfl
    · show ¬ 2 * (step len).toNat < 2 ^ 64
      omega
  have hlt := len.toNat_lt
  have hlo := i.minValue_le_toInt
  rw [advance, toInt_ofIntClamp, hsigned]
  omega

/-- **Pieces of a longer length are all empty.** -/
theorem isEmpty_of_mem_chunks (hlen : Int64.maxValue.toInt < (len.toNat : Int)) {p : Segment}
    (hp : p ∈ s.chunks len) : p.isEmpty = true := by
  obtain ⟨k, -, rfl⟩ := mem_chunks.1 hp
  have hback := toInt_advance_le (i := s.chunkBegin len k) hlen
  simp only [isEmpty, decide_eq_true_eq, Int64.le_iff_toInt_le, chunk, toInt_min]
  omega

theorem flatMap_chunks_eq_nil (hlen : Int64.maxValue.toInt < (len.toNat : Int)) :
    (s.chunks len).flatMap indices = [] := by
  rw [List.flatMap_eq_nil_iff]
  intro p hp
  rw [← List.length_eq_zero_iff, length_indices, ← isEmpty_iff]
  exact isEmpty_of_mem_chunks hlen hp

theorem chunkCount_le_two (hlen : Int64.maxValue.toInt < (len.toNat : Int)) : s.chunkCount len ≤ 2 := by
  have hmax : Int64.maxValue.toInt = 2 ^ 63 - 1 := rfl
  have hlength := s.length_lt
  have hsize : UInt64.size = 2 ^ 64 := rfl
  refine Nat.not_lt.1 fun hmany => ?_
  have := lt_chunkCount_iff.1 hmany
  rw [toNat_step] at this
  omega

end AdaptiveLoops.Segment
