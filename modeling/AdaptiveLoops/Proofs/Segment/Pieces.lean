/-
Pieces of a segment (`Segment.chunks`) and offsets into it
(`Segment.indexAtOffset?`), in exact arithmetic.

`flatMap_chunks`: the pieces of a length that is a signed 64-bit number hold
the segment's indices, each once and in order. `length_chunk_le`: a piece is
never longer than its segment, whatever the length asked for, so what fits a
segment fits its pieces. `indexAtOffset?_eq`: an offset reaches its index, with no
overflow, as long as it is a signed 64-bit number.
-/
import AdaptiveLoops.Segment
import Mathlib.Data.List.Nodup

namespace AdaptiveLoops.Segment

/-- Every offset into the segment is a signed 64-bit number. -/
def Addressable (s : Segment) : Prop := (s.length : Int) ≤ Int64.maxValue.toInt

theorem toInt_ofIntClamp (x : Int) :
    (Int64.ofIntClamp x).toInt = max Int64.minValue.toInt (min x Int64.maxValue.toInt) := by
  have hle : Int64.minValue.toInt ≤ Int64.maxValue.toInt := by decide
  unfold Int64.ofIntClamp
  split
  · split
    · rw [Int64.toInt_ofIntLE]; omega
    · omega
  · omega

theorem toInt_min (a b : Int64) : (min a b).toInt = min a.toInt b.toInt := by
  show (if a ≤ b then a else b).toInt = _
  split
  · next h => rw [Int64.le_iff_toInt_le] at h; omega
  · next h => rw [Int64.le_iff_toInt_le] at h; omega

theorem begin_add_length {s : Segment} (h : 0 < s.length) :
    s.begin.toInt + s.length = s.stop.toInt := by
  unfold length at *
  omega

/-! ## Indices -/

@[simp] theorem length_indices (s : Segment) : s.indices.length = s.length := by
  simp [indices]

theorem mem_indices {s : Segment} {i : Int} :
    i ∈ s.indices ↔ s.begin.toInt ≤ i ∧ i < s.stop.toInt := by
  simp only [indices, List.mem_map, List.mem_range, index, length]
  constructor
  · rintro ⟨k, hk, rfl⟩
    omega
  · rintro ⟨hlo, hhi⟩
    exact ⟨(i - s.begin.toInt).toNat, by omega, by omega⟩

theorem nodup_indices (s : Segment) : s.indices.Nodup := by
  refine List.Nodup.map (fun a b h => ?_) List.nodup_range
  simp only [index] at h
  omega

/-! ## Pieces of any length -/

theorem begin_le_chunkBegin (s : Segment) (len : UInt64) (k : Nat) :
    s.begin.toInt ≤ (s.chunkBegin len k).toInt := by
  have hlo := s.begin.minValue_le_toInt
  have hhi := s.begin.toInt_le
  have hk : (0 : Int) ≤ k * (step len).toNat := Int.mul_nonneg (by omega) (by omega)
  rw [chunkBegin, toInt_ofIntClamp]
  omega

theorem length_chunk_le (s : Segment) (len : UInt64) (k : Nat) :
    (s.chunk len k).length ≤ s.length := by
  have h := s.begin_le_chunkBegin len k
  simp only [chunk, length, toInt_min]
  omega

theorem Addressable.chunk {s : Segment} (h : s.Addressable) (len : UInt64) (k : Nat) :
    (s.chunk len k).Addressable := by
  have := s.length_chunk_le len k
  unfold Addressable at *
  omega

theorem lt_chunkCount_iff {s : Segment} {len : UInt64} {k : Nat} :
    k < s.chunkCount len ↔ k * (step len).toNat < s.length := by
  have hpos := step_pos len
  rw [← Nat.succ_le_iff, chunkCount, Nat.le_div_iff_mul_le hpos, Nat.succ_mul]
  omega

/-! ## Pieces of a signed length -/

theorem toInt_chunkBegin {s : Segment} {len : UInt64} {k : Nat}
    (hk : k * (step len).toNat < s.length) :
    (s.chunkBegin len k).toInt = s.begin.toInt + (k * (step len).toNat : Nat) := by
  have hlo := s.begin.minValue_le_toInt
  have hhi := s.stop.toInt_le
  have hend := begin_add_length (s := s) (by omega)
  rw [chunkBegin, toInt_ofIntClamp]
  push_cast at *
  omega

/-- A length that is a signed 64-bit number is added as the number it is. -/
theorem toInt_advance {i : Int64} {len : UInt64} (hlen : (len.toNat : Int) ≤ Int64.maxValue.toInt) :
    (advance i len).toInt = min (i.toInt + (step len).toNat) Int64.maxValue.toInt := by
  have hstep : ((step len).toNat : Int) ≤ Int64.maxValue.toInt := by
    unfold step
    split
    · decide
    · exact hlen
  have hsigned : (step len).toInt64.toInt = (step len).toNat := by
    show (step len).toBitVec.toInt = _
    rw [BitVec.toInt_eq_toNat_of_lt]
    · rfl
    · have : Int64.maxValue.toInt = 2 ^ 63 - 1 := rfl
      show 2 * (step len).toNat < 2 ^ 64
      omega
  have hlo := i.minValue_le_toInt
  have hhi := i.toInt_le
  rw [advance, toInt_ofIntClamp, hsigned]
  omega

theorem indices_chunk {s : Segment} {len : UInt64} {k : Nat}
    (hlen : (len.toNat : Int) ≤ Int64.maxValue.toInt) (hk : k * (step len).toNat < s.length) :
    (s.chunk len k).indices =
      (List.range' (k * (step len).toNat)
        (min (step len).toNat (s.length - k * (step len).toNat))).map s.index := by
  have hbegin := toInt_chunkBegin hk
  have hend := begin_add_length (s := s) (by omega)
  have hhi := s.stop.toInt_le
  have hlength : (s.chunk len k).length = min (step len).toNat (s.length - k * (step len).toNat) := by
    have hle := s.stop.toInt_le
    simp only [chunk, length, toInt_min, toInt_advance hlen, hbegin] at *
    omega
  rw [indices, hlength, List.range'_eq_map_range, List.map_map]
  refine List.map_congr_left fun j _ => ?_
  simp only [index, chunk, hbegin, Function.comp]
  omega

/-- Cutting the first `n` numbers into pieces of `q` leaves none out. -/
theorem flatMap_range'_mul (q n : Nat) : ∀ m,
    (List.range m).flatMap (fun k => List.range' (k * q) (min q (n - k * q))) = List.range (min n (m * q))
  | 0 => by simp
  | m + 1 => by
    rw [List.range_succ, List.flatMap_append, flatMap_range'_mul q n m, List.flatMap_singleton]
    rw [List.range_eq_range', List.range_eq_range', Nat.succ_mul]
    by_cases hm : m * q ≤ n
    · have hfirst : min n (m * q) = m * q := by omega
      have hboth : m * q + min q (n - m * q) = min n (m * q + q) := by omega
      rw [hfirst, ← hboth]
      simpa using List.range'_append_1 (s := 0) (m := m * q) (n := min q (n - m * q))
    · have hfirst : min n (m * q) = min n (m * q + q) := by omega
      have hrest : min q (n - m * q) = 0 := by omega
      rw [hfirst, hrest, List.range'_zero, List.append_nil]

/-- **The pieces hold the indices of their segment**, each once and in order. -/
theorem flatMap_chunks {s : Segment} {len : UInt64} (hlen : (len.toNat : Int) ≤ Int64.maxValue.toInt) :
    (s.chunks len).flatMap indices = s.indices := by
  have hpos := step_pos len
  have hcount : min s.length (s.chunkCount len * (step len).toNat) = s.length := by
    have := Nat.div_add_mod (s.length + ((step len).toNat - 1)) (step len).toNat
    have := Nat.mod_lt (s.length + ((step len).toNat - 1)) hpos
    rw [chunkCount, Nat.mul_comm]
    omega
  have hpieces : ∀ k ∈ List.range (s.chunkCount len), (s.chunk len k).indices =
      (List.range' (k * (step len).toNat)
        (min (step len).toNat (s.length - k * (step len).toNat))).map s.index := fun k hk =>
    indices_chunk hlen (lt_chunkCount_iff.1 (List.mem_range.1 hk))
  rw [chunks, List.flatMap_map, List.flatMap_congr hpieces, ← List.map_flatMap, flatMap_range'_mul,
    hcount, indices]

/-! ## Offsets -/

/-- How many offsets are signed 64-bit numbers. -/
def signedOffsets : Nat := Int64.maxValue.toInt.toNat + 1

theorem signedOffset_eq {k : Nat} (hk : k < UInt64.size) :
    signedOffset k = if k < signedOffsets then (k : Int) else k - (UInt64.size : Int) := by
  have hsize : UInt64.size = 18446744073709551616 := rfl
  have hlimit : signedOffsets = 9223372036854775808 := rfl
  unfold signedOffset
  rw [Int.bmod_def, hsize, hlimit, Int.emod_eq_of_lt (by omega) (by omega)]
  split <;> split <;> omega

/-- **An offset reaches its index exactly where it is a signed 64-bit number.** -/
theorem indexAtOffset?_eq {s : Segment} {k : Nat} (hk : k < s.length) :
    s.indexAtOffset? k = if k < signedOffsets then some (s.index k) else none := by
  have hend := begin_add_length (s := s) (by omega)
  have hlo := s.begin.minValue_le_toInt
  have hhi := s.stop.toInt_le
  have hsize : UInt64.size = 18446744073709551616 := rfl
  have hlimit : signedOffsets = 9223372036854775808 := rfl
  have hmin : Int64.minValue.toInt = -9223372036854775808 := rfl
  have hmax : Int64.maxValue.toInt = 9223372036854775807 := rfl
  simp only [indexAtOffset?, index, signedOffset_eq (Nat.lt_trans hk s.length_lt)]
  by_cases hsmall : k < signedOffsets
  · rw [if_pos hsmall, if_pos hsmall, if_pos (by omega)]
  · rw [if_neg hsmall, if_neg hsmall, if_neg (by omega)]

theorem indexAtOffset?_eq_some {s : Segment} (h : s.Addressable) {k : Nat} (hk : k < s.length) :
    s.indexAtOffset? k = some (s.index k) := by
  have hlimit : k < signedOffsets := by
    unfold Addressable at h
    unfold signedOffsets
    omega
  rw [indexAtOffset?_eq hk, if_pos hlimit]

end AdaptiveLoops.Segment
