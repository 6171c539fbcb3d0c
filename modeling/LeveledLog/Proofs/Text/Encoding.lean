import LeveledLog.Text.Utf8
import Mathlib.Tactic.SplitIfs

/-!
Encoding as UTF-8. Decoding gives the text back, so no two texts have one encoding. A byte below 128
stands for its character wherever it occurs, and is never part of another one.
-/

namespace LeveledLog.Text

theorem toNat_byte {n : Nat} (h : n < 256) : (UInt8.ofNat n).toNat = n :=
  UInt8.toNat_ofNat'.trans (Nat.mod_eq_of_lt h)

theorem byte_lt_iff {n k : Nat} (hn : n < 256) (hk : k < 256) :
    UInt8.ofNat n < UInt8.ofNat k ↔ n < k := by
  rw [UInt8.lt_iff_toNat_lt, toNat_byte hn, toNat_byte hk]

theorem byte_le_iff {n k : Nat} (hn : n < 256) (hk : k < 256) :
    UInt8.ofNat k ≤ UInt8.ofNat n ↔ k ≤ n := by
  rw [UInt8.le_iff_toNat_le, toNat_byte hk, toNat_byte hn]

theorem toNat_valid (c : Char) : c.toNat.isValidChar := c.valid

theorem toNat_lt (c : Char) : c.toNat < 0x110000 := by
  have hvalid := toNat_valid c
  simp only [Nat.isValidChar] at hvalid
  omega

/-! ### Decoding by the first byte -/

section

variable {n : Nat} (rest : List UInt8) (b b' b'' : UInt8)

theorem decodeFirst_one (high : n < 0x80) :
    decodeFirst? (UInt8.ofNat n :: rest) = some (Char.ofNat n, rest) := by
  have hone : UInt8.ofNat n < 0x80 := (byte_lt_iff (k := 0x80) (by omega) (by omega)).mpr high
  unfold decodeFirst?
  simp only [if_pos hone, toNat_byte (show n < 256 by omega)]

theorem decodeFirst_two (low : 0xc2 ≤ n) (high : n < 0xe0) :
    decodeFirst? (UInt8.ofNat n :: b :: rest) =
      (sequencePoint? 0x80 (n - 0xc0) [b]).map (·, rest) := by
  have hone : ¬UInt8.ofNat n < 0x80 :=
    mt (byte_lt_iff (k := 0x80) (by omega) (by omega)).mp (by omega)
  have htwo : 0xc2 ≤ UInt8.ofNat n ∧ UInt8.ofNat n < 0xe0 :=
    ⟨(byte_le_iff (k := 0xc2) (by omega) (by omega)).mpr low,
      (byte_lt_iff (k := 0xe0) (by omega) (by omega)).mpr high⟩
  rw [decodeFirst?, if_neg hone, if_pos htwo, toNat_byte (by omega)]

theorem decodeFirst_three (low : 0xe0 ≤ n) (high : n < 0xf0) :
    decodeFirst? (UInt8.ofNat n :: b :: b' :: rest) =
      (sequencePoint? 0x800 (n - 0xe0) [b, b']).map (·, rest) := by
  have hone : ¬UInt8.ofNat n < 0x80 :=
    mt (byte_lt_iff (k := 0x80) (by omega) (by omega)).mp (by omega)
  have htwo : ¬(0xc2 ≤ UInt8.ofNat n ∧ UInt8.ofNat n < 0xe0) := fun h =>
    absurd ((byte_lt_iff (k := 0xe0) (by omega) (by omega)).mp h.2) (by omega)
  have hthree : 0xe0 ≤ UInt8.ofNat n ∧ UInt8.ofNat n < 0xf0 :=
    ⟨(byte_le_iff (k := 0xe0) (by omega) (by omega)).mpr low,
      (byte_lt_iff (k := 0xf0) (by omega) (by omega)).mpr high⟩
  rw [decodeFirst?, if_neg hone, if_neg htwo, if_pos hthree, toNat_byte (by omega)]

theorem decodeFirst_four (low : 0xf0 ≤ n) (high : n < 0xf5) :
    decodeFirst? (UInt8.ofNat n :: b :: b' :: b'' :: rest) =
      (sequencePoint? 0x10000 (n - 0xf0) [b, b', b'']).map (·, rest) := by
  have hone : ¬UInt8.ofNat n < 0x80 :=
    mt (byte_lt_iff (k := 0x80) (by omega) (by omega)).mp (by omega)
  have htwo : ¬(0xc2 ≤ UInt8.ofNat n ∧ UInt8.ofNat n < 0xe0) := fun h =>
    absurd ((byte_lt_iff (k := 0xe0) (by omega) (by omega)).mp h.2) (by omega)
  have hthree : ¬(0xe0 ≤ UInt8.ofNat n ∧ UInt8.ofNat n < 0xf0) := fun h =>
    absurd ((byte_lt_iff (k := 0xf0) (by omega) (by omega)).mp h.2) (by omega)
  have hfour : 0xf0 ≤ UInt8.ofNat n ∧ UInt8.ofNat n < 0xf5 :=
    ⟨(byte_le_iff (k := 0xf0) (by omega) (by omega)).mpr low,
      (byte_lt_iff (k := 0xf5) (by omega) (by omega)).mpr high⟩
  rw [decodeFirst?, if_neg hone, if_neg htwo, if_neg hthree, if_pos hfour, toNat_byte (by omega)]

end

theorem continuation_byte {n : Nat} (h : n < 64) :
    continuation? (UInt8.ofNat (n + 0x80)) = some n := by
  have hwithin : 0x80 ≤ UInt8.ofNat (n + 0x80) ∧ UInt8.ofNat (n + 0x80) < 0xc0 :=
    ⟨(byte_le_iff (k := 0x80) (by omega) (by omega)).mpr (by omega),
      (byte_lt_iff (k := 0xc0) (by omega) (by omega)).mpr (by omega)⟩
  rw [continuation?, if_pos hwithin, toNat_byte (by omega), Nat.add_sub_cancel]

/-- Bytes whose bits make up a character spell it. -/
theorem sequencePoint_spelled {c : Char} {least lead : Nat} (bits : List Nat)
    (hsmall : ∀ n ∈ bits, n < 64) (hbits : bits.foldl (fun acc b => acc * 64 + b) lead = c.toNat)
    (hleast : least ≤ c.toNat) :
    sequencePoint? least lead (bits.map fun n => UInt8.ofNat (n + 0x80)) = some c := by
  have htail : (bits.map fun n => UInt8.ofNat (n + 0x80)).mapM continuation? = some bits := by
    clear hbits
    induction bits with
    | nil => rfl
    | cons n bits ih =>
      rw [List.map_cons, List.mapM_cons, continuation_byte (hsmall n (by simp)),
        ih fun k hk => hsmall k (by simp [hk])]
      rfl
  unfold sequencePoint?
  rw [htail]
  dsimp only
  rw [hbits, dif_pos (toNat_valid c), if_pos hleast]
  rfl

theorem decodeFirst_encoded (c : Char) (rest : List UInt8) :
    decodeFirst? (String.utf8EncodeChar c ++ rest) = some (c, rest) := by
  have hmax := toNat_lt c
  have htoNat : c.val.toNat = c.toNat := rfl
  unfold String.utf8EncodeChar
  simp only [htoNat]
  split_ifs with one two three
  · rw [List.singleton_append, decodeFirst_one _ (by omega), Char.ofNat_toNat]
  · have hspelled : sequencePoint? 0x80 (c.toNat / 64 % 32 + 0xc0 - 0xc0)
        [UInt8.ofNat (c.toNat % 64 + 0x80)] = some c :=
      sequencePoint_spelled [c.toNat % 64] (by simp; omega) (by simp; omega) (by omega)
    rw [List.cons_append, List.singleton_append,
      decodeFirst_two _ _ (by omega) (by omega), hspelled]
    rfl
  · have hspelled : sequencePoint? 0x800 (c.toNat / 4096 % 16 + 0xe0 - 0xe0)
        [UInt8.ofNat (c.toNat / 64 % 64 + 0x80), UInt8.ofNat (c.toNat % 64 + 0x80)] = some c :=
      sequencePoint_spelled [c.toNat / 64 % 64, c.toNat % 64] (by simp; omega)
        (by simp; omega) (by omega)
    rw [List.cons_append, List.cons_append, List.singleton_append,
      decodeFirst_three _ _ _ (by omega) (by omega), hspelled]
    rfl
  · have hspelled : sequencePoint? 0x10000 (c.toNat / 262144 % 8 + 0xf0 - 0xf0)
        [UInt8.ofNat (c.toNat / 4096 % 64 + 0x80), UInt8.ofNat (c.toNat / 64 % 64 + 0x80),
          UInt8.ofNat (c.toNat % 64 + 0x80)] = some c :=
      sequencePoint_spelled [c.toNat / 4096 % 64, c.toNat / 64 % 64, c.toNat % 64]
        (by simp; omega) (by simp; omega) (by omega)
    rw [List.cons_append, List.cons_append, List.cons_append, List.singleton_append,
      decodeFirst_four _ _ _ _ (by omega) (by omega), hspelled]
    rfl

/-- Decoding gives back the text that was encoded. -/
theorem decode_utf8 (s : List Char) : decode? (utf8 s) = some s := by
  induction s with
  | nil => rw [utf8, List.flatMap_nil, decode?]
  | cons c s ih =>
    have hcons : utf8 (c :: s) = String.utf8EncodeChar c ++ utf8 s := List.flatMap_cons
    have hfirst := decodeFirst_encoded c (utf8 s)
    rw [hcons]
    cases hbytes : String.utf8EncodeChar c ++ utf8 s with
    | nil =>
      rw [hbytes] at hfirst
      cases hfirst
    | cons b bs =>
      rw [hbytes] at hfirst
      rw [decode?]
      split
      · rename_i hnone
        rw [hfirst] at hnone
        cases hnone
      · rename_i d rest hsome
        rw [hfirst] at hsome
        cases hsome
        rw [ih]
        rfl

theorem utf8_append (s t : List Char) : utf8 (s ++ t) = utf8 s ++ utf8 t := List.flatMap_append

/-- The bytes of a character below 128 are itself, and of any other one they are all above. -/
theorem mem_encoded_low {c : Char} {b : UInt8} (hb : b < 0x80) :
    b ∈ String.utf8EncodeChar c ↔ b.toNat = c.toNat := by
  have hmax := toNat_lt c
  have htoNat : c.val.toNat = c.toNat := rfl
  have hlow : b.toNat < 128 := UInt8.lt_iff_toNat_lt.mp hb
  have hne : ∀ {n : Nat}, 128 ≤ n → n < 256 → b ≠ UInt8.ofNat n := by
    rintro n hn hn' rfl
    rw [toNat_byte hn'] at hlow
    omega
  unfold String.utf8EncodeChar
  simp only [htoNat]
  split_ifs with one two three
  · rw [List.mem_singleton]
    constructor
    · rintro rfl
      exact toNat_byte (by omega)
    · intro h
      rw [← h, UInt8.ofNat_toNat]
  · refine iff_of_false ?_ (by omega)
    simp only [List.mem_cons, List.not_mem_nil, or_false, not_or]
    exact ⟨hne (by omega) (by omega), hne (by omega) (by omega)⟩
  · refine iff_of_false ?_ (by omega)
    simp only [List.mem_cons, List.not_mem_nil, or_false, not_or]
    exact ⟨hne (by omega) (by omega), hne (by omega) (by omega), hne (by omega) (by omega)⟩
  · refine iff_of_false ?_ (by omega)
    simp only [List.mem_cons, List.not_mem_nil, or_false, not_or]
    exact ⟨hne (by omega) (by omega), hne (by omega) (by omega), hne (by omega) (by omega),
      hne (by omega) (by omega)⟩

theorem newline_mem_utf8 {s : List Char} : 0x0a ∈ utf8 s ↔ '\n' ∈ s := by
  have hchar : ∀ c : Char, (0x0a : UInt8) ∈ String.utf8EncodeChar c ↔ c = '\n' := by
    intro c
    rw [mem_encoded_low (by decide)]
    constructor
    · intro h
      exact Char.toNat_inj.mp h.symm
    · rintro rfl
      rfl
  simp only [utf8, List.mem_flatMap, hchar, exists_eq_right]

end LeveledLog.Text
