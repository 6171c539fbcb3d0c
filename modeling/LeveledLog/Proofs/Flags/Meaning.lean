import LeveledLog.Flags.OfValue
import LeveledLog.Line.OfValue
import LeveledLog.Proofs.Text.Numeral

/-!
What is left of header options without the bits that have no meaning. Whatever integer a set is
made from, this is the remainder of the integer, and nothing else of the set can be seen in a line.
-/

namespace LeveledLog

namespace Flags

def meaningful (f : Flags) : Flags := ⟨f.known⟩

def Known (f : Flags) : Prop := f.bits < bound

instance (f : Flags) : Decidable f.Known := inferInstanceAs (Decidable (f.bits < bound))

/-- What an integer counts as: itself, or if it is negative, what is left of a power of two. -/
structure Counts (i : Int) (f : Flags) : Prop where
  itself : 0 ≤ i → (f.bits : Int) = i
  near : -bound ≤ i → i < 0 → (f.bits : Int) = i % bound
  far : i < -bound → (f.bits : Int) = i % 2 ^ bitLength i.natAbs

section

variable {i : Int} {v : Value}

theorem has_meaningful (f : Flags) (o : HeaderOption) : f.meaningful.has o = f.has o := by
  have hbit : o.bit < 6 := by cases o <;> decide
  have hmod : (f.bits % 2 ^ 6).testBit o.bit = (decide (o.bit < 6) && f.bits.testBit o.bit) :=
    Nat.testBit_mod_two_pow f.bits 6 o.bit
  rw [decide_eq_true hbit, Bool.true_and] at hmod
  exact hmod

theorem union_meaningful (f g : Flags) :
    (f.union g).meaningful = f.meaningful.union g.meaningful :=
  congrArg Flags.mk (Nat.or_mod_two_pow (a := f.bits) (b := g.bits) (n := 6))

theorem Known.meaningful {f : Flags} (h : f.Known) : f.meaningful = f :=
  congrArg Flags.mk (Nat.mod_eq_of_lt h)

theorem lt_bitLength (n : Nat) : n < 2 ^ bitLength n := by
  unfold bitLength
  split
  · omega
  · exact Nat.lt_log2_self

theorem bound_dvd_far (h : i < -bound) : (bound : Int) ∣ 2 ^ bitLength i.natAbs := by
  have hlarge : 2 ^ 6 ≤ i.natAbs := by
    unfold bound at h
    omega
  have hlength : 6 ≤ bitLength i.natAbs := by
    have hpow : 2 ^ 6 < 2 ^ bitLength i.natAbs := Nat.lt_of_le_of_lt hlarge (lt_bitLength _)
    exact Nat.le_of_lt ((Nat.pow_lt_pow_iff_right (by decide)).mp hpow)
  exact_mod_cast Nat.pow_dvd_pow 2 hlength

theorem ofInt_counts (i : Int) : Counts i (ofInt i) := by
  have hpower : (Nat.pow 2 (bitLength i.natAbs) : Int) = 2 ^ bitLength i.natAbs :=
    Int.natCast_pow 2 _
  have hlt : (i.natAbs : Int) < 2 ^ bitLength i.natAbs := by
    exact_mod_cast lt_bitLength i.natAbs
  have hbound : (bound : Int) = 64 := rfl
  unfold ofInt
  refine ⟨fun h => ?_, fun hlow h => ?_, fun h => ?_⟩
  · rw [if_pos h]
    exact Int.toNat_of_nonneg h
  · have hleft : ((64 + i).toNat : Int) = 64 + i := Int.toNat_of_nonneg (by omega)
    rw [if_neg (by omega), if_pos hlow, hbound, hleft]
    omega
  · rw [if_neg (by omega), if_neg (by omega), hpower]
    have hrest : (2 ^ bitLength i.natAbs + i) % 2 ^ bitLength i.natAbs =
        2 ^ bitLength i.natAbs + i := Int.emod_eq_of_lt (by omega) (by omega)
    rw [Int.add_emod_left] at hrest
    rw [hrest]
    exact Int.toNat_of_nonneg (by omega)

/-- However an integer counts, its options are those of its remainder. -/
theorem counts_remainder {f : Flags} (h : Counts i f) : (f.known : Int) = i % bound := by
  have hknown : (f.known : Int) = f.bits % bound := rfl
  rw [hknown]
  by_cases hnegative : i < 0
  · by_cases hnear : -bound ≤ i
    · rw [h.near hnear hnegative, Int.emod_emod]
    · have hfar : i < -bound := Int.not_le.mp hnear
      rw [h.far hfar, Int.emod_emod_of_dvd i (bound_dvd_far hfar)]
  · rw [h.itself (Int.not_lt.mp hnegative)]

theorem ofInt_remainder (i : Int) : ofInt (i % bound) = (ofInt i).meaningful := by
  have hknown := counts_remainder (ofInt_counts i)
  have hnonneg : 0 ≤ i % (bound : Int) := Int.emod_nonneg i (by decide)
  rw [ofInt, if_pos hnonneg]
  refine congrArg Flags.mk ?_
  omega

theorem meaningful_known (f : Flags) : f.meaningful.Known := Nat.mod_lt f.bits (by decide)

theorem Known.union {f g : Flags} (hf : f.Known) (hg : g.Known) : (f.union g).Known :=
  Nat.or_lt_two_pow (n := 6) hf hg

theorem Known.nameable {f : Flags} (h : f.Known) : f.nameable = true := by
  have hnone : f.unknown = 0 := by
    rw [unknown, Nat.div_eq_of_lt h, Nat.zero_mul]
  have hzero := Text.decimal?_natCast (Nat.pow_pos (n := Text.digitLimit) Nat.succ_pos')
  rw [Flags.nameable, hnone, hzero, Option.isSome_some, Bool.or_true]

/-- An integer is a set of header options unless what it holds besides cannot be written. -/
theorem ofValue_integer (made : List Nat) (h : v.int? = some i) :
    ofValue made v = pure (ofInt i) ∨
      (ofValue made v = throw .numberTooLong ∧ (ofInt i).nameable = false) := by
  unfold ofValue
  split
  · rename_i f
    obtain rfl : (f.bits : Int) = i := Option.some.inj h
    exact .inl rfl
  · cases h
  · rw [h]
    dsimp only
    cases (ofInt i).nameable with
    | true => exact .inl rfl
    | false => exact .inr ⟨rfl, rfl⟩

theorem ofValue_remainder (made : List Nat) (i : Int) :
    ofValue made (.int (i % bound)) = pure (ofInt i).meaningful := by
  rw [← ofInt_remainder]
  rcases ofValue_integer (v := .int (i % bound)) made rfl with haccepted | ⟨-, hunnameable⟩
  · exact haccepted
  · rw [ofInt_remainder, (meaningful_known _).nameable] at hunnameable
    cases hunnameable

end

/-- No one modulus, be it the power of two of the integer's length or 64 if that is more, is that of
all negative integers: -64 counts down from 64. -/
theorem minus_bound_counted_apart : ¬∀ i : Int, i < 0 →
    ((ofInt i).bits : Int) = i % max bound (2 ^ bitLength i.natAbs) := by
  intro hall
  have hbound := hall (-64) (by decide)
  revert hbound
  decide

end Flags

namespace Line

structure Alike (f g : Flags) : Prop where
  header : ∀ t, header t f = header t g
  siteInfo : ∀ site, siteInfo site f = siteInfo site g
  format : ∀ rank message site now, format rank f message site now = format rank g message site now
  /-- It is the same for dynamic priorities and messages, which may not make a line at all. -/
  ofValues : ∀ priority message site now,
    ofValues priority f message site now = ofValues priority g message site now

section

variable (f : Flags)

theorem header_meaningful (t : Stamp) : header t f.meaningful = header t f := by
  simp only [header, Flags.has_meaningful]

theorem wantsSite_meaningful : wantsSite f.meaningful = wantsSite f := by
  simp only [wantsSite, Flags.has_meaningful]

theorem siteInfo_meaningful (site : CallSite) : siteInfo site f.meaningful = siteInfo site f := by
  simp only [siteInfo, shownFile, wantsSite_meaningful, Flags.has_meaningful]

theorem assemble_meaningful (tag : List Char) (message : List CodePoint) (site : Option CallSite)
    (now : Stamp) :
    assemble tag f.meaningful message site now = assemble tag f message site now := by
  simp only [assemble, front, header_meaningful, siteInfo_meaningful, Flags.has_meaningful]

theorem format_meaningful (rank : Int) (message : List CodePoint) (site : Option CallSite)
    (now : Stamp) : format rank f.meaningful message site now = format rank f message site now := by
  simp only [format, assemble_meaningful]

theorem ofValues_meaningful (priority message : Value) (site : Option CallSite) (now : Stamp) :
    ofValues priority f.meaningful message site now = ofValues priority f message site now := by
  simp only [ofValues, tagOf, assemble_meaningful, Flags.has_meaningful]

theorem alike_meaningful : Alike f f.meaningful where
  header t := (header_meaningful f t).symm
  siteInfo site := (siteInfo_meaningful f site).symm
  format rank message site now := (format_meaningful f rank message site now).symm
  ofValues priority message site now := (ofValues_meaningful f priority message site now).symm

end

end Line

end LeveledLog
