import LeveledLog.Text.Quoted

/-!
UTF-8: encoding, decoding of valid input, and a readable form of any bytes in which every byte
that is not part of a valid sequence is written as a numeric escape.
-/

namespace LeveledLog.Text

def utf8 (s : List Char) : List UInt8 := s.flatMap String.utf8EncodeChar

def continuation? (b : UInt8) : Option Nat :=
  if 0x80 ≤ b ∧ b < 0xc0 then some (b.toNat - 0x80) else none

/-- The code point that a lead byte and continuation bytes spell, if it is a character in its
shortest form. -/
def sequencePoint? (least : Nat) (lead : Nat) (tail : List UInt8) : Option Char :=
  match tail.mapM continuation? with
  | none => none
  | some bits =>
    let n := bits.foldl (fun acc b => acc * 64 + b) lead
    if h : n.isValidChar then if least ≤ n then some (Char.ofNatAux n h) else none else none

def decodeFirst? : List UInt8 → Option (Char × List UInt8)
  | [] => none
  | b :: rest =>
    if b < 0x80 then some (Char.ofNat b.toNat, rest)
    else if 0xc2 ≤ b ∧ b < 0xe0 then
      match rest with
      | b1 :: rest => (sequencePoint? 0x80 (b.toNat - 0xc0) [b1]).map (·, rest)
      | _ => none
    else if 0xe0 ≤ b ∧ b < 0xf0 then
      match rest with
      | b1 :: b2 :: rest => (sequencePoint? 0x800 (b.toNat - 0xe0) [b1, b2]).map (·, rest)
      | _ => none
    else if 0xf0 ≤ b ∧ b < 0xf5 then
      match rest with
      | b1 :: b2 :: b3 :: rest =>
        (sequencePoint? 0x10000 (b.toNat - 0xf0) [b1, b2, b3]).map (·, rest)
      | _ => none
    else none

theorem decode_first_shorter {bs rest : List UInt8} {c : Char}
    (h : decodeFirst? bs = some (c, rest)) : rest.length < bs.length := by
  unfold decodeFirst? at h
  split at h
  · cases h
  · split at h
    · cases h; simp
    · split at h
      · split at h
        · obtain ⟨_, _, h⟩ := Option.map_eq_some_iff.1 h
          cases h; simp only [List.length_cons]; omega
        · cases h
      · split at h
        · split at h
          · obtain ⟨_, _, h⟩ := Option.map_eq_some_iff.1 h
            cases h; simp only [List.length_cons]; omega
          · cases h
        · split at h
          · split at h
            · obtain ⟨_, _, h⟩ := Option.map_eq_some_iff.1 h
              cases h; simp only [List.length_cons]; omega
            · cases h
          · cases h

def decode? (bs : List UInt8) : Option (List Char) :=
  match bs with
  | [] => some []
  | b :: bs =>
    match _ : decodeFirst? (b :: bs) with
    | none => none
    | some (c, rest) => (decode? rest).map (c :: ·)
termination_by bs.length
decreasing_by exact decode_first_shorter ‹_›

def displayUtf8 (bs : List UInt8) : List Char :=
  match bs with
  | [] => []
  | b :: bs =>
    match _ : decodeFirst? (b :: bs) with
    | none => escapePoint b.toNat ++ displayUtf8 bs
    | some (c, rest) => c :: displayUtf8 rest
termination_by bs.length
decreasing_by
  · simp
  · exact decode_first_shorter ‹_›

end LeveledLog.Text
