import Mathlib.Data.Nat.Bitwise
import X25.Executable

/-! # The file form of executables

Words and their bytes determine each other. So every list of bytes is either too short or cut off
within a word, or it is the file form of exactly one header and program; whether it is accepted is
then a matter of the version and of the parity of the program.
-/

namespace X25

namespace Word

theorem toNat_byte_shiftLeft (b : UInt8) {k : UInt32} (hk : k.toNat ≤ 24) :
    (b.toUInt32 <<< k).toNat = 2 ^ k.toNat * b.toNat := by
  have hm : k.toNat % 32 = k.toNat := by omega
  have hp : 2 ^ k.toNat ≤ 2 ^ 24 := Nat.pow_le_pow_right (by decide) hk
  have hb : 2 ^ k.toNat * b.toNat < 2 ^ 24 * 2 ^ 8 :=
    Nat.mul_lt_mul_of_le_of_lt hp b.toNat_lt (by decide)
  rw [UInt32.toNat_shiftLeft, UInt8.toNat_toUInt32, Nat.shiftLeft_eq, hm, Nat.mul_comm]
  exact Nat.mod_eq_of_lt hb

theorem toNat_ofBytes (a b c d : UInt8) :
    (ofBytes a b c d).toNat =
      2 ^ 24 * a.toNat + (2 ^ 16 * b.toNat + (2 ^ 8 * c.toNat + d.toNat)) := by
  have ha := a.toNat_lt
  have hb := b.toNat_lt
  have hc := c.toNat_lt
  have hd := d.toNat_lt
  have hsa : (a.toUInt32 <<< 24).toNat = 2 ^ 24 * a.toNat := toNat_byte_shiftLeft a (by decide)
  have hsb : (b.toUInt32 <<< 16).toNat = 2 ^ 16 * b.toNat := toNat_byte_shiftLeft b (by decide)
  have hsc : (c.toUInt32 <<< 8).toNat = 2 ^ 8 * c.toNat := toNat_byte_shiftLeft c (by decide)
  -- no two of the shifted bytes overlap
  rw [Nat.two_pow_add_eq_or_of_lt (by omega), Nat.two_pow_add_eq_or_of_lt (by omega),
    Nat.two_pow_add_eq_or_of_lt (by omega), ofBytes, UInt32.toNat_or, UInt32.toNat_or,
    UInt32.toNat_or, hsa, hsb, hsc, UInt8.toNat_toUInt32, Nat.or_assoc, Nat.or_assoc]

theorem toBytes_ofBytes (a b c d : UInt8) : (ofBytes a b c d).toBytes = [a, b, c, d] := by
  have ha := a.toNat_lt
  have hb := b.toNat_lt
  have hc := c.toNat_lt
  have hd := d.toNat_lt
  have hn := toNat_ofBytes a b c d
  simp only [toBytes, List.cons.injEq, ← UInt8.toNat_inj, UInt32.toNat_toUInt8,
    UInt32.toNat_shiftRight, Nat.shiftRight_eq_div_pow, UInt32.reduceToNat, Nat.reduceMod,
    and_true]
  omega

theorem ofByteList_toBytes_append (w : Word) (bytes : List UInt8) :
    ofByteList (w.toBytes ++ bytes) = w :: ofByteList bytes := by
  have hw := w.toNat_lt
  have hn := toNat_ofBytes (w >>> 24).toUInt8 (w >>> 16).toUInt8 (w >>> 8).toUInt8 w.toUInt8
  have he : ofBytes (w >>> 24).toUInt8 (w >>> 16).toUInt8 (w >>> 8).toUInt8 w.toUInt8 = w := by
    simp only [UInt32.toNat_toUInt8, UInt32.toNat_shiftRight, Nat.shiftRight_eq_div_pow,
      UInt32.reduceToNat, Nat.reduceMod] at hn
    rw [← UInt32.toNat_inj, hn]
    omega
  show ofBytes _ _ _ _ :: ofByteList bytes = _
  rw [he]

theorem length_toBytes (w : Word) : w.toBytes.length = 4 := rfl

theorem toBytes_injective : Function.Injective toBytes := by
  intro v w h
  have hv := ofByteList_toBytes_append v []
  rw [h, ofByteList_toBytes_append] at hv
  exact (List.cons.inj hv).1.symm

theorem ofByteList_flatMap_toBytes (ws : List Word) : ofByteList (ws.flatMap toBytes) = ws := by
  induction ws with
  | nil => rfl
  | cons w ws ih => rw [List.flatMap_cons, ofByteList_toBytes_append, ih]

theorem length_flatMap_toBytes (ws : List Word) : (ws.flatMap toBytes).length = 4 * ws.length := by
  induction ws with
  | nil => rfl
  | cons w ws ih =>
    rw [List.flatMap_cons, List.length_append, length_toBytes, ih, List.length_cons]
    omega

theorem flatMap_toBytes_ofByteList {bytes : List UInt8} (h : bytes.length % 4 = 0) :
    (ofByteList bytes).flatMap toBytes = bytes := by
  fun_induction ofByteList bytes with
  | case1 a b c d rest ih =>
    have hr : rest.length % 4 = 0 := by
      simp only [List.length_cons] at h
      omega
    rw [List.flatMap_cons, toBytes_ofBytes, ih hr]
    rfl
  | case2 bytes hb =>
    -- fewer than four bytes in whole groups are none
    match bytes, h, hb with
    | [], _, _ => rfl
    | a :: b :: c :: d :: rest, _, hb => exact absurd rfl (hb a b c d rest)

end Word

namespace Executable

open Word

theorem length_toBytes_eq (e : Executable) : e.toBytes.length = 24 + 4 * e.program.length := by
  have hh : e.header.words.length = 6 := rfl
  rw [toBytes, length_flatMap_toBytes, List.length_append, hh]
  omega

theorem take_toBytes (e : Executable) : e.toBytes.take 4 = e.header.version.toBytes := rfl

/-- A file form is read as its header and program, which are then checked. -/
theorem ofBytes_toBytes (e : Executable) : ofBytes e.toBytes = ofWords e.header e.program := by
  have hl : e.toBytes.length % 4 = 0 := by
    rw [length_toBytes_eq]
    omega
  have hw : ofByteList e.toBytes = e.header.words ++ e.program := ofByteList_flatMap_toBytes _
  rw [ofBytes, hl, hw]
  rfl

theorem toBytes_inj {e e' : Executable} : e.toBytes = e'.toBytes ↔ e = e' := by
  refine ⟨fun h => ?_, fun h => by rw [h]⟩
  have hw : e.header.words ++ e.program = e'.header.words ++ e'.program := by
    rw [← ofByteList_flatMap_toBytes (e.header.words ++ e.program),
      ← ofByteList_flatMap_toBytes (e'.header.words ++ e'.program)]
    exact congrArg ofByteList h
  obtain ⟨⟨v, ⟨rs, re, cs, ce⟩, n⟩, p⟩ := e
  obtain ⟨⟨v', ⟨rs', re', cs', ce'⟩, n'⟩, p'⟩ := e'
  simpa [Header.words, and_assoc] using hw

theorem exists_toBytes {bytes : List UInt8} (hl : 24 ≤ bytes.length) (h4 : bytes.length % 4 = 0) :
    ∃ e : Executable, e.toBytes = bytes := by
  have hb := flatMap_toBytes_ofByteList h4
  have hn := length_flatMap_toBytes (ofByteList bytes)
  rw [hb] at hn
  match hw : ofByteList bytes with
  | v :: rs :: re :: cs :: ce :: entry :: program =>
    refine ⟨⟨⟨v, ⟨rs, re, cs, ce⟩, entry⟩, program⟩, ?_⟩
    rw [hw] at hb
    exact hb
  | [] | [_] | [_, _] | [_, _, _] | [_, _, _, _] | [_, _, _, _, _] =>
    rw [hw] at hn
    simp only [List.length_cons, List.length_nil] at hn
    omega

theorem ofBytes_of_truncated {bytes : List UInt8} (h : bytes.length < 24 ∨ bytes.length % 4 ≠ 0) :
    ofBytes bytes = .error (.truncated bytes.length) := by
  rw [ofBytes]
  split
  · next h4 hw =>
    have hn := length_flatMap_toBytes (ofByteList bytes)
    rw [flatMap_toBytes_ofByteList h4, hw] at hn
    simp only [List.length_cons] at hn
    omega
  · rfl

/-- Bytes that are too short or cut off within a word are truncated, and all others are the file
form of an executable. -/
theorem truncated_or_toBytes (bytes : List UInt8) :
    (bytes.length < 24 ∨ bytes.length % 4 ≠ 0) ∨ ∃ e : Executable, e.toBytes = bytes := by
  by_cases h : bytes.length < 24 ∨ bytes.length % 4 ≠ 0
  · exact .inl h
  · obtain ⟨hl, h4⟩ := not_or.mp h
    exact .inr (exists_toBytes (Nat.le_of_not_lt hl) (Decidable.not_not.mp h4))

theorem ofWords_eq_ok {h : Header} {program : List Word} {e : Executable} :
    ofWords h program = .ok e ↔
      e = ⟨h, program⟩ ∧ h.version = Header.currentVersion ∧ program.length % 2 = 0 := by
  rw [ofWords]
  split
  · next hv => simp [hv]
  · next hv =>
    split
    · next hp => simp [hp]
    · next hp => simp [Decidable.not_not.mp hv, Decidable.not_not.mp hp, eq_comm]

theorem ofBytes_eq_ok {bytes : List UInt8} {e : Executable} :
    ofBytes bytes = .ok e ↔
      e.toBytes = bytes ∧ e.header.version = Header.currentVersion ∧ e.program.length % 2 = 0 := by
  obtain h | ⟨e', rfl⟩ := truncated_or_toBytes bytes
  · rw [ofBytes_of_truncated h]
    constructor
    · rintro ⟨⟩
    · rintro ⟨rfl, -⟩
      rw [length_toBytes_eq] at h
      omega
  · rw [ofBytes_toBytes, ofWords_eq_ok, toBytes_inj]
    refine and_congr_right ?_
    rintro rfl
    rfl

theorem exists_ofBytes_eq_ok {bytes : List UInt8} :
    (∃ e, ofBytes bytes = .ok e) ↔
      24 ≤ bytes.length ∧ bytes.length % 8 = 0 ∧ bytes.take 4 = [0, 1, 0, 0] := by
  have hv : Header.currentVersion.toBytes = [0, 1, 0, 0] := by decide
  obtain h | ⟨e', rfl⟩ := truncated_or_toBytes bytes
  · rw [ofBytes_of_truncated h]
    constructor
    · rintro ⟨e, ⟨⟩⟩
    · rintro ⟨hl, h8, -⟩
      omega
  · have hl := e'.length_toBytes_eq
    have hn : 24 ≤ e'.toBytes.length ∧ e'.toBytes.length % 8 = 0 ↔
        e'.program.length % 2 = 0 := by
      omega
    simp only [ofBytes_eq_ok, toBytes_inj, exists_eq_left, take_toBytes, ← hv,
      toBytes_injective.eq_iff]
    rw [← and_assoc, hn, and_comm]

theorem ofBytes_eq_truncated {bytes : List UInt8} {n : Nat} :
    ofBytes bytes = .error (.truncated n) ↔
      n = bytes.length ∧ (bytes.length < 24 ∨ bytes.length % 4 ≠ 0) := by
  obtain h | ⟨e, rfl⟩ := truncated_or_toBytes bytes
  · rw [ofBytes_of_truncated h, Except.error.injEq, ExecutableError.truncated.injEq,
      eq_comm (a := n), and_iff_left h]
  · rw [ofBytes_toBytes, ofWords, length_toBytes_eq]
    split
    · simp
    · split <;> simp

/-- Reading files inverts writing them. What is accepted is the file form of what is read, and of
nothing else; the accepted bytes are those that hold a header and whole pairs of words and start
with the current version. Written executables of another version are refused for the version, and
those of an odd length for the length. Bytes that hold no header or are cut off within a word are
truncated, whatever their version. -/
theorem ofBytes_inverts_toBytes :
    (∀ bytes e, ofBytes bytes = .ok e ↔ e.toBytes = bytes ∧
      e.header.version = Header.currentVersion ∧ e.program.length % 2 = 0) ∧
    (∀ bytes, (∃ e, ofBytes bytes = .ok e) ↔
      24 ≤ bytes.length ∧ bytes.length % 8 = 0 ∧ bytes.take 4 = [0, 1, 0, 0]) ∧
    (∀ e : Executable, ofBytes e.toBytes =
      if e.header.version ≠ Header.currentVersion then .error (.version e.header.version)
      else if e.program.length % 2 ≠ 0 then .error (.oddLength e.program.length)
      else .ok e) ∧
    ∀ bytes n, ofBytes bytes = .error (.truncated n) ↔
      n = bytes.length ∧ (bytes.length < 24 ∨ bytes.length % 4 ≠ 0) :=
  ⟨fun _ _ => ofBytes_eq_ok, fun _ => exists_ofBytes_eq_ok, ofBytes_toBytes,
    fun _ _ => ofBytes_eq_truncated⟩

end Executable

end X25
