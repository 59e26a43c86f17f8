import VibeSsh.Basic

/-! # Minecraft VarInts and strings

`runtime/health_check.rs`: seven bits to a byte, the high bit set on every byte but the last; a
string after the number of its bytes. A reader gives the cursor it leaves, and `none` where a shift
by the width or more would panic. -/

namespace VibeSsh.HealthCheck

open Lib

abbrev Byte := BitVec 8

theorem toNat_shiftRight (value : BitVec 32) : (value >>> 7).toNat = value.toNat / 128 := by
  rw [BitVec.toNat_ushiftRight, Nat.shiftRight_eq_div_pow]

theorem le_toNat {value : BitVec 32} (h : value >>> 7 ≠ 0) : 128 ≤ value.toNat := by
  by_contra hlt
  refine h (BitVec.eq_of_toNat_eq ?_)
  rw [toNat_shiftRight]
  exact Nat.div_eq_of_lt (by omega)

def writeVarint (value : BitVec 32) : List Byte :=
  let byte := (value &&& 0x7f).setWidth 8
  if value >>> 7 ≠ 0 then (byte ||| 0x80) :: writeVarint (value >>> 7) else [byte]
termination_by value.toNat
decreasing_by
  have := le_toNat ‹_›
  rw [toNat_shiftRight]
  omega

/-- The loop of both readers, which differ in what they say at the end of the bytes. -/
def readLoop (ended : Text) (result : BitVec 32) (shift : Nat) :
    List Byte → Option (Except Text (BitVec 32) × List Byte)
  | [] => some (.error ended, [])
  | byte :: rest =>
    if 32 ≤ shift then none
    else
      let result := result ||| (byte &&& 0x7f).setWidth 32 <<< shift
      if byte &&& 0x80 = 0 then some (.ok result, rest)
      else if 35 ≤ shift + 7 then some (.error "VarInt is too long", rest)
      else readLoop ended result (shift + 7) rest

def readVarintFromSlice (cursor : List Byte) : Option (Except Text (BitVec 32) × List Byte) :=
  readLoop "VarInt truncated" 0 0 cursor

/-- `read_varint_async`, on the bytes that come before the connection ends. -/
def readVarintAsync (stream : List Byte) : Option (Except Text (BitVec 32) × List Byte) :=
  readLoop "early eof" 0 0 stream

def toUtf8 (value : Text) : List Byte :=
  (String.ofList value).toByteArray.data.toList.map UInt8.toBitVec

def fromUtf8 (bytes : List Byte) : Option Text :=
  (String.fromUTF8? ⟨(bytes.map UInt8.ofBitVec).toArray⟩).map String.toList

def writeString (value : Text) : List Byte :=
  writeVarint (BitVec.ofNat 32 (toUtf8 value).length) ++ toUtf8 value

/-- `describe` is what the library says about bytes that are no UTF-8. -/
def readStringFromSlice (describe : List Byte → Text) (cursor : List Byte) :
    Option (Except Text Text × List Byte) :=
  (readVarintFromSlice cursor).map fun
    | (.error e, rest) => (.error e, rest)
    | (.ok length, rest) =>
      if length.toInt < 0 ∨ rest.length < length.toNat then
        (.error "string length out of bounds", rest)
      else
        let bytes := rest.take length.toNat
        (match fromUtf8 bytes with
          | some value => .ok value
          | none => .error ("invalid UTF-8 in string: " ++ describe bytes),
          rest.drop length.toNat)

/-! ## Bits -/

theorem seven_bits (b : Byte) (h : b.toNat < 128) : b &&& 0x80 = 0 ∧ b &&& 0x7f = b ∧
    (b ||| 0x80) &&& 0x80 ≠ 0 ∧ (b ||| 0x80) &&& 0x7f = b := by
  revert b
  decide

theorem low_bits (value : BitVec 32) : ((value &&& 0x7f).setWidth 8).toNat < 128 ∧
    ((value &&& 0x7f).setWidth 8).setWidth 32 = value &&& 0x7f := by
  have hlow : (value &&& 0x7f).toNat = value.toNat % 128 :=
    (BitVec.toNat_and ..).trans (Nat.and_two_pow_sub_one_eq_mod value.toNat 7)
  refine ⟨?_, BitVec.eq_of_toNat_eq ?_⟩
  · rw [BitVec.toNat_setWidth]
    omega
  · rw [BitVec.toNat_setWidth, BitVec.toNat_setWidth]
    omega

/-- The bits of a byte, and those of the bytes after it. -/
theorem shiftLeft_split (value : BitVec 32) (shift : Nat) :
    value <<< shift = (value &&& 0x7f) <<< shift ||| (value >>> 7) <<< (shift + 7) := by
  have hmask : ∀ j : Fin 32, (127#32)[j] = decide (j.val < 7) := by decide
  ext i hi
  simp only [BitVec.getElem_shiftLeft, BitVec.getElem_or]
  by_cases hlow : i < shift
  · simp [hlow, Nat.lt_add_right 7 hlow]
  by_cases hseven : i - shift < 7
  · have hbit := hmask ⟨i - shift, by omega⟩
    have hnext : i < shift + 7 := by omega
    simp_all
  · have hindex : 7 + (i - (shift + 7)) = i - shift := by omega
    have hnext : ¬ i < shift + 7 := by omega
    have hget := BitVec.getLsbD_eq_getElem (x := value) (i := i - shift) (by omega)
    simp +contextual [hlow, hnext, hindex, hget]

/-! ## Reading back -/

/-- What is written of a value that fits above the bits read so far is read back after them. -/
theorem readLoop_writeVarint (ended : Text) (value result : BitVec 32) {shift : Nat}
    (rest : List Byte) (hshift : shift < 32) (hfits : value.toNat < 2 ^ (32 - shift)) :
    readLoop ended result shift (writeVarint value ++ rest) =
        some (.ok (result ||| value <<< shift), rest) ∧
      7 * (writeVarint value).length + shift < 32 + 7 := by
  fun_induction writeVarint value generalizing result shift with
  | case1 value byte hmore ih =>
    obtain ⟨hseven, hbits⟩ := low_bits value
    obtain ⟨-, -, hcontinues, hpayload⟩ := seven_bits _ hseven
    have hroom : 7 < 32 - shift := (Nat.pow_lt_pow_iff_right (by decide : 1 < 2)).mp
      (lt_of_le_of_lt (le_toNat hmore) hfits)
    have hpow : 2 ^ (32 - shift) = 2 ^ (32 - (shift + 7)) * 2 ^ 7 := by
      rw [← pow_add]
      congr 1
      omega
    have hrest : (value >>> 7).toNat < 2 ^ (32 - (shift + 7)) := by
      rw [toNat_shiftRight]
      exact Nat.div_lt_of_lt_mul (by omega)
    obtain ⟨hread, hlength⟩ := ih (result ||| (value &&& 0x7f) <<< shift) (by omega) hrest
    constructor
    · rw [List.cons_append, readLoop, if_neg (by omega)]
      dsimp only
      rw [if_neg hcontinues, if_neg (by omega), hpayload, hbits, hread, shiftLeft_split value,
        BitVec.or_assoc]
    · rw [List.length_cons]
      omega
  | case2 value byte hlast =>
    obtain ⟨hseven, hbits⟩ := low_bits value
    obtain ⟨hends, hlow, -⟩ := seven_bits _ hseven
    constructor
    · rw [List.singleton_append, readLoop, if_neg (by omega)]
      dsimp only
      rw [if_pos hends, hlow, hbits, shiftLeft_split value, not_not.mp hlast]
      simp
    · rw [List.length_singleton]
      omega

theorem readLoop_consumes (ended : Text) (result : BitVec 32) {k : Nat} (hk : k ≤ 4)
    (bytes : List Byte) :
    ∃ answer consumed rest, readLoop ended result (7 * k) bytes = some (answer, rest) ∧
      bytes = consumed ++ rest ∧ consumed.length + k ≤ 5 := by
  induction bytes generalizing result k with
  | nil => exact ⟨_, [], [], rfl, rfl, by simp; omega⟩
  | cons byte bytes ih =>
    have hone : [byte].length + k ≤ 5 := by simp; omega
    unfold readLoop
    rw [if_neg (by omega)]
    dsimp only
    split
    · exact ⟨_, [byte], bytes, rfl, rfl, hone⟩
    split
    · exact ⟨_, [byte], bytes, rfl, rfl, hone⟩
    · next hshort =>
      obtain ⟨answer, consumed, rest, hread, rfl, hlength⟩ := ih _ (k := k + 1) (by omega)
      exact ⟨answer, byte :: consumed, rest, hread, rfl, by simp; omega⟩

theorem readLoop_zero (ended : Text) (v : BitVec 32) (following : List Byte) :
    readLoop ended 0 0 (writeVarint v ++ following) = some (.ok v, following) := by
  rw [(readLoop_writeVarint ended v 0 following (by decide : 0 < 32) v.isLt).1]
  simp

/-- **VarInts are read back as written**, whatever follows, in at most five bytes; and on any bytes
the reader takes no more than five and never shifts too far. -/
theorem varint_round_trip (v : BitVec 32) (following bytes : List Byte) :
    readVarintFromSlice (writeVarint v ++ following) = some (.ok v, following) ∧
      (writeVarint v).length ≤ 5 ∧
      ∃ answer consumed rest, readVarintFromSlice bytes = some (answer, rest) ∧
        bytes = consumed ++ rest ∧ consumed.length ≤ 5 := by
  have hlength := (readLoop_writeVarint [] v 0 following (by decide : 0 < 32) v.isLt).2
  exact ⟨readLoop_zero _ v following, by omega, readLoop_consumes _ 0 (Nat.zero_le 4) bytes⟩

/-- The reader of a connection takes the same bytes for the same number. -/
theorem readVarintAsync_writeVarint (v : BitVec 32) (following : List Byte) :
    readVarintAsync (writeVarint v ++ following) = some (.ok v, following) :=
  readLoop_zero _ v following

theorem fromUtf8_toUtf8 (value : Text) : fromUtf8 (toUtf8 value) = some value := by
  have hbytes : ((toUtf8 value).map UInt8.ofBitVec).toArray =
      (String.ofList value).toByteArray.data := by
    simp [toUtf8, Function.comp_def]
  have hvalid : String.fromUTF8? (String.ofList value).toByteArray =
      some (String.ofList value) := by
    rw [String.fromUTF8?, dif_pos (String.ofList value).isValidUTF8]
    rfl
  rw [fromUtf8, hbytes]
  exact (congrArg (Option.map String.toList) hvalid).trans (congrArg some String.toList_ofList)

/-- **A string is read back as written**, whatever follows, if the number of its bytes is one. -/
theorem string_round_trip (describe : List Byte → Text) (value : Text) (following : List Byte)
    (hlength : (toUtf8 value).length < 2 ^ 31) :
    readStringFromSlice describe (writeString value ++ following) =
      some (.ok value, following) := by
  have hnat : (BitVec.ofNat 32 (toUtf8 value).length).toNat = (toUtf8 value).length := by
    rw [BitVec.toNat_ofNat]
    omega
  have hint : ¬ (BitVec.ofNat 32 (toUtf8 value).length).toInt < 0 := by
    rw [BitVec.toInt_eq_toNat_of_lt (by omega), hnat]
    omega
  rw [readStringFromSlice, readVarintFromSlice, writeString, List.append_assoc, readLoop_zero,
    Option.map_some]
  dsimp only
  rw [hnat, if_neg (by simp [hint]), List.take_left, List.drop_left, fromUtf8_toUtf8]

end VibeSsh.HealthCheck
