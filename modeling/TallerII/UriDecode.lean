import TallerII.SearchRequest

/-!
# The buffers of `uriDecode`

`uriDecode` walks over a string with a pointer and writes what it decodes to an array as long as
the string. The model here keeps both: a read or a write outside of its array stops the call.
`decodeLoop` and `tailLoop` are its two loops, the second for the last two characters.
`uriDecode_eq` says that no access goes outside and that the loops together are `Percent.decode`.
The length of the string is kept in an `int`, which holds the lengths of the queries that the
server passes.
-/

namespace TallerII.UriDecode

open Lib
open Percent (decode Bytes Encodes hexValue_lt)
open JsonText (hexValue)

/-- What stops a call. -/
inductive DecodeFault where
  /-- A read or a write outside of its array. -/
  | outOfBounds
  /-- `std::bad_array_new_length`: an array of negative length was asked for. -/
  | badArrayNewLength
deriving Repr, DecidableEq

/-- `HEX2DEC`, row by row. -/
def HEX2DEC : List Int8 :=
  List.flatten [
    [-1, -1, -1, -1, -1, -1, -1, -1, -1, -1, -1, -1, -1, -1, -1, -1],
    [-1, -1, -1, -1, -1, -1, -1, -1, -1, -1, -1, -1, -1, -1, -1, -1],
    [-1, -1, -1, -1, -1, -1, -1, -1, -1, -1, -1, -1, -1, -1, -1, -1],
    [0, 1, 2, 3, 4, 5, 6, 7, 8, 9, -1, -1, -1, -1, -1, -1],
    [-1, 10, 11, 12, 13, 14, 15, -1, -1, -1, -1, -1, -1, -1, -1, -1],
    [-1, -1, -1, -1, -1, -1, -1, -1, -1, -1, -1, -1, -1, -1, -1, -1],
    [-1, 10, 11, 12, 13, 14, 15, -1, -1, -1, -1, -1, -1, -1, -1, -1],
    [-1, -1, -1, -1, -1, -1, -1, -1, -1, -1, -1, -1, -1, -1, -1, -1],
    [-1, -1, -1, -1, -1, -1, -1, -1, -1, -1, -1, -1, -1, -1, -1, -1],
    [-1, -1, -1, -1, -1, -1, -1, -1, -1, -1, -1, -1, -1, -1, -1, -1],
    [-1, -1, -1, -1, -1, -1, -1, -1, -1, -1, -1, -1, -1, -1, -1, -1],
    [-1, -1, -1, -1, -1, -1, -1, -1, -1, -1, -1, -1, -1, -1, -1, -1],
    [-1, -1, -1, -1, -1, -1, -1, -1, -1, -1, -1, -1, -1, -1, -1, -1],
    [-1, -1, -1, -1, -1, -1, -1, -1, -1, -1, -1, -1, -1, -1, -1, -1],
    [-1, -1, -1, -1, -1, -1, -1, -1, -1, -1, -1, -1, -1, -1, -1, -1],
    [-1, -1, -1, -1, -1, -1, -1, -1, -1, -1, -1, -1, -1, -1, -1, -1]]

/-- A character of the string as an `unsigned char`. -/
def unsignedChar (c : Char) : UInt8 :=
  UInt8.ofNat c.toNat

/-- `*pSrc`. The terminator behind the string counts as outside. -/
def byteAt (sSrc : Text) (pSrc : Nat) : Except DecodeFault UInt8 :=
  match sSrc[pSrc]? with
  | some c => .ok (unsignedChar c)
  | none => .error .outOfBounds

/-- `HEX2DEC[*pSrc]`. -/
def hexAt (sSrc : Text) (pSrc : Nat) : Except DecodeFault Int8 := do
  let byte ← byteAt sSrc pSrc
  match HEX2DEC[byte.toNat]? with
  | some dec => .ok dec
  | none => .error .outOfBounds

/-- `*pEnd++ = byte` in an array of which the part before `pEnd` was written. -/
def put (capacity : Nat) (written : Text) (byte : UInt8) : Except DecodeFault Text :=
  if written.length < capacity then .ok (written ++ [Char.ofNat byte.toNat])
  else .error .outOfBounds

/-- `(dec1 << 4) + dec2`, computed in `int` and kept as a `char`. -/
def combine (dec1 dec2 : Int8) : UInt8 :=
  ((dec1.toInt32 <<< 4) + dec2.toInt32).toInt8.toUInt8

/-- The byte that an escape at `pSrc` stands for, if there is an escape. The second digit is read
only after the first one was found to be a digit. -/
def escapeAt (sSrc : Text) (pSrc : Nat) : Except DecodeFault (Option UInt8) := do
  if (← byteAt sSrc pSrc) = unsignedChar '%' then
    let dec1 ← hexAt sSrc (pSrc + 1)
    if -1 ≠ dec1 then
      let dec2 ← hexAt sSrc (pSrc + 2)
      if -1 ≠ dec2 then
        return some (combine dec1 dec2)
  return none

/-- The loop up to the last position that an escape can start at. -/
def decodeLoop (sSrc : Text) (SRC_LEN : Int) (pSrc : Nat) (written : Text) :
    Except DecodeFault (Nat × Text) :=
  if _h : (pSrc : Int) < SRC_LEN - 2 then do
    match ← escapeAt sSrc pSrc with
    | some byte =>
      let written ← put SRC_LEN.toNat written byte
      decodeLoop sSrc SRC_LEN (pSrc + 3) written
    | none =>
      let byte ← byteAt sSrc pSrc
      let written ← put SRC_LEN.toNat written byte
      decodeLoop sSrc SRC_LEN (pSrc + 1) written
  else .ok (pSrc, written)
termination_by (SRC_LEN - pSrc).toNat

/-- The loop over what is left. -/
def tailLoop (sSrc : Text) (SRC_LEN : Int) (pSrc : Nat) (written : Text) :
    Except DecodeFault Text :=
  if _h : (pSrc : Int) < SRC_LEN then do
    let byte ← byteAt sSrc pSrc
    let written ← put SRC_LEN.toNat written byte
    tailLoop sSrc SRC_LEN (pSrc + 1) written
  else .ok written
termination_by (SRC_LEN - pSrc).toNat

/-- `const int SRC_LEN = sSrc.length()`. -/
def srcLen (sSrc : Text) : Int :=
  (Int32.ofNat sSrc.length).toInt

/-- `uriDecode`. -/
def uriDecode (sSrc : Text) : Except DecodeFault Text := do
  if srcLen sSrc < 0 then throw .badArrayNewLength
  let (pSrc, written) ← decodeLoop sSrc (srcLen sSrc) 0 []
  tailLoop sSrc (srcLen sSrc) pSrc written

/-! ## Single characters -/

/-- What is kept of a character: its byte. -/
def asByte (c : Char) : Char :=
  Char.ofNat (unsignedChar c).toNat

/-- A byte keeps its value as an `unsigned char`. -/
theorem toNat_unsignedChar {c : Char} (h : c.toNat < 256) : (unsignedChar c).toNat = c.toNat := by
  rw [unsignedChar, UInt8.toNat_ofNat']
  exact Nat.mod_eq_of_lt h

/-- A byte is itself. -/
theorem asByte_of_lt {c : Char} (h : c.toNat < 256) : asByte c = c := by
  rw [asByte, toNat_unsignedChar h, Char.ofNat_toNat]

/-- The value of a byte. -/
theorem toNat_asByte (c : Char) : (asByte c).toNat = (unsignedChar c).toNat := by
  have hlt : (unsignedChar c).toNat < 256 := (unsignedChar c).toNat_lt
  have hvalid : (unsignedChar c).toNat.isValidChar := .inl (by omega)
  rw [asByte, Char.ofNat, dif_pos hvalid]
  rfl

/-- Which character is compared as a percent sign. -/
theorem unsignedChar_eq_percent (c : Char) :
    unsignedChar c = unsignedChar '%' ↔ asByte c = '%' := by
  constructor
  · intro h
    rw [asByte, h]
    rfl
  · intro h
    have hnat : (unsignedChar c).toNat = '%'.toNat := by rw [← toNat_asByte, h]
    exact UInt8.toNat_inj.mp hnat

/-- A text of bytes is itself. -/
theorem map_asByte {text : Text} (h : Bytes text) : text.map asByte = text := by
  have hall : text.map asByte = text.map id :=
    List.map_congr_left fun c hc => asByte_of_lt (h c hc)
  rw [hall, List.map_id]

/-! ## The table -/

/-- The entry of a character: the value of a digit, else the mark -1. -/
def dec (c : Char) : Int8 :=
  match hexValue c with
  | some value => Int8.ofNat value
  | none => -1

/-- The table lists the entries of all bytes. -/
theorem HEX2DEC_eq : HEX2DEC = (List.range 256).map fun code => dec (Char.ofNat code) := by
  decide +kernel

/-- The table has an entry for every byte. -/
theorem getElem_HEX2DEC (byte : UInt8) :
    HEX2DEC[byte.toNat]? = some (dec (Char.ofNat byte.toNat)) := by
  rw [HEX2DEC_eq, List.getElem?_map, List.getElem?_range byte.toNat_lt, Option.map_some]

/-- What is no hexadecimal digit has the entry -1. -/
theorem dec_of_none {c : Char} (h : hexValue c = none) : -1 = dec c := by
  rw [dec, h]

/-- A digit is never marked. -/
theorem dec_of_some {c : Char} {value : Nat} (h : hexValue c = some value) :
    -1 ≠ dec c ∧ dec c = Int8.ofNat value := by
  have hall : ((List.range 16).all fun value => -1 ≠ Int8.ofNat value) = true := by decide +kernel
  have hvalue : value ∈ List.range 16 := List.mem_range.mpr (hexValue_lt h).2
  rw [dec, h]
  exact ⟨of_decide_eq_true (List.all_eq_true.mp hall value hvalue), rfl⟩

/-- The sum of two digits loses nothing when it is kept as a `char`. -/
theorem combine_eq {high low : Nat} (hhigh : high < 16) (hlow : low < 16) :
    (combine (Int8.ofNat high) (Int8.ofNat low)).toNat = 16 * high + low := by
  have hall : ((List.range 16).all fun high => (List.range 16).all fun low =>
      (combine (Int8.ofNat high) (Int8.ofNat low)).toNat = 16 * high + low) = true := by
    decide +kernel
  have hrow := List.all_eq_true.mp hall high (List.mem_range.mpr hhigh)
  exact of_decide_eq_true (List.all_eq_true.mp hrow low (List.mem_range.mpr hlow))

/-! ## Accesses -/

/-- Within the string a byte can be read. -/
theorem byteAt_eq {sSrc : Text} {pSrc : Nat} (h : pSrc < sSrc.length) :
    byteAt sSrc pSrc = .ok (unsignedChar sSrc[pSrc]) := by
  rw [byteAt, List.getElem?_eq_getElem h]

/-- So can its entry of the table. -/
theorem hexAt_eq {sSrc : Text} {pSrc : Nat} (h : pSrc < sSrc.length) :
    hexAt sSrc pSrc = .ok (dec (asByte sSrc[pSrc])) := by
  simp only [hexAt, byteAt_eq h, ok_bind, getElem_HEX2DEC]
  rfl

/-- Within the capacity a byte can be written. -/
theorem put_eq {capacity : Nat} {written : Text} (h : written.length < capacity) (byte : UInt8) :
    put capacity written byte = .ok (written ++ [Char.ofNat byte.toNat]) :=
  if_pos h

/-- The bytes from a position up to the end of the array. -/
def bytesFrom (sSrc : Text) (capacity pSrc : Nat) : Text :=
  ((sSrc.map asByte).take capacity).drop pSrc

variable {sSrc : Text} {capacity pSrc : Nat}

/-- The bytes from a position on begin with the one there. -/
theorem bytesFrom_eq_cons (hcapacity : capacity ≤ sSrc.length) (h : pSrc < capacity) :
    bytesFrom sSrc capacity pSrc
      = asByte sSrc[pSrc] :: bytesFrom sSrc capacity (pSrc + 1) := by
  have hlength : pSrc < ((sSrc.map asByte).take capacity).length := by
    rw [List.length_take, List.length_map]
    omega
  rw [bytesFrom, List.drop_eq_getElem_cons hlength, List.getElem_take, List.getElem_map]
  rfl

/-- How many bytes there are from a position on. -/
theorem length_bytesFrom (hcapacity : capacity ≤ sSrc.length) :
    (bytesFrom sSrc capacity pSrc).length = capacity - pSrc := by
  rw [bytesFrom, List.length_drop, List.length_take, List.length_map]
  omega

/-- An escape is seen where `decode` sees one, and it stands for the same byte. -/
theorem escapeAt_cases (hcapacity : capacity ≤ sSrc.length) (h : pSrc + 2 < capacity) :
    (∃ byte, escapeAt sSrc pSrc = .ok (some byte) ∧
      decode (bytesFrom sSrc capacity pSrc)
        = Char.ofNat byte.toNat :: decode (bytesFrom sSrc capacity (pSrc + 3))) ∨
    (escapeAt sSrc pSrc = .ok none ∧
      decode (bytesFrom sSrc capacity pSrc)
        = asByte sSrc[pSrc] :: decode (bytesFrom sSrc capacity (pSrc + 1))) := by
  have hfirst : pSrc < sSrc.length := by omega
  have hsecond : pSrc + 1 < sSrc.length := by omega
  have hthird : pSrc + 2 < sSrc.length := by omega
  simp only [escapeAt, byteAt_eq hfirst, ok_bind, unsignedChar_eq_percent]
  rw [bytesFrom_eq_cons hcapacity (by omega : pSrc < capacity),
    bytesFrom_eq_cons hcapacity (by omega : pSrc + 1 < capacity),
    bytesFrom_eq_cons hcapacity (by omega : pSrc + 1 + 1 < capacity), decode]
  by_cases hpercent : asByte sSrc[pSrc] = '%'
  · rw [if_pos hpercent, if_pos hpercent, hexAt_eq hsecond]
    simp only [ok_bind]
    -- the three positions of the source are the three characters that `decode` matches
    cases hhigh : hexValue (asByte sSrc[pSrc + 1]) with
    | none =>
        rw [if_neg (not_not_intro (dec_of_none hhigh))]
        exact .inr ⟨rfl, rfl⟩
    | some high =>
        obtain ⟨hmark, hdec⟩ := dec_of_some hhigh
        rw [if_pos hmark, hexAt_eq hthird]
        simp only [ok_bind]
        cases hlow : hexValue (asByte sSrc[pSrc + 2]) with
        | none =>
            rw [if_neg (not_not_intro (dec_of_none hlow))]
            exact .inr ⟨rfl, rfl⟩
        | some low =>
            obtain ⟨hmark', hdec'⟩ := dec_of_some hlow
            rw [if_pos hmark', hdec, hdec']
            refine .inl ⟨_, rfl, ?_⟩
            simp only [combine_eq (hexValue_lt hhigh).2 (hexValue_lt hlow).2]
  · rw [if_neg hpercent, if_neg hpercent]
    exact .inr ⟨rfl, rfl⟩

/-! ## The loops -/

/-- One turn of the first loop: it passes an escape or one character and writes the byte that
`decode` gives for it. -/
theorem decodeLoop_step (hcapacity : capacity ≤ sSrc.length) {written : Text}
    (hp : pSrc + 2 < capacity) (hwritten : written.length ≤ pSrc) :
    ∃ next byte, pSrc < next ∧ next ≤ capacity ∧
      decodeLoop sSrc capacity pSrc written = decodeLoop sSrc capacity next (written ++ [byte]) ∧
      decode (bytesFrom sSrc capacity pSrc) = byte :: decode (bytesFrom sSrc capacity next) := by
  have hput : ∀ byte, put (capacity : Int).toNat written byte
      = .ok (written ++ [Char.ofNat byte.toNat]) := fun byte => put_eq (by omega) byte
  have hguard : (pSrc : Int) < capacity - 2 := by omega
  rcases escapeAt_cases hcapacity hp with ⟨byte, hescape, hdecode⟩ | ⟨hescape, hdecode⟩
  · refine ⟨pSrc + 3, Char.ofNat byte.toNat, by omega, by omega, ?_, hdecode⟩
    rw [decodeLoop, dif_pos hguard]
    simp only [hescape, ok_bind, hput]
  · refine ⟨pSrc + 1, asByte sSrc[pSrc], by omega, by omega, ?_, hdecode⟩
    rw [decodeLoop, dif_pos hguard]
    simp only [hescape, ok_bind, byteAt_eq (by omega : pSrc < sSrc.length), hput]
    rfl

/-- The first loop stays inside its arrays. It stops with at most two bytes to go, and with these
appended it has written what `decode` gives. -/
theorem decodeLoop_eq (hcapacity : capacity ≤ sSrc.length) (written : Text)
    (hp : pSrc ≤ capacity) (hwritten : written.length ≤ pSrc) :
    ∃ position out, decodeLoop sSrc capacity pSrc written = .ok (position, out) ∧
      position ≤ capacity ∧ out.length ≤ position ∧
      out ++ bytesFrom sSrc capacity position
        = written ++ decode (bytesFrom sSrc capacity pSrc) := by
  -- on the number of bytes to go; no more is written than was read
  induction hgo : capacity - pSrc using Nat.strong_induction_on generalizing pSrc written with
  | _ n ih =>
      by_cases hmore : pSrc + 2 < capacity
      · obtain ⟨next, byte, hlt, hle, hstep, hdecode⟩ := decodeLoop_step hcapacity hmore hwritten
        have hlength : (written ++ [byte]).length ≤ next := by
          rw [List.length_append, List.length_singleton]
          omega
        obtain ⟨position, out, hloop, hend, hout, heq⟩ :=
          ih (capacity - next) (by omega) (written ++ [byte]) hle hlength rfl
        refine ⟨position, out, hstep.trans hloop, hend, hout, ?_⟩
        rw [heq, hdecode, List.append_assoc, List.singleton_append]
      · have hshort : (bytesFrom sSrc capacity pSrc).length ≤ 2 := by
          rw [length_bytesFrom hcapacity]
          omega
        have hstop : decodeLoop sSrc capacity pSrc written = .ok (pSrc, written) := by
          rw [decodeLoop, dif_neg (by omega)]
        exact ⟨pSrc, written, hstop, hp, hwritten, by rw [Percent.decode_short hshort]⟩

/-- The second loop stays inside its arrays and copies what is left. -/
theorem tailLoop_eq (hcapacity : capacity ≤ sSrc.length) (written : Text)
    (hp : pSrc ≤ capacity) (hwritten : written.length ≤ pSrc) :
    tailLoop sSrc capacity pSrc written = .ok (written ++ bytesFrom sSrc capacity pSrc) := by
  induction hgo : capacity - pSrc generalizing pSrc written with
  | zero =>
      obtain rfl : pSrc = capacity := by omega
      have hnil : bytesFrom sSrc pSrc pSrc = [] :=
        List.eq_nil_of_length_eq_zero (by rw [length_bytesFrom hcapacity]; omega)
      rw [tailLoop, dif_neg (by omega), hnil, List.append_nil]
  | succ n ih =>
      have hput := put_eq (by omega : written.length < (capacity : Int).toNat)
        (unsignedChar sSrc[pSrc])
      have hlength : (written ++ [asByte sSrc[pSrc]]).length ≤ pSrc + 1 := by
        rw [List.length_append, List.length_singleton]
        omega
      rw [tailLoop, dif_pos (by omega)]
      simp only [byteAt_eq (by omega : pSrc < sSrc.length), ok_bind, hput]
      rw [bytesFrom_eq_cons hcapacity (by omega), List.append_cons written (asByte _)]
      exact ih _ (by omega) hlength (by omega)

/-! ## The call -/

/-- The length is kept in an `int`. -/
theorem srcLen_eq (sSrc : Text) : srcLen sSrc = (sSrc.length : Int).bmod (2 ^ 32) :=
  Int32.toInt_ofNat'

/-- A length below 2^31 is kept. -/
theorem srcLen_of_lt {sSrc : Text} (h : sSrc.length < 2 ^ 31) : srcLen sSrc = sSrc.length := by
  rw [srcLen_eq, Int.bmod_def]
  omega

/-- The kept length is never more than the length. -/
theorem capacity_le {sSrc : Text} (h : srcLen sSrc = capacity) : capacity ≤ sSrc.length := by
  rw [srcLen_eq, Int.bmod_def] at h
  omega

/-- Unless the kept length is negative, no access goes outside and the bytes up to that length are
decoded. -/
theorem uriDecode_of_srcLen {sSrc : Text} (hsrc : srcLen sSrc = capacity)
    (hcapacity : capacity ≤ sSrc.length) :
    uriDecode sSrc = .ok (decode ((sSrc.map asByte).take capacity)) := by
  obtain ⟨position, out, hloop, hle, hout, heq⟩ :=
    decodeLoop_eq hcapacity [] (Nat.zero_le capacity) (Nat.zero_le 0)
  rw [uriDecode, hsrc, check_eq, if_neg (by omega), hloop]
  simp only [ok_bind]
  rw [tailLoop_eq hcapacity out hle hout, heq]
  rfl

/-- Bytes that fit are decoded as `Percent.decode` decodes them. -/
theorem uriDecode_eq {sSrc : Text} (hbytes : Bytes sSrc) (h : sSrc.length < 2 ^ 31) :
    uriDecode sSrc = .ok (SearchHandler.uriDecode sSrc) := by
  rw [uriDecode_of_srcLen (srcLen_of_lt h) (Nat.le_refl sSrc.length), map_asByte hbytes,
    List.take_length]
  rfl

/-- A negative length stops the call before it reads or writes anything. -/
theorem uriDecode_of_neg {sSrc : Text} (h : srcLen sSrc < 0) :
    uriDecode sSrc = .error .badArrayNewLength := by
  rw [uriDecode, check_eq, if_pos h]

/-- Whatever the string holds and however it ends, no access goes outside and no more is written
than there is to read; only a length that became negative stops the call, before its first access.
-/
theorem uriDecode_inside (sSrc : Text) :
    (∃ result, uriDecode sSrc = .ok result ∧ result.length ≤ sSrc.length) ∨
    (srcLen sSrc < 0 ∧ uriDecode sSrc = .error .badArrayNewLength) := by
  rcases lt_or_ge (srcLen sSrc) 0 with hneg | hpos
  · exact .inr ⟨hneg, uriDecode_of_neg hneg⟩
  · obtain ⟨capacity, hsrc⟩ := Int.eq_ofNat_of_zero_le hpos
    have hcapacity : capacity ≤ sSrc.length := capacity_le hsrc
    refine .inl ⟨_, uriDecode_of_srcLen hsrc hcapacity, ?_⟩
    calc (decode ((sSrc.map asByte).take capacity)).length
        ≤ ((sSrc.map asByte).take capacity).length := Percent.length_decode_le _
      _ ≤ (sSrc.map asByte).length := List.length_take_le' _ _
      _ = sSrc.length := List.length_map _

/-- Whichever bytes were escaped, and however, `uriDecode` reads them back. The length is kept in
an `int`; the server passes the query of a request, whose head `mongoose` drops from
`MG_MAX_HTTP_REQUEST_SIZE` bytes on. -/
theorem uriDecode_encodes {bytes text : Text} (hbytes : Bytes bytes) (h : Encodes bytes text)
    (hlength : text.length < 2 ^ 31) : uriDecode text = .ok bytes := by
  rw [uriDecode_eq (Percent.bytes_of_encodes h hbytes) hlength]
  exact congrArg Except.ok (Percent.decode_of_encodes h)

/-- One byte escaped with either case and at the end. -/
theorem uriDecode_encodes_cases :
    uriDecode ['%', '4', 'f', 'b', '%', '2', '5', '%', '4', 'F']
      = .ok ['O', 'b', '%', 'O'] := by
  refine uriDecode_encodes (by simp [Bytes]) ?_ (by decide)
  exact .escape rfl rfl rfl (.keep (by decide) (.escape rfl rfl rfl (.escape rfl rfl rfl .nil)))

end TallerII.UriDecode
