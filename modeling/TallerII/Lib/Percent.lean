import TallerII.Lib.JsonText

/-!
# Percent encoding

A byte is a character below 256. `encode` writes the bytes that are not safe as a percent sign and
two hexadecimal digits, and `decode` reads such triples back wherever they stand and keeps
everything else. `decode_encode_append` says that what was encoded is read back, whatever follows
it. `Encodes` leaves open which bytes are escaped and in which case the digits are written;
`decode_of_encodes` says that every such writing is read back.
-/

namespace TallerII.Lib.Percent

open JsonText (hexValue)

/-- An upper-case hexadecimal digit. -/
def hexDigit (value : Nat) : Char :=
  if value < 10 then Char.ofNat (48 + value) else Char.ofNat (55 + value)

/-- A byte as a percent sign and its two digits. -/
def escape (byte : Char) : List Char :=
  ['%', hexDigit (byte.toNat / 16), hexDigit (byte.toNat % 16)]

/-- The bytes with those that are not safe escaped. -/
def encode (safe : Char → Bool) (bytes : List Char) : List Char :=
  bytes.flatMap fun byte => if safe byte then [byte] else escape byte

/-- A text with its escapes replaced by the bytes they stand for. -/
def decode : List Char → List Char
  | [] => []
  | c :: high :: low :: rest =>
    if c = '%' then
      match hexValue high, hexValue low with
      | some high, some low => Char.ofNat (16 * high + low) :: decode rest
      | _, _ => c :: decode (high :: low :: rest)
    else c :: decode (high :: low :: rest)
  | c :: rest => c :: decode rest

/-- A text writes some bytes: each is kept, unless it is the percent sign, or escaped with digits
in either case. -/
inductive Encodes : List Char → List Char → Prop
  | nil : Encodes [] []
  | keep {byte : Char} {bytes text : List Char} (hbyte : byte ≠ '%')
      (hrest : Encodes bytes text) :
      Encodes (byte :: bytes) (byte :: text)
  | escape {byte high low : Char} {highValue lowValue : Nat} {bytes text : List Char}
      (hhigh : hexValue high = some highValue) (hlow : hexValue low = some lowValue)
      (hbyte : byte.toNat = 16 * highValue + lowValue) (hrest : Encodes bytes text) :
      Encodes (byte :: bytes) ('%' :: high :: low :: text)

/-- Every character is below 256. -/
def Bytes (text : List Char) : Prop :=
  ∀ byte ∈ text, byte.toNat < 256

/-- Whether a text is one of bytes can be computed. -/
instance (text : List Char) : Decidable (Bytes text) :=
  inferInstanceAs (Decidable (∀ byte ∈ text, byte.toNat < 256))

/-- Bytes one after another. -/
theorem bytes_cons {byte : Char} {bytes : List Char} :
    Bytes (byte :: bytes) ↔ byte.toNat < 256 ∧ Bytes bytes :=
  List.forall_mem_cons

variable {safe : Char → Bool}

/-! ## Writing and reading a byte -/

/-- A hexadecimal digit is read as it was written. -/
theorem hexValue_hexDigit {value : Nat} (h : value < 16) :
    hexValue (hexDigit value) = some value := by
  have hdigits : ((List.range 16).all fun value => hexValue (hexDigit value) = some value)
      = true := by
    decide
  exact of_decide_eq_true (List.all_eq_true.mp hdigits value (List.mem_range.mpr h))

/-- A character that starts no escape stays. -/
theorem decode_cons {c : Char} (h : c ≠ '%') (text : List Char) :
    decode (c :: text) = c :: decode text := by
  match text with
  | [] => rfl
  | [_] => rfl
  | _ :: _ :: _ => rw [decode, if_neg h]

/-- An escape is decoded to its byte. -/
theorem decode_escape {byte : Char} (h : byte.toNat < 256) (rest : List Char) :
    decode (escape byte ++ rest) = byte :: decode rest := by
  have hhigh : hexValue (hexDigit (byte.toNat / 16)) = some (byte.toNat / 16) :=
    hexValue_hexDigit (by omega)
  have hlow : hexValue (hexDigit (byte.toNat % 16)) = some (byte.toNat % 16) :=
    hexValue_hexDigit (by omega)
  have hsum : 16 * (byte.toNat / 16) + byte.toNat % 16 = byte.toNat := by omega
  show decode ('%' :: hexDigit (byte.toNat / 16) :: hexDigit (byte.toNat % 16) :: rest) = _
  rw [decode, if_pos rfl, hhigh, hlow]
  simp only [hsum, Char.ofNat_toNat]

/-! ## Writing and reading a text -/

/-- Each byte is encoded by itself. -/
theorem encode_cons (byte : Char) (bytes : List Char) :
    encode safe (byte :: bytes)
      = (if safe byte then [byte] else escape byte) ++ encode safe bytes :=
  List.flatMap_cons

/-- What was encoded is read back, whatever follows it. -/
theorem decode_encode_append (hsafe : safe '%' = false) {bytes : List Char} (h : Bytes bytes)
    (rest : List Char) : decode (encode safe bytes ++ rest) = bytes ++ decode rest := by
  induction bytes with
  | nil => rfl
  | cons byte bytes ih =>
      obtain ⟨hbyte, hbytes⟩ := bytes_cons.mp h
      rw [encode_cons, List.append_assoc]
      split
      · rename_i hkept
        have hne : byte ≠ '%' := by
          rintro rfl
          rw [hsafe] at hkept
          cases hkept
        rw [List.singleton_append, decode_cons hne, ih hbytes, List.cons_append]
      · rw [decode_escape hbyte, ih hbytes, List.cons_append]

/-! ## Reading any writing -/

/-- An escape is read as its byte, in whichever case its digits are. -/
theorem decode_triple {byte high low : Char} {highValue lowValue : Nat}
    (hhigh : hexValue high = some highValue) (hlow : hexValue low = some lowValue)
    (hbyte : byte.toNat = 16 * highValue + lowValue) (text : List Char) :
    decode ('%' :: high :: low :: text) = byte :: decode text := by
  rw [decode, if_pos rfl, hhigh, hlow]
  simp only [← hbyte, Char.ofNat_toNat]

/-- Whichever bytes were escaped, and however, the bytes are read back. -/
theorem decode_of_encodes {bytes text : List Char} (h : Encodes bytes text) :
    decode text = bytes := by
  induction h with
  | nil => rfl
  | keep hbyte _ ih => rw [decode_cons hbyte, ih]
  | escape hhigh hlow hbyte _ ih => rw [decode_triple hhigh hlow hbyte, ih]

/-- A hexadecimal digit is a byte, and its value is below 16. -/
theorem hexValue_lt {c : Char} {value : Nat} (h : hexValue c = some value) :
    c.toNat < 256 ∧ value < 16 := by
  unfold hexValue at h
  split at h
  · rename_i hc
    have hle : c.toNat ≤ 57 := Char.le_def.mp hc.2
    cases h
    omega
  · split at h
    · rename_i hc
      have hle : c.toNat ≤ 102 := Char.le_def.mp hc.2
      cases h
      omega
    · split at h
      · rename_i hc
        have hle : c.toNat ≤ 70 := Char.le_def.mp hc.2
        cases h
        omega
      · cases h

/-- Bytes are written with bytes. -/
theorem bytes_of_encodes {bytes text : List Char} (h : Encodes bytes text)
    (hbytes : Bytes bytes) :
    Bytes text := by
  induction h with
  | nil => exact hbytes
  | keep _ _ ih =>
      obtain ⟨hbyte, hrest⟩ := bytes_cons.mp hbytes
      exact bytes_cons.mpr ⟨hbyte, ih hrest⟩
  | escape hhigh hlow _ _ ih =>
      have htext := ih (bytes_cons.mp hbytes).2
      have hlast := bytes_cons.mpr ⟨(hexValue_lt hlow).1, htext⟩
      exact bytes_cons.mpr ⟨by decide, bytes_cons.mpr ⟨(hexValue_lt hhigh).1, hlast⟩⟩

/-- What is left to read never grows. -/
theorem length_decode_le (text : List Char) : (decode text).length ≤ text.length := by
  fun_induction decode text with
  | case1 => simp
  | case2 high low rest _ _ _ _ ih =>
      simp only [List.length_cons]
      omega
  | case3 high low rest _ ih =>
      simp only [List.length_cons] at ih ⊢
      omega
  | case4 c high low rest _ ih =>
      simp only [List.length_cons] at ih ⊢
      omega
  | case5 c rest _ ih =>
      simp only [List.length_cons]
      omega

/-- A text of at most two characters holds no escape. -/
theorem decode_short {text : List Char} (h : text.length ≤ 2) : decode text = text := by
  match text with
  | [] => rfl
  | [_] => rfl
  | [_, _] => rfl
  | _ :: _ :: _ :: _ =>
      simp only [List.length_cons] at h
      omega

end TallerII.Lib.Percent
