import Mathlib.Data.List.GetD
import OxidizedSystemd.Lib.Faults
import OxidizedSystemd.Timesyncd.Nts

/-!
# NTS responses that are not trusted

`NtpExtensionField::parse_all` and `to_bytes`, `nts_aead_decrypt` and `verify_nts_response`
(`timesyncd/src/nts.rs`, lines 619–671, 727–752 and 908–1012) with every sum, index and slice that
they compute. A sum that leaves the words, an access outside a slice, a nonce of another length
than the array that is built from it, and a loop that takes more turns than it is given are faults.

* `readFields_eq`, `readLocated_eq`: the checks in front of the decryption have no fault.
* `runVerify_eq`: the fault of the verifier.
* `verify_safe_iff`: when the verifier is safe.
* `empty_nonce_faults`: a packet that it is not safe on.
-/

namespace OxidizedSystemd.Timesyncd

open OxidizedSystemd.Lib

/-! ## The source -/

/-- At most `fuel` turns of the loop of `parse_all` (lines 640–667). -/
def readFields (checks : Bool) (data : Bytes) :
    ℕ → ℕ → List NtpExtensionField → Faulty (Except NtsError (List NtpExtensionField))
  | 0, _, _ => .error .endless
  | fuel + 1, offset, fields => do
    if (← add checks offset extFieldHeaderLen) ≤ data.length then
      let t₁ ← index data offset
      let t₂ ← index data (← add checks offset 1)
      let l₁ ← index data (← add checks offset 2)
      let l₂ ← index data (← add checks offset 3)
      let totalLen := fromBe16 l₁ l₂
      if totalLen < extFieldHeaderLen then
        return .error (.extensionField ("extension field length " ++ toString totalLen ++
          " < minimum " ++ toString extFieldHeaderLen))
      else if (← add checks offset totalLen) > data.length then
        let remaining ← sub checks data.length offset
        return .error (.extensionField ("extension field at offset " ++ toString offset ++
          " extends beyond data (len=" ++ toString totalLen ++ ", remaining=" ++
          toString remaining ++ ")"))
      else
        let valueLen ← sub checks totalLen extFieldHeaderLen
        let start ← add checks offset extFieldHeaderLen
        let value ← slice data start (← add checks start valueLen)
        let field : NtpExtensionField := ⟨UInt16.ofNat (fromBe16 t₁ t₂), value⟩
        readFields checks data fuel (← add checks offset totalLen) (fields ++ [field])
    else return .ok fields

/-- `parse_all`. A turn takes four bytes or more. -/
def readAll (checks : Bool) (data : Bytes) : Faulty (Except NtsError (List NtpExtensionField)) :=
  readFields checks data (data.length + 1) 0 []

/-- `to_bytes` (lines 622–633). -/
def writeField (checks : Bool) (f : NtpExtensionField) : Faulty Bytes := do
  let paddedLen := (← add checks f.value.length 3) / 4 * 4
  let totalLen ← add checks 4 paddedLen
  let padding ← sub checks paddedLen f.value.length
  return toBe16 f.fieldType.toNat ++ (toBe16 totalLen ++ (f.value ++ List.replicate padding 0))

/-- The loop that writes the fields in front of the first authenticator (lines 969–976). -/
def writeAad (checks : Bool) : Bytes → List NtpExtensionField → Faulty Bytes
  | aad, [] => .ok aad
  | aad, f :: fields =>
    if f.isAuthenticator then .ok aad
    else do
      let bytes ← writeField checks f
      writeAad checks (aad ++ bytes) fields

/-- The nonce and the ciphertext in an authenticator (lines 943–962). -/
def readAuthenticator (checks : Bool) (auth : Bytes) :
    Faulty (Except NtsError (Bytes × Bytes)) := do
  if auth.length < 4 then return .error (.authFailed "authenticator value too short")
  else
    let nonceLen := fromBe16 (← index auth 0) (← index auth 1)
    if auth.length < (← add checks (← add checks 2 nonceLen) 2) then
      return .error (.authFailed "authenticator nonce truncated")
    else
      let nonce ← slice auth 2 (← add checks 2 nonceLen)
      let ctLen := fromBe16 (← index auth (← add checks 2 nonceLen))
        (← index auth (← add checks 3 nonceLen))
      let ctStart ← add checks 4 nonceLen
      if auth.length < (← add checks ctStart ctLen) then
        return .error (.authFailed "authenticator ciphertext truncated")
      else return .ok (nonce, ← slice auth ctStart (← add checks ctStart ctLen))

/-- The checks in front of the decryption (lines 913–976). -/
def readLocated (checks : Bool) (ntpPacket expectedUniqueId : Bytes) :
    Faulty (Except NtsError Located) := do
  if ntpPacket.length < 48 then
    return .error (.extensionField "packet too short for NTP header")
  else
    let ntpHeader ← slice ntpPacket 0 48
    let extData ← slice ntpPacket 48 ntpPacket.length
    match ← readAll checks extData with
    | .error e => return .error e
    | .ok fields =>
      match fields.find? NtpExtensionField.isUniqueId with
      | none => return .error (.authFailed "response missing Unique Identifier")
      | some uidField =>
        if uidField.value ≠ expectedUniqueId then
          return .error (.authFailed
            "Unique Identifier mismatch — possible replay or spoofing")
        else
          match fields.reverse.find? NtpExtensionField.isAuthenticator with
          | none => return .error (.authFailed "response missing NTS Authenticator")
          | some authField =>
            match ← readAuthenticator checks authField.value with
            | .error e => return .error e
            | .ok (nonce, ciphertext) =>
              let aad ← writeAad checks ntpHeader fields
              return .ok ⟨fields, uidField, nonce, aad, ciphertext⟩

/-- `GenericArray::from_slice` for an array of `n` bytes. -/
def fromSlice (n : ℕ) (bytes : Bytes) : Faulty Bytes :=
  if bytes.length = n then .ok bytes else .error .outOfBounds

/-- `nts_aead_decrypt` (lines 727–752). -/
def runDecrypt (aead : Aead) (key nonce aad ciphertext : Bytes) :
    Faulty (Except NtsError Bytes) := do
  if key.length ≠ aeadKeyLen then
    return .error (.aead ("invalid key length: " ++ toString key.length ++ " (expected " ++
      toString aeadKeyLen ++ ")"))
  else
    let aeadNonce ← fromSlice sivTagLen nonce
    match aead.decrypt key aeadNonce aad ciphertext with
    | .ok plaintext => return .ok plaintext
    | .error e => return .error (.aead ("decryption failed: " ++ e))

/-- `verify_nts_response` (lines 908–1012). -/
def runVerify (checks : Bool) (aead : Aead) (s2cKey ntpPacket expectedUniqueId : Bytes) :
    Faulty (Except NtsError NtsResponseData) := do
  match ← readLocated checks ntpPacket expectedUniqueId with
  | .error e => return .error e
  | .ok found =>
    match ← runDecrypt aead s2cKey found.nonce found.aad found.ciphertext with
    | .error e => return .error e
    | .ok plaintext =>
      match ← (if plaintext = [] then return .ok [] else readAll checks plaintext) with
      | .error e => return .error e
      | .ok decryptedFields =>
        let newCookies :=
          (decryptedFields.filter (·.fieldType == extTypeNtsCookie)).map (·.value)
        return .ok ⟨found.uidField.value, newCookies, decryptedFields⟩

/-! ## The checks in front of the decryption -/

variable {checks : Bool} {data auth aad : Bytes} {fields : List NtpExtensionField}

theorem drop_four {offset : ℕ} (h : offset + 4 ≤ data.length) :
    data.drop offset = data[offset] :: data[offset + 1] :: data[offset + 2] :: data[offset + 3] ::
      data.drop (offset + 4) := by
  rw [List.drop_eq_getElem_cons (i := offset) (by omega),
    List.drop_eq_getElem_cons (i := offset + 1) (by omega),
    List.drop_eq_getElem_cons (i := offset + 2) (by omega),
    List.drop_eq_getElem_cons (i := offset + 3) (by omega)]

/-- Fewer than four bytes are no field. -/
theorem parseFields_short {offset : ℕ} (h : data.length < 4) (fuel : ℕ) :
    parseFields fuel offset data = .ok [] := by
  cases fuel with
  | zero => rfl
  | succ fuel =>
    match data with
    | [] | [_] | [_, _] | [_, _, _] => rfl
    | _ :: _ :: _ :: _ :: body =>
      simp only [List.length_cons] at h
      omega

/-- The loop has no fault and reads the fields that `parse_all` reads, if it is given a turn for
    each byte that is left. -/
theorem readFields_eq (hlen : data.length < 2 ^ 63) {fuel offset : ℕ} (hin : offset ≤ data.length)
    (hfuel : data.length < offset + fuel) (fields : List NtpExtensionField) :
    readFields checks data fuel offset fields =
      .ok ((parseFields fuel offset (data.drop offset)).map (fields ++ ·)) := by
  have hheader : extFieldHeaderLen = 4 := rfl
  induction fuel generalizing offset fields with
  | zero => omega
  | succ fuel ih =>
    rw [readFields, add_ok (by omega), ok_bind]
    by_cases hhead : offset + 4 ≤ data.length
    swap
    · rw [if_neg (by omega), parseFields_short (by rw [List.length_drop]; omega)]
      simp [Except.map, pure, Except.pure]
    rw [if_pos (by omega), index_ok (by omega), ok_bind, add_ok (by omega), ok_bind,
      index_ok (by omega), ok_bind, add_ok (by omega), ok_bind, index_ok (by omega), ok_bind,
      add_ok (by omega), ok_bind, index_ok (by omega), ok_bind, drop_four hhead, parseFields]
    have htotal := fromBe16_lt data[offset + 2] data[offset + 3]
    have hbody : (data.drop (offset + 4)).length + 4 = data.length - offset := by
      rw [List.length_drop]
      omega
    generalize fromBe16 data[offset + 2] data[offset + 3] = totalLen at htotal
    dsimp only
    by_cases hmin : totalLen < extFieldHeaderLen
    · rw [if_pos hmin, if_pos hmin]
      rfl
    rw [if_neg hmin, if_neg hmin, add_ok (by omega), ok_bind, hbody]
    by_cases hover : offset + totalLen > data.length
    · rw [if_pos hover, if_pos (by omega), sub_ok hin, ok_bind]
      rfl
    rw [if_neg hover, if_neg (by omega), sub_ok (by omega), ok_bind, ok_bind, add_ok (by omega),
      ok_bind, slice_ok (by omega) (by omega), ok_bind, ok_bind, ih (by omega) (by omega),
      List.drop_drop]
    have hrest : offset + 4 + (totalLen - extFieldHeaderLen) = offset + totalLen := by omega
    have hvalue : offset + extFieldHeaderLen + (totalLen - extFieldHeaderLen) -
        (offset + extFieldHeaderLen) = totalLen - extFieldHeaderLen := by omega
    rw [hrest, hvalue, hheader]
    cases parseFields fuel (offset + totalLen) (data.drop (offset + totalLen)) with
    | error e => rfl
    | ok more =>
      simp only [Except.map, bind, Except.bind, pure, Except.pure, List.append_assoc,
        List.singleton_append]

theorem readAll_eq (hlen : data.length < 2 ^ 63) :
    readAll checks data = .ok (parseAll data) := by
  rw [readAll, readFields_eq hlen (Nat.zero_le _) (by omega), parseAll, List.drop_zero]
  refine congrArg Except.ok ?_
  cases parseFields (data.length + 1) 0 data with
  | error e => rfl
  | ok fields => rfl

theorem writeField_eq {f : NtpExtensionField} (hlen : f.value.length < 2 ^ 63) :
    writeField checks f = .ok f.toBytes := by
  rw [writeField, add_ok (by omega), ok_bind]
  dsimp only
  rw [add_ok (by omega), ok_bind, sub_ok (by omega), ok_bind]
  rfl

theorem writeAad_eq (hlen : ∀ f ∈ fields, f.value.length < 2 ^ 63) :
    writeAad checks aad fields = .ok (associatedData aad fields) := by
  induction fields generalizing aad with
  | nil => rw [writeAad, associatedData, List.takeWhile_nil, List.flatMap_nil, List.append_nil]
  | cons f fields ih =>
    obtain ⟨hf, hfields⟩ := List.forall_mem_cons.mp hlen
    rw [writeAad, associatedData]
    by_cases hauth : f.isAuthenticator = true
    · rw [if_pos hauth, List.takeWhile_cons_of_neg (by simp [hauth]), List.flatMap_nil,
        List.append_nil]
    · rw [if_neg hauth, writeField_eq hf, ok_bind, ih hfields, associatedData,
        List.takeWhile_cons_of_pos (by simp [hauth]), List.flatMap_cons, List.append_assoc]

theorem readAuthenticator_eq (hlen : auth.length < 2 ^ 63) :
    readAuthenticator checks auth = .ok (authenticatorParts auth) := by
  rw [readAuthenticator, authenticatorParts]
  by_cases hshort : auth.length < 4
  · rw [if_pos hshort, if_pos hshort]
    rfl
  rw [if_neg hshort, if_neg hshort, index_ok (by omega), ok_bind, index_ok (by omega), ok_bind,
    List.getD_eq_getElem _ _ (by omega), List.getD_eq_getElem _ _ (by omega)]
  have hnonce := fromBe16_lt auth[0] auth[1]
  generalize fromBe16 auth[0] auth[1] = nonceLen at hnonce
  dsimp only
  rw [add_ok (by omega), ok_bind, add_ok (by omega), ok_bind]
  by_cases htrunc : auth.length < 2 + nonceLen + 2
  · rw [if_pos htrunc, if_pos htrunc]
    rfl
  rw [if_neg htrunc, if_neg htrunc, ok_bind, slice_ok (by omega) (by omega), ok_bind, ok_bind,
    index_ok (by omega), ok_bind, add_ok (by omega), ok_bind, index_ok (by omega), ok_bind,
    List.getD_eq_getElem _ _ (by omega), List.getD_eq_getElem _ _ (by omega)]
  have hct := fromBe16_lt auth[2 + nonceLen] auth[3 + nonceLen]
  generalize fromBe16 auth[2 + nonceLen] auth[3 + nonceLen] = ctLen at hct
  rw [add_ok (by omega), ok_bind, add_ok (by omega), ok_bind]
  by_cases hover : auth.length < 4 + nonceLen + ctLen
  · rw [if_pos hover, if_pos hover]
    rfl
  rw [if_neg hover, if_neg hover, ok_bind, slice_ok (by omega) (by omega), ok_bind,
    Nat.add_sub_cancel_left, Nat.add_sub_cancel_left]
  rfl

/-- A field of a packet is not longer than its length of 16 bits. -/
theorem parseAll_length (h : parseAll data = .ok fields) :
    ∀ f ∈ fields, f.value.length < 65536 := by
  intro f hf
  have := (parseFields_wire h).2 f hf
  omega

/-- What is in front of the decryption has no fault, and finds what the checks find. -/
theorem readLocated_eq {ntpPacket : Bytes} (hlen : ntpPacket.length < 2 ^ 63)
    (expectedUniqueId : Bytes) :
    readLocated checks ntpPacket expectedUniqueId = .ok (locate ntpPacket expectedUniqueId) := by
  rw [readLocated, locate]
  by_cases hshort : ntpPacket.length < 48
  · rw [if_pos hshort, if_pos hshort]
    rfl
  have hext : (ntpPacket.drop 48).take (ntpPacket.length - 48) = ntpPacket.drop 48 :=
    List.take_of_length_le (by rw [List.length_drop])
  have hextLen : (ntpPacket.drop 48).length < 2 ^ 63 := by
    rw [List.length_drop]
    omega
  rw [if_neg hshort, if_neg hshort, slice_ok (by omega) (by omega), ok_bind,
    slice_ok (by omega) (by omega), ok_bind, hext, readAll_eq hextLen, ok_bind]
  cases hparse : parseAll (ntpPacket.drop 48) with
  | error e => rfl
  | ok fields =>
    have hvalue := parseAll_length hparse
    dsimp only [bind, Except.bind]
    cases huid : fields.find? NtpExtensionField.isUniqueId with
    | none => rfl
    | some uidField =>
      dsimp only
      by_cases hmatch : uidField.value = expectedUniqueId
      swap
      · rw [if_pos hmatch, if_pos hmatch]
        rfl
      rw [if_neg (not_not.mpr hmatch), if_neg (not_not.mpr hmatch)]
      cases hauth : fields.reverse.find? NtpExtensionField.isAuthenticator with
      | none => rfl
      | some authField =>
        have hauthLen := hvalue authField (List.mem_reverse.mp (List.mem_of_find?_eq_some hauth))
        dsimp only
        rw [readAuthenticator_eq (by omega)]
        dsimp only
        cases authenticatorParts authField.value with
        | error e => rfl
        | ok parts =>
          dsimp only
          rw [writeAad_eq fun f hf => by have := hvalue f hf; omega]
          rfl

/-! ## The decryption -/

/-- A cipher, whose plaintexts are vectors: of at most `isize::MAX` bytes. -/
structure VecAead extends Aead where
  length_lt : ∀ key nonce aad ciphertext plaintext,
    decrypt key nonce aad ciphertext = .ok plaintext → plaintext.length < 2 ^ 63

/-- The verifier stops at a fault exactly if it comes to decrypt with a nonce of another length
    than 16. -/
theorem runVerify_eq {cipher : VecAead} {s2cKey ntpPacket expectedUniqueId : Bytes}
    (hkey : s2cKey.length = aeadKeyLen) (hlen : ntpPacket.length < 2 ^ 63) :
    runVerify checks cipher.toAead s2cKey ntpPacket expectedUniqueId =
      match locate ntpPacket expectedUniqueId with
      | .error e => .ok (.error e)
      | .ok found =>
        if found.nonce.length = 16 then
          .ok (verifyNtsResponse cipher.toAead s2cKey ntpPacket expectedUniqueId)
        else .error .outOfBounds := by
  rw [runVerify, readLocated_eq hlen, ok_bind, verifyNtsResponse]
  cases locate ntpPacket expectedUniqueId with
  | error e => rfl
  | ok found =>
    dsimp only [bind, Except.bind]
    have hsame : ¬s2cKey.length ≠ aeadKeyLen := not_not.mpr hkey
    rw [runDecrypt, if_neg hsame, ntsAeadDecrypt, if_neg hsame, fromSlice, sivTagLen]
    by_cases hnonce : found.nonce.length = 16
    swap
    · rw [if_neg hnonce, if_neg hnonce]
      rfl
    rw [if_pos hnonce, if_pos hnonce, if_neg (not_not.mpr hnonce)]
    dsimp only [bind, Except.bind]
    cases hdecrypt : cipher.decrypt s2cKey found.nonce found.aad found.ciphertext with
    | error e => rfl
    | ok plaintext =>
      have hplain := cipher.length_lt _ _ _ _ _ hdecrypt
      dsimp only [pure, Except.pure]
      by_cases hempty : plaintext = []
      · rw [if_pos hempty, if_pos hempty]
      · rw [if_neg hempty, if_neg hempty, readAll_eq hplain]
        dsimp only
        cases parseAll plaintext with
        | error e => rfl
        | ok decrypted => rfl

/-! ## The authenticator -/

/-- A word of 16 bits in front of the rest. -/
theorem drop_word {i : ℕ} (h : i + 2 ≤ data.length) :
    data.drop i = toBe16 (fromBe16 (data.getD i 0) (data.getD (i + 1) 0)) ++ data.drop (i + 2) := by
  rw [List.getD_eq_getElem _ _ (by omega), List.getD_eq_getElem _ _ (by omega), toBe16_fromBe16,
    List.drop_eq_getElem_cons (i := i) (by omega),
    List.drop_eq_getElem_cons (i := i + 1) (by omega)]
  rfl

theorem word_of_drop {i n : ℕ} {rest : Bytes} (hn : n < 65536)
    (h : data.drop i = toBe16 n ++ rest) :
    fromBe16 (data.getD i 0) (data.getD (i + 1) 0) = n ∧ data.drop (i + 2) = rest := by
  have hlen : i + 2 ≤ data.length := by
    have := congrArg List.length h
    simp only [List.length_drop, List.length_append, length_toBe16] at this
    omega
  rw [drop_word hlen] at h
  obtain ⟨hword, hrest⟩ := List.append_inj h (by rw [length_toBe16, length_toBe16])
  exact ⟨toBe16_inj (fromBe16_lt _ _) hn hword, hrest⟩

/-- The parts of an authenticator: each with its length in front of it. -/
theorem authenticatorParts_ok_iff {nonce ciphertext : Bytes} (hlen : auth.length < 65536) :
    authenticatorParts auth = .ok (nonce, ciphertext) ↔ ∃ rest, auth =
      toBe16 nonce.length ++ (nonce ++ (toBe16 ciphertext.length ++ (ciphertext ++ rest))) := by
  rw [authenticatorParts]
  constructor
  · intro h
    split at h
    · cases h
    rename_i hshort
    dsimp only at h
    split at h
    · cases h
    rename_i htrunc
    split at h
    · cases h
    rename_i hover
    obtain ⟨rfl, rfl⟩ := Prod.mk.inj (Except.ok.inj h)
    have hword := @drop_word auth 0 (by omega)
    rw [List.drop_zero] at hword
    generalize fromBe16 (auth.getD 0 0) (auth.getD 1 0) = nonceLen at *
    have hword' := @drop_word auth (2 + nonceLen) (by omega)
    have hnext : 2 + nonceLen + 1 = 3 + nonceLen := by omega
    have hbehind : 2 + nonceLen + 2 = 4 + nonceLen := by omega
    rw [hnext, hbehind] at hword'
    generalize fromBe16 (auth.getD (2 + nonceLen) 0) (auth.getD (3 + nonceLen) 0) = ctLen at *
    have hnonce : ((auth.drop 2).take nonceLen).length = nonceLen := by
      rw [List.length_take, List.length_drop]
      omega
    have hct : ((auth.drop (4 + nonceLen)).take ctLen).length = ctLen := by
      rw [List.length_take, List.length_drop]
      omega
    refine ⟨(auth.drop (4 + nonceLen)).drop ctLen, ?_⟩
    rw [hnonce, hct, List.take_append_drop, ← hword', ← List.drop_drop, List.take_append_drop]
    exact hword
  · rintro ⟨rest, hauth⟩
    have hlengths := congrArg List.length hauth
    simp only [List.length_append, length_toBe16] at hlengths
    obtain ⟨hnonce, hdrop⟩ := @word_of_drop auth 0 _ _ (by omega) hauth
    rw [Nat.zero_add] at hnonce hdrop
    have hdrop' : auth.drop (2 + nonce.length) =
        toBe16 ciphertext.length ++ (ciphertext ++ rest) := by
      rw [← List.drop_drop, hdrop, List.drop_left]
    obtain ⟨hct, hrest⟩ := word_of_drop (by omega) hdrop'
    have hnext : 2 + nonce.length + 1 = 3 + nonce.length := by omega
    have hbehind : 2 + nonce.length + 2 = 4 + nonce.length := by omega
    rw [hnext] at hct
    rw [hbehind] at hrest
    dsimp only
    rw [if_neg (by omega), hnonce, if_neg (by omega), hct, if_neg (by omega), hdrop, hrest,
      List.take_left, List.take_left]

/-! ## When the verifier is safe -/

/-- The packet passes the checks in front of the decryption, and this is its nonce. -/
def ReachesDecryption (ntpPacket expectedUniqueId nonce : Bytes) : Prop :=
  48 ≤ ntpPacket.length ∧ ∃ fields uidField auth ciphertext rest,
    parseAll (ntpPacket.drop 48) = .ok fields ∧
      fields.find? NtpExtensionField.isUniqueId = some uidField ∧
      uidField.value = expectedUniqueId ∧
      fields.reverse.find? NtpExtensionField.isAuthenticator = some auth ∧
      auth.value =
        toBe16 nonce.length ++ (nonce ++ (toBe16 ciphertext.length ++ (ciphertext ++ rest)))

/-- The authenticator of the packet gives its nonce this length. -/
def HasNonceLen (ntpPacket : Bytes) (nonceLen : ℕ) : Prop :=
  ∃ fields auth a b rest, parseAll (ntpPacket.drop 48) = .ok fields ∧
    fields.reverse.find? NtpExtensionField.isAuthenticator = some auth ∧
    auth.value = a :: b :: rest ∧ fromBe16 a b = nonceLen

/-- What is located is a packet that reaches the decryption. -/
theorem locate_iff {ntpPacket expectedUniqueId nonce : Bytes} :
    (∃ found, locate ntpPacket expectedUniqueId = .ok found ∧ found.nonce = nonce) ↔
      ReachesDecryption ntpPacket expectedUniqueId nonce := by
  constructor
  · rintro ⟨found, hfound, rfl⟩
    obtain ⟨hlen, hparse, huid, ⟨auth, hauth⟩, -⟩ := locate_ok hfound
    have hauthLen := parseAll_length hparse auth
      (List.mem_reverse.mp (List.mem_of_find?_eq_some hauth))
    rw [locate, if_neg (Nat.not_lt.mpr hlen), hparse] at hfound
    dsimp only [bind, Except.bind] at hfound
    rw [huid] at hfound
    dsimp only at hfound
    split at hfound
    · cases hfound
    rename_i hmatch
    rw [hauth] at hfound
    dsimp only at hfound
    cases hparts : authenticatorParts auth.value with
    | error e =>
      rw [hparts] at hfound
      cases hfound
    | ok parts =>
      rw [hparts] at hfound
      obtain ⟨rest, hvalue⟩ := (authenticatorParts_ok_iff hauthLen).mp hparts
      refine ⟨hlen, found.fields, found.uidField, auth, parts.2, rest, hparse, huid,
        not_not.mp hmatch, hauth, ?_⟩
      rw [← Except.ok.inj hfound]
      exact hvalue
  · rintro ⟨hlen, fields, uidField, auth, ciphertext, rest, hparse, huid, hmatch, hauth, hvalue⟩
    have hauthLen := parseAll_length hparse auth
      (List.mem_reverse.mp (List.mem_of_find?_eq_some hauth))
    have hparts := (authenticatorParts_ok_iff hauthLen).mpr ⟨rest, hvalue⟩
    refine ⟨⟨fields, uidField, nonce, associatedData (ntpPacket.take 48) fields, ciphertext⟩, ?_,
      rfl⟩
    rw [locate, if_neg (Nat.not_lt.mpr hlen), hparse]
    dsimp only [bind, Except.bind]
    rw [huid]
    dsimp only
    rw [if_neg (not_not.mpr hmatch), hauth]
    dsimp only
    rw [hparts]
    rfl

/-- A key of the cipher. -/
structure AeadKey where
  bytes : Bytes
  length_eq : bytes.length = aeadKeyLen

/-- A packet: a slice, which has at most `isize::MAX` bytes. -/
structure NtpPacket where
  bytes : Bytes
  length_lt : bytes.length < 2 ^ 63

/-- The verifier ends without a fault on the packet, and rejects it with an error if its
    authenticator has a nonce of another length than 16. -/
structure VerifySafe (checks : Bool) (cipher : VecAead) (s2cKey : AeadKey) (ntpPacket : NtpPacket)
    (expectedUniqueId : Bytes) : Prop where
  safe : Safe (runVerify checks cipher.toAead s2cKey.bytes ntpPacket.bytes expectedUniqueId)
  rejects : ∀ nonceLen, HasNonceLen ntpPacket.bytes nonceLen → nonceLen ≠ 16 →
    ∃ e, runVerify checks cipher.toAead s2cKey.bytes ntpPacket.bytes expectedUniqueId =
      .ok (.error e)

theorem VerifySafe.nonce_length {cipher : VecAead} {s2cKey : AeadKey} {ntpPacket : NtpPacket}
    {expectedUniqueId nonce : Bytes}
    (h : VerifySafe checks cipher s2cKey ntpPacket expectedUniqueId)
    (hreaches : ReachesDecryption ntpPacket.bytes expectedUniqueId nonce) : nonce.length = 16 := by
  obtain ⟨found, hfound, rfl⟩ := locate_iff.mpr hreaches
  have hsafe := h.safe
  rw [runVerify_eq s2cKey.length_eq ntpPacket.length_lt, hfound] at hsafe
  by_contra hnonce
  dsimp only at hsafe
  rw [if_neg hnonce] at hsafe
  exact not_safe_error _ hsafe

/-- The verifier is safe on a packet exactly if the packet does not reach the decryption with a
    nonce of another length than 16. -/
theorem verify_safe_iff (checks : Bool) (cipher : VecAead) (s2cKey : AeadKey)
    (ntpPacket : NtpPacket) (expectedUniqueId : Bytes) :
    VerifySafe checks cipher s2cKey ntpPacket expectedUniqueId ↔
      ∀ nonce, ReachesDecryption ntpPacket.bytes expectedUniqueId nonce → nonce.length = 16 := by
  constructor
  · exact fun h nonce => h.nonce_length
  · intro h
    have hrun := @runVerify_eq checks cipher s2cKey.bytes ntpPacket.bytes expectedUniqueId
      s2cKey.length_eq ntpPacket.length_lt
    cases hfound : locate ntpPacket.bytes expectedUniqueId with
    | error e =>
      rw [hfound] at hrun
      refine ⟨?_, fun _ _ _ => ⟨e, hrun⟩⟩
      rw [hrun]
      exact safe_ok _
    | ok found =>
      have hreaches := locate_iff.mp ⟨found, hfound, rfl⟩
      have hnonce := h _ hreaches
      rw [hfound] at hrun
      dsimp only at hrun
      rw [if_pos hnonce] at hrun
      constructor
      · rw [hrun]
        exact safe_ok _
      · -- the length of the nonce is the one that the authenticator gives it
        rintro _ ⟨fields, auth, a, b, rest, hparse, hauth, hvalue, rfl⟩ hne
        obtain ⟨-, fields', -, auth', ciphertext, rest', hparse', -, -, hauth', hvalue'⟩ :=
          hreaches
        obtain rfl := Except.ok.inj (hparse.symm.trans hparse')
        obtain rfl := Option.some.inj (hauth.symm.trans hauth')
        rw [hnonce] at hvalue'
        have hfirst := (@word_of_drop auth.value 0 16 _ (by decide) hvalue').1
        rw [hvalue] at hfirst
        exact absurd hfirst hne

/-- An authenticator without a nonce and a ciphertext. -/
def noNonceField : NtpExtensionField := ⟨extTypeNtsAuthenticator, [0, 0, 0, 0]⟩

/-- A packet with such an authenticator stops the verifier, before it has authenticated anything. -/
theorem empty_nonce_faults : ¬∀ checks cipher s2cKey ntpPacket expectedUniqueId,
    VerifySafe checks cipher s2cKey ntpPacket expectedUniqueId := by
  intro h
  have hsafe := h true ⟨⟨fun _ _ _ _ => .error "aead::Error"⟩, by
    intro _ _ _ _ _ h
    cases h⟩ ⟨List.replicate 32 0, rfl⟩ ⟨packetOf [uniqueIdField, noNonceField], by decide⟩
    [1, 2, 3, 4]
  have hnonce := @VerifySafe.nonce_length _ _ _ _ _ [] hsafe
    ⟨by decide, [uniqueIdField, noNonceField], uniqueIdField, noNonceField, [], [],
      by decide, by decide, rfl, by decide, by decide⟩
  cases hnonce

end OxidizedSystemd.Timesyncd
