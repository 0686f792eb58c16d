import OxidizedSystemd.Lib.LittleEndian
import Mathlib.Data.List.TakeWhile

/-!
# NTS responses

Models of `NtpExtensionField::to_bytes` and `parse_all`, `nts_aead_decrypt` and
`verify_nts_response` (`timesyncd/src/nts.rs`, lines 619–671, 727–752 and 908–1012). The cipher is
a parameter.

* `parseFields_wire`: the fields that are parsed, one behind the other, are the bytes.
* `rebuilt_eq_wire_iff`: the rebuilt associated data is what was sent exactly if no authenticator
  stands in front and no field has a length that is rounded up.
* `verify_authentic_iff`: when an accepted response is authentic.
-/

namespace OxidizedSystemd.Timesyncd

open OxidizedSystemd.Lib

/-! ## Extension fields -/

/-- The errors of the parser and the verifier, with their texts. -/
inductive NtsError
  | extensionField (msg : String)
  | authFailed (msg : String)
  | aead (msg : String)
  /-- `GenericArray::from_slice` panics on a nonce of another length. -/
  | nonceLength
  deriving DecidableEq, Repr

structure NtpExtensionField where
  fieldType : UInt16
  value : Bytes
  deriving DecidableEq, Repr

def extTypeUniqueId : UInt16 := 0x0104

def extTypeNtsCookie : UInt16 := 0x0204

def extTypeNtsAuthenticator : UInt16 := 0x0404

def extFieldHeaderLen : ℕ := 4

/-- `to_be_bytes` of a number of 16 bits. -/
def toBe16 (n : ℕ) : Bytes := (toLe 2 n).reverse

/-- `u16::from_be_bytes`. -/
def fromBe16 (a b : UInt8) : ℕ := ofLe [b, a]

namespace NtpExtensionField

/-- The length of the value, rounded up to a multiple of four. -/
def paddedLen (f : NtpExtensionField) : ℕ := (f.value.length + 3) / 4 * 4

/-- `to_bytes` (lines 622–633); the length is cast to 16 bits. -/
def toBytes (f : NtpExtensionField) : Bytes :=
  toBe16 f.fieldType.toNat ++ (toBe16 (4 + f.paddedLen) ++
    (f.value ++ List.replicate (f.paddedLen - f.value.length) 0))

def isAuthenticator (f : NtpExtensionField) : Bool := f.fieldType == extTypeNtsAuthenticator

def isUniqueId (f : NtpExtensionField) : Bool := f.fieldType == extTypeUniqueId

end NtpExtensionField

/-- At most `fuel` turns of the loop of `parse_all`, from what is left behind `offset`. -/
def parseFields : ℕ → ℕ → Bytes → Except NtsError (List NtpExtensionField)
  | 0, _, _ => .ok []
  | fuel + 1, offset, t₁ :: t₂ :: l₁ :: l₂ :: body =>
    let totalLen := fromBe16 l₁ l₂
    if totalLen < extFieldHeaderLen then
      .error (.extensionField ("extension field length " ++ toString totalLen ++ " < minimum " ++
        toString extFieldHeaderLen))
    else if body.length + 4 < totalLen then
      .error (.extensionField ("extension field at offset " ++ toString offset ++
        " extends beyond data (len=" ++ toString totalLen ++ ", remaining=" ++
        toString (body.length + 4) ++ ")"))
    else do
      let valueLen := totalLen - extFieldHeaderLen
      let fields ← parseFields fuel (offset + totalLen) (body.drop valueLen)
      return ⟨UInt16.ofNat (fromBe16 t₁ t₂), body.take valueLen⟩ :: fields
  | _ + 1, _, _ => .ok []

/-- `parse_all` (lines 636–670). A turn takes four bytes or more. -/
def parseAll (data : Bytes) : Except NtsError (List NtpExtensionField) :=
  parseFields (data.length + 1) 0 data

/-! ## The verifier -/

/-- The cipher: `decrypt` of a key, a nonce, associated data and a ciphertext gives the plaintext
    or the text of an error. -/
structure Aead where
  decrypt : Bytes → Bytes → Bytes → Bytes → Except String Bytes

def aeadKeyLen : ℕ := 32

def sivTagLen : ℕ := 16

/-- `nts_aead_decrypt` (lines 727–752). -/
def ntsAeadDecrypt (aead : Aead) (key nonce aad ciphertext : Bytes) : Except NtsError Bytes :=
  if key.length ≠ aeadKeyLen then
    .error (.aead ("invalid key length: " ++ toString key.length ++ " (expected " ++
      toString aeadKeyLen ++ ")"))
  else if nonce.length ≠ sivTagLen then .error .nonceLength
  else
    match aead.decrypt key nonce aad ciphertext with
    | .ok plaintext => .ok plaintext
    | .error e => .error (.aead ("decryption failed: " ++ e))

/-- The nonce and the ciphertext in an authenticator (lines 943–962). -/
def authenticatorParts (auth : Bytes) : Except NtsError (Bytes × Bytes) :=
  if auth.length < 4 then .error (.authFailed "authenticator value too short")
  else
    let nonceLen := fromBe16 (auth.getD 0 0) (auth.getD 1 0)
    if auth.length < 2 + nonceLen + 2 then
      .error (.authFailed "authenticator nonce truncated")
    else
      let ctLen := fromBe16 (auth.getD (2 + nonceLen) 0) (auth.getD (3 + nonceLen) 0)
      let ctStart := 4 + nonceLen
      if auth.length < ctStart + ctLen then
        .error (.authFailed "authenticator ciphertext truncated")
      else .ok ((auth.drop 2).take nonceLen, (auth.drop ctStart).take ctLen)

/-- The associated data: the header and the fields in front of the first authenticator, written
    again (lines 964–976). -/
def associatedData (header : Bytes) (fields : List NtpExtensionField) : Bytes :=
  header ++ (fields.takeWhile fun f => !f.isAuthenticator).flatMap NtpExtensionField.toBytes

/-- What the verifier finds in a packet and hands to the cipher. -/
structure Located where
  fields : List NtpExtensionField
  uidField : NtpExtensionField
  nonce : Bytes
  aad : Bytes
  ciphertext : Bytes
  deriving DecidableEq, Repr

/-- The checks in front of the decryption (lines 913–976). -/
def locate (ntpPacket expectedUniqueId : Bytes) : Except NtsError Located :=
  if ntpPacket.length < 48 then .error (.extensionField "packet too short for NTP header")
  else do
    let fields ← parseAll (ntpPacket.drop 48)
    match fields.find? NtpExtensionField.isUniqueId with
    | none => .error (.authFailed "response missing Unique Identifier")
    | some uidField =>
      if uidField.value ≠ expectedUniqueId then
        .error (.authFailed "Unique Identifier mismatch — possible replay or spoofing")
      else
        match fields.reverse.find? NtpExtensionField.isAuthenticator with
        | none => .error (.authFailed "response missing NTS Authenticator")
        | some authField => do
          let (nonce, ciphertext) ← authenticatorParts authField.value
          return ⟨fields, uidField, nonce, associatedData (ntpPacket.take 48) fields, ciphertext⟩

structure NtsResponseData where
  uniqueId : Bytes
  newCookies : List Bytes
  decryptedExtensions : List NtpExtensionField

/-- `verify_nts_response` (lines 908–1012). -/
def verifyNtsResponse (aead : Aead) (s2cKey ntpPacket expectedUniqueId : Bytes) :
    Except NtsError NtsResponseData := do
  let found ← locate ntpPacket expectedUniqueId
  let plaintext ← ntsAeadDecrypt aead s2cKey found.nonce found.aad found.ciphertext
  let decryptedFields ← if plaintext = [] then .ok [] else parseAll plaintext
  let newCookies := (decryptedFields.filter (·.fieldType == extTypeNtsCookie)).map (·.value)
  return ⟨found.uidField.value, newCookies, decryptedFields⟩

/-! ## Fields and their bytes -/

/-- The bytes that a field was parsed from. -/
def NtpExtensionField.wire (f : NtpExtensionField) : Bytes :=
  toBe16 f.fieldType.toNat ++ (toBe16 (4 + f.value.length) ++ f.value)

@[simp] theorem length_toBe16 (n : ℕ) : (toBe16 n).length = 2 := by
  rw [toBe16, List.length_reverse, length_toLe]

theorem toBe16_fromBe16 (a b : UInt8) : toBe16 (fromBe16 a b) = [a, b] := by
  have h := toLe_ofLe [b, a]
  rw [toBe16, fromBe16]
  show (toLe [b, a].length (ofLe [b, a])).reverse = _
  rw [h]
  rfl

theorem fromBe16_lt (a b : UInt8) : fromBe16 a b < 65536 := by
  have h := ofLe_lt [b, a]
  have hpow : 256 ^ [b, a].length = 65536 := by
    simp
  rwa [hpow] at h

theorem toBe16_mod (n : ℕ) : toBe16 (n % 65536) = toBe16 n := by
  have hlow : ∀ m, toLe 2 m = [UInt8.ofNat m, UInt8.ofNat (m / 256)] := fun _ => rfl
  have hbyte : ∀ m, UInt8.ofNat (m % 256) = UInt8.ofNat m := by
    intro m
    apply UInt8.toNat_inj.mp
    rw [toNat_ofNat, toNat_ofNat, Nat.mod_mod]
  have hfirst : n % 65536 % 256 = n % 256 := by omega
  have hsecond : n % 65536 / 256 = n / 256 % 256 := by omega
  rw [toBe16, toBe16, hlow, hlow, ← hbyte (n % 65536), hfirst, hbyte, hsecond, hbyte]

theorem toBe16_inj {m n : ℕ} (hm : m < 65536) (hn : n < 65536) (h : toBe16 m = toBe16 n) :
    m = n := by
  have hofLe := congrArg ofLe (List.reverse_injective h)
  rwa [ofLe_toLe_of_lt hm, ofLe_toLe_of_lt hn] at hofLe

@[simp] theorem length_wire (f : NtpExtensionField) : f.wire.length = 4 + f.value.length := by
  simp [NtpExtensionField.wire]
  omega

/-- The fields and the rest behind them are the bytes; the length of each fits into 16 bits. -/
theorem parseFields_wire {fuel offset : ℕ} {data : Bytes} {fields : List NtpExtensionField}
    (h : parseFields fuel offset data = .ok fields) :
    (∃ rest, data = fields.flatMap NtpExtensionField.wire ++ rest) ∧
      ∀ f ∈ fields, 4 + f.value.length < 65536 := by
  induction fuel generalizing offset data fields with
  | zero =>
    obtain rfl := Except.ok.inj h
    exact ⟨⟨data, rfl⟩, fun f hf => absurd hf List.not_mem_nil⟩
  | succ fuel ih =>
    match data with
    | [] | [_] | [_, _] | [_, _, _] =>
      obtain rfl := Except.ok.inj h
      exact ⟨⟨_, rfl⟩, fun f hf => absurd hf List.not_mem_nil⟩
    | t₁ :: t₂ :: l₁ :: l₂ :: body =>
      have hlt := fromBe16_lt l₁ l₂
      unfold parseFields at h
      dsimp only at h
      split at h
      · cases h
      · rename_i hmin
        split at h
        · cases h
        · rename_i hfits
          unfold extFieldHeaderLen at hmin h
          cases hrest : parseFields fuel (offset + fromBe16 l₁ l₂)
              (body.drop (fromBe16 l₁ l₂ - 4)) with
          | error e =>
            rw [hrest] at h
            cases h
          | ok more =>
            rw [hrest] at h
            obtain rfl := Except.ok.inj h
            obtain ⟨⟨rest, hdata⟩, hmore⟩ := ih hrest
            have hlen : (body.take (fromBe16 l₁ l₂ - 4)).length = fromBe16 l₁ l₂ - 4 := by
              rw [List.length_take]
              omega
            have hwire : (⟨UInt16.ofNat (fromBe16 t₁ t₂), body.take (fromBe16 l₁ l₂ - 4)⟩ :
                NtpExtensionField).wire =
                  t₁ :: t₂ :: l₁ :: l₂ :: body.take (fromBe16 l₁ l₂ - 4) := by
              have htype : (UInt16.ofNat (fromBe16 t₁ t₂)).toNat = fromBe16 t₁ t₂ :=
                Nat.mod_eq_of_lt (fromBe16_lt t₁ t₂)
              have htotal : 4 + (fromBe16 l₁ l₂ - 4) = fromBe16 l₁ l₂ := by omega
              rw [NtpExtensionField.wire, htype, hlen, htotal, toBe16_fromBe16, toBe16_fromBe16]
              rfl
            constructor
            · refine ⟨rest, ?_⟩
              rw [List.flatMap_cons, hwire, List.append_assoc, ← hdata]
              simp only [List.cons_append, List.take_append_drop]
            · intro f hf
              rcases List.mem_cons.mp hf with rfl | hf
              · dsimp only
                omega
              · exact hmore f hf

theorem padded_eq_iff (f : NtpExtensionField) :
    f.paddedLen = f.value.length ↔ 4 ∣ f.value.length := by
  unfold NtpExtensionField.paddedLen
  omega

/-- A field is written as it was sent exactly if its length is a multiple of four. -/
theorem toBytes_eq_wire (f : NtpExtensionField) (h : 4 ∣ f.value.length) : f.toBytes = f.wire := by
  rw [NtpExtensionField.toBytes, (padded_eq_iff f).mpr h, Nat.sub_self, List.replicate_zero,
    List.append_nil, NtpExtensionField.wire]

/-- The length that is written for another one is never the one that was sent. -/
theorem toBytes_ne_wire (f : NtpExtensionField) (hlen : 4 + f.value.length < 65536)
    (h : ¬ 4 ∣ f.value.length) (as bs : Bytes) : f.toBytes ++ as ≠ f.wire ++ bs := by
  intro heq
  unfold NtpExtensionField.toBytes NtpExtensionField.wire at heq
  simp only [List.append_assoc, List.append_cancel_left_eq] at heq
  have hword := (List.append_inj heq (by rw [length_toBe16, length_toBe16])).1
  rw [← toBe16_mod] at hword
  have hsum := toBe16_inj (Nat.mod_lt _ (by decide)) hlen hword
  unfold NtpExtensionField.paddedLen at hsum
  omega

/-- What is rebuilt of the fields in front is what was sent exactly if no authenticator is among
    them and no length is rounded up. -/
theorem rebuilt_eq_wire_iff {fields : List NtpExtensionField}
    (hlen : ∀ f ∈ fields, 4 + f.value.length < 65536) :
    (fields.takeWhile fun f => !f.isAuthenticator).flatMap NtpExtensionField.toBytes =
        fields.flatMap NtpExtensionField.wire ↔
      ∀ f ∈ fields, f.isAuthenticator = false ∧ 4 ∣ f.value.length := by
  induction fields with
  | nil => simp
  | cons f fields ih =>
    obtain ⟨hlenHead, hlenTail⟩ := List.forall_mem_cons.mp hlen
    rw [List.forall_mem_cons, List.flatMap_cons]
    cases hauth : f.isAuthenticator with
    | true =>
      rw [List.takeWhile_cons_of_neg (by simp [hauth])]
      apply iff_of_false
      · intro heq
        have hlength := congrArg List.length heq
        rw [List.length_append, length_wire, List.flatMap_nil, List.length_nil] at hlength
        omega
      · intro h
        exact Bool.noConfusion h.1.1
    | false =>
      rw [List.takeWhile_cons_of_pos (by simp [hauth]), List.flatMap_cons]
      by_cases hdvd : 4 ∣ f.value.length
      · rw [toBytes_eq_wire f hdvd, List.append_cancel_left_eq, ih hlenTail]
        simp [hdvd]
      · apply iff_of_false
        · exact toBytes_ne_wire f hlenHead hdvd _ _
        · intro h
          exact hdvd h.1.2

/-! ## The authenticator -/

/-- The fields in front of the last authenticator: the one that is decrypted. -/
def front (fields : List NtpExtensionField) : List NtpExtensionField :=
  ((fields.reverse.dropWhile fun f => !f.isAuthenticator).drop 1).reverse

theorem front_spec {fields : List NtpExtensionField} {auth : NtpExtensionField}
    (h : fields.reverse.find? NtpExtensionField.isAuthenticator = some auth) :
    auth.isAuthenticator = true ∧ ∃ behind, fields = front fields ++ auth :: behind ∧
      ∀ f ∈ behind, f.isAuthenticator = false := by
  obtain ⟨hauth, as, bs, hsplit, has⟩ := List.find?_eq_some_iff_append.mp h
  have hfront : front fields = bs.reverse := by
    rw [front, hsplit, List.dropWhile_append_of_pos has,
      List.dropWhile_cons_of_neg (by simp [hauth])]
    rfl
  refine ⟨hauth, as.reverse, ?_, ?_⟩
  · rw [hfront, ← List.reverse_reverse fields, hsplit]
    simp
  · intro f hf
    simpa using has f (List.mem_reverse.mp hf)

/-- No field behind the last authenticator is written again. -/
theorem takeWhile_front {fields : List NtpExtensionField} {auth : NtpExtensionField}
    (h : fields.reverse.find? NtpExtensionField.isAuthenticator = some auth) :
    fields.takeWhile (fun f => !f.isAuthenticator) =
      (front fields).takeWhile fun f => !f.isAuthenticator := by
  obtain ⟨hauth, behind, hsplit, -⟩ := front_spec h
  conv_lhs => rw [hsplit]
  rw [List.takeWhile_append, List.takeWhile_cons_of_neg (by simp [hauth]), List.append_nil]
  split
  · rename_i hlength
    exact ((List.takeWhile_prefix _).eq_of_length hlength).symm
  · rfl

/-- A triple that the server sealed. -/
structure Triple where
  nonce : Bytes
  aad : Bytes
  ciphertext : Bytes

/-- Under the key, the cipher decrypts only what the server sealed. -/
def Ideal (aead : Aead) (key : Bytes) (sealed : Set Triple) : Prop :=
  ∀ nonce aad ciphertext plaintext, aead.decrypt key nonce aad ciphertext = .ok plaintext →
    (⟨nonce, aad, ciphertext⟩ : Triple) ∈ sealed

/-- What was decrypted is a triple that the server sealed, its associated data is the bytes in
    front of the authenticator, and the identifier that was compared is among them. -/
structure Authentic (sealed : Set Triple) (ntpPacket : Bytes) (found : Located) : Prop where
  triple : (⟨found.nonce, found.aad, found.ciphertext⟩ : Triple) ∈ sealed
  aad : found.aad =
    ntpPacket.take (48 + ((front found.fields).flatMap NtpExtensionField.wire).length)
  uid : (front found.fields).find? NtpExtensionField.isUniqueId = some found.uidField

/-- The packet has one authenticator, behind a unique identifier and fields of whole words. -/
def InOrder (ntpPacket : Bytes) : Prop :=
  ∃ fields, parseAll (ntpPacket.drop 48) = .ok fields ∧
    (∀ f ∈ front fields, f.isAuthenticator = false ∧ 4 ∣ f.value.length) ∧
    ∃ f ∈ front fields, f.isUniqueId = true

/-- What is located in a packet. -/
theorem locate_ok {ntpPacket expectedUniqueId : Bytes} {found : Located}
    (h : locate ntpPacket expectedUniqueId = .ok found) :
    48 ≤ ntpPacket.length ∧ parseAll (ntpPacket.drop 48) = .ok found.fields ∧
      found.fields.find? NtpExtensionField.isUniqueId = some found.uidField ∧
      (∃ auth, found.fields.reverse.find? NtpExtensionField.isAuthenticator = some auth) ∧
      found.aad = associatedData (ntpPacket.take 48) found.fields := by
  unfold locate at h
  split at h
  · cases h
  · rename_i hlen
    cases hfields : parseAll (ntpPacket.drop 48) with
    | error e =>
      rw [hfields] at h
      cases h
    | ok fields =>
      rw [hfields] at h
      dsimp only [bind, Except.bind] at h
      split at h
      · cases h
      · rename_i uidField huid
        split at h
        · cases h
        · split at h
          · cases h
          · rename_i auth hauth
            cases hparts : authenticatorParts auth.value with
            | error e =>
              rw [hparts] at h
              cases h
            | ok parts =>
              rw [hparts] at h
              obtain rfl := Except.ok.inj h
              exact ⟨Nat.not_lt.mp hlen, rfl, huid, ⟨auth, hauth⟩, rfl⟩

/-- An accepted packet was decrypted. -/
theorem verifyNtsResponse_ok {aead : Aead} {s2cKey ntpPacket expectedUniqueId : Bytes}
    {response : NtsResponseData}
    (h : verifyNtsResponse aead s2cKey ntpPacket expectedUniqueId = .ok response) :
    ∃ found plaintext, locate ntpPacket expectedUniqueId = .ok found ∧
      aead.decrypt s2cKey found.nonce found.aad found.ciphertext = .ok plaintext := by
  unfold verifyNtsResponse at h
  cases hfound : locate ntpPacket expectedUniqueId with
  | error e =>
    rw [hfound] at h
    cases h
  | ok found =>
    rw [hfound] at h
    dsimp only [bind, Except.bind] at h
    cases hplain : ntsAeadDecrypt aead s2cKey found.nonce found.aad found.ciphertext with
    | error e =>
      rw [hplain] at h
      cases h
    | ok plaintext =>
      refine ⟨found, plaintext, rfl, ?_⟩
      unfold ntsAeadDecrypt at hplain
      split at hplain
      · cases hplain
      · split at hplain
        · cases hplain
        · split at hplain
          · rename_i hdecrypt
            rw [hdecrypt, Except.ok.inj hplain]
          · cases hplain

/-- The associated data is the bytes in front of the authenticator exactly if these fields are
    written again as they were sent. -/
theorem aad_eq_take_iff {ntpPacket expectedUniqueId : Bytes} {found : Located}
    (h : locate ntpPacket expectedUniqueId = .ok found) :
    found.aad =
        ntpPacket.take (48 + ((front found.fields).flatMap NtpExtensionField.wire).length) ↔
      ∀ f ∈ front found.fields, f.isAuthenticator = false ∧ 4 ∣ f.value.length := by
  obtain ⟨hlen, hfields, -, ⟨auth, hauth⟩, haad⟩ := locate_ok h
  obtain ⟨-, behind, hsplit, -⟩ := front_spec hauth
  obtain ⟨⟨rest, hwire⟩, hlengths⟩ := parseFields_wire hfields
  have hfront : ∀ f ∈ front found.fields, 4 + f.value.length < 65536 := by
    intro f hf
    apply hlengths
    rw [hsplit]
    exact List.mem_append_left _ hf
  have hbytes : ∃ more, ntpPacket.drop 48 =
      (front found.fields).flatMap NtpExtensionField.wire ++ more := by
    rw [hwire]
    conv => enter [1, more, 1, 1, 2]; rw [hsplit]
    rw [List.flatMap_append, List.append_assoc]
    exact ⟨_, rfl⟩
  obtain ⟨more, hmore⟩ := hbytes
  have htake : ntpPacket.take (48 + ((front found.fields).flatMap NtpExtensionField.wire).length) =
      ntpPacket.take 48 ++ (front found.fields).flatMap NtpExtensionField.wire := by
    rw [List.take_add, hmore, List.take_left]
  rw [haad, associatedData, takeWhile_front hauth, htake, List.append_cancel_left_eq]
  exact rebuilt_eq_wire_iff hfront

/-- An accepted response is authentic, for a cipher that decrypts only what was sealed, exactly if
    the packet is in order. -/
theorem verify_authentic_iff {aead : Aead} {s2cKey ntpPacket expectedUniqueId : Bytes}
    {sealed : Set Triple} {response : NtsResponseData} (hideal : Ideal aead s2cKey sealed)
    (h : verifyNtsResponse aead s2cKey ntpPacket expectedUniqueId = .ok response) :
    (∃ found, locate ntpPacket expectedUniqueId = .ok found ∧
        Authentic sealed ntpPacket found) ↔ InOrder ntpPacket := by
  obtain ⟨found, plaintext, hfound, hdecrypt⟩ := verifyNtsResponse_ok h
  obtain ⟨-, hfields, huid, ⟨auth, hauth⟩, -⟩ := locate_ok hfound
  obtain ⟨-, behind, hsplit, -⟩ := front_spec hauth
  constructor
  · rintro ⟨found', hfound', hauthentic⟩
    obtain rfl := Except.ok.inj (hfound.symm.trans hfound')
    refine ⟨found.fields, hfields, (aad_eq_take_iff hfound).mp hauthentic.aad, found.uidField, ?_⟩
    exact ⟨List.mem_of_find?_eq_some hauthentic.uid, List.find?_some hauthentic.uid⟩
  · rintro ⟨fields, hfields', hwords, uid, hmem, huidType⟩
    obtain rfl := Except.ok.inj (hfields.symm.trans hfields')
    refine ⟨found, hfound, hideal _ _ _ _ hdecrypt, (aad_eq_take_iff hfound).mpr hwords, ?_⟩
    have hsome : ((front found.fields).find? NtpExtensionField.isUniqueId).isSome := by
      rw [List.find?_isSome]
      exact ⟨uid, hmem, huidType⟩
    obtain ⟨first, hfirst⟩ := Option.isSome_iff_exists.mp hsome
    rw [hsplit, List.find?_append, hfirst] at huid
    rw [hfirst]
    exact huid

/-! ## A response with two authenticators -/

def uniqueIdField : NtpExtensionField := ⟨extTypeUniqueId, [1, 2, 3, 4]⟩

def emptyAuthenticator : NtpExtensionField := ⟨extTypeNtsAuthenticator, []⟩

/-- An authenticator with a nonce of zeros and no ciphertext. -/
def authenticatorField : NtpExtensionField :=
  ⟨extTypeNtsAuthenticator, [0, 16] ++ List.replicate 16 0 ++ [0, 0]⟩

/-- A header of zeros, and fields. -/
def packetOf (fields : List NtpExtensionField) : Bytes :=
  List.replicate 48 0 ++ fields.flatMap NtpExtensionField.wire

/-- The server sealed one response: the header and the unique identifier. -/
def sealedTriple : Triple := ⟨List.replicate 16 0, packetOf [uniqueIdField], []⟩

/-- A cipher that decrypts this triple and nothing else. -/
def oneTripleAead : Aead where
  decrypt _ nonce aad ciphertext :=
    if nonce = sealedTriple.nonce ∧ aad = sealedTriple.aad ∧ ciphertext = sealedTriple.ciphertext
    then .ok [] else .error "aead::Error"

theorem ideal_oneTripleAead (key : Bytes) : Ideal oneTripleAead key {sealedTriple} := by
  intro nonce aad ciphertext plaintext h
  unfold oneTripleAead at h
  dsimp only at h
  split at h
  · rename_i heq
    obtain ⟨rfl, rfl, rfl⟩ := heq
    rfl
  · cases h

theorem verify_authentic_sealed : ∃ found,
    locate (packetOf [uniqueIdField, authenticatorField]) [1, 2, 3, 4] = .ok found ∧
      Authentic {sealedTriple} (packetOf [uniqueIdField, authenticatorField]) found := by
  obtain ⟨response, hresponse⟩ : ∃ response, verifyNtsResponse oneTripleAead
      (List.replicate 32 0) (packetOf [uniqueIdField, authenticatorField]) [1, 2, 3, 4] =
        .ok response := ⟨⟨[1, 2, 3, 4], [], []⟩, by rfl⟩
  have hfields : parseAll ((packetOf [uniqueIdField, authenticatorField]).drop 48) =
      .ok [uniqueIdField, authenticatorField] := by
    decide
  refine (verify_authentic_iff (ideal_oneTripleAead _) hresponse).mpr ⟨_, hfields, ?_⟩
  decide

/-- A field and an authenticator that are put in front of the sealed authenticator pass. -/
theorem inserted_authenticator_passes : ¬ ∀ aead s2cKey ntpPacket uid sealed response,
    Ideal aead s2cKey sealed → verifyNtsResponse aead s2cKey ntpPacket uid = .ok response →
      ∃ found, locate ntpPacket uid = .ok found ∧ Authentic sealed ntpPacket found := by
  intro h
  obtain ⟨response, hresponse⟩ : ∃ response, verifyNtsResponse oneTripleAead
      (List.replicate 32 0) (packetOf [uniqueIdField, emptyAuthenticator, authenticatorField])
        [1, 2, 3, 4] = .ok response := ⟨⟨[1, 2, 3, 4], [], []⟩, by rfl⟩
  obtain ⟨found, hfound, hauthentic⟩ := h _ _ _ _ _ _ (ideal_oneTripleAead _) hresponse
  have hfields : parseAll ((packetOf [uniqueIdField, emptyAuthenticator,
      authenticatorField]).drop 48) =
        .ok [uniqueIdField, emptyAuthenticator, authenticatorField] := by
    decide
  obtain ⟨-, hparsed, -⟩ := locate_ok hfound
  have hlist := Except.ok.inj (hfields.symm.trans hparsed)
  have hwords := (aad_eq_take_iff hfound).mp hauthentic.aad
  rw [← hlist] at hwords
  revert hwords
  decide

end OxidizedSystemd.Timesyncd
