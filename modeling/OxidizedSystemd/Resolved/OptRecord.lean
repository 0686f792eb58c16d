import Mathlib.Data.List.GetD
import OxidizedSystemd.Resolved.Replies

/-!
# OPT records

Model of `EdnsFlags`, `OptRecord` with its `to_bytes` and `parse`, `parse_edns_options` and
`append_opt_to_query` (`resolved/src/edns.rs`, lines 76–93, 240–393, 448–470 and 693–714).

* `parseEdnsOptions_rdata`: the options of a record are read again.
* `OptRecord.parse_fixed`: so is the record.
-/

namespace OxidizedSystemd.Resolved

open OxidizedSystemd.Lib

/-! ## The record -/

/-- `EdnsFlags`. -/
structure EdnsFlags where
  dnssecOk : Bool := false
  deriving DecidableEq

def EdnsFlags.toU16 (flags : EdnsFlags) : ℕ := if flags.dnssecOk then 0x8000 else 0

def EdnsFlags.fromU16 (val : ℕ) : EdnsFlags := ⟨val &&& 0x8000 != 0⟩

/-- `EdnsOption`. -/
structure EdnsOption where
  code : UInt16
  data : Bytes
  deriving DecidableEq

/-- `OptRecord`, with the values of `new`. -/
structure OptRecord where
  udpPayloadSize : UInt16 := 4096
  extendedRcode : UInt8 := 0
  version : UInt8 := 0
  flags : EdnsFlags := {}
  options : List EdnsOption := []
  deriving DecidableEq

/-- `to_be_bytes` of a `u32`. -/
def toBe32 (v : ℕ) : Bytes :=
  [UInt8.ofNat (v / 2 ^ 24), UInt8.ofNat (v / 2 ^ 16), UInt8.ofNat (v / 2 ^ 8), UInt8.ofNat v]

/-- An option as it is written; its length is cast to 16 bits. -/
def EdnsOption.bytes (opt : EdnsOption) : Bytes :=
  toBe16 opt.code.toNat ++ (toBe16 (opt.data.length % 2 ^ 16) ++ opt.data)

namespace OptRecord

/-- `with_udp_size`. -/
def withUdpSize (opt : OptRecord) (size : UInt16) : OptRecord :=
  { opt with udpPayloadSize := max size 512 }

/-- `with_dnssec_ok`. -/
def withDnssecOk (opt : OptRecord) : OptRecord := { opt with flags.dnssecOk := true }

/-- `ttl_field`. -/
def ttlField (opt : OptRecord) : ℕ :=
  opt.extendedRcode.toNat <<< 24 ||| opt.version.toNat <<< 16 ||| opt.flags.toU16

def rdata (opt : OptRecord) : Bytes := opt.options.flatMap EdnsOption.bytes

/-- The type, class and lifetime and the length of the data, which is cast to 16 bits. -/
def fixed (opt : OptRecord) : Bytes :=
  toBe16 optRecord ++ (toBe16 opt.udpPayloadSize.toNat ++ (toBe32 opt.ttlField ++
    toBe16 (opt.rdata.length % 2 ^ 16)))

/-- `to_bytes` (lines 330–357). -/
def toBytes (opt : OptRecord) : Bytes := 0 :: (opt.fixed ++ opt.rdata)

end OptRecord

/-- At most `fuel` turns of the loop of `parse_edns_options`. -/
def parseEdnsOptionsLoop (data : Bytes) : ℕ → ℕ → List EdnsOption → List EdnsOption
  | 0, _, options => options
  | fuel + 1, offset, options =>
    if offset + 4 ≤ data.length then
      let code := be16 data offset
      let length := be16 data (offset + 2)
      let offset := offset + 4
      if offset + length > data.length then options
      else
        parseEdnsOptionsLoop data fuel (offset + length)
          (options ++ [⟨UInt16.ofNat code, (data.drop offset).take length⟩])
    else options

/-- `parse_edns_options` (lines 693–714). A turn takes four bytes or more. -/
def parseEdnsOptions (data : Bytes) : List EdnsOption :=
  parseEdnsOptionsLoop data (data.length + 1) 0 []

/-- `OptRecord::parse` (lines 363–393). -/
def OptRecord.parse (data : Bytes) : Option OptRecord :=
  if data.length < 10 then none
  else if be16 data 0 ≠ optRecord then none
  else
    let rdlen := be16 data 8
    if data.length < 10 + rdlen then none
    else
      some {
        udpPayloadSize := UInt16.ofNat (be16 data 2)
        extendedRcode := data.getD 4 0
        version := data.getD 5 0
        flags := .fromU16 (be16 data 6)
        options := parseEdnsOptions ((data.drop 10).take rdlen) }

/-- `append_opt_to_query` (lines 448–470). -/
def appendOptToQuery (query : Bytes) (opt : OptRecord) : Option Bytes :=
  if query.length < headerSize then none
  else if hasOptRecord query then some query
  else
    let result := query ++ opt.toBytes
    let arcount := be16 result 10
    if arcount + 1 < 2 ^ 16 then some (setBe16 result 10 (arcount + 1)) else none

/-! ## The record is read again -/

theorem be16_toBe16 {v : ℕ} (hv : v < 2 ^ 16) (rest : Bytes) : be16 (toBe16 v ++ rest) 0 = v := by
  show (UInt8.ofNat (v / 256)).toNat * 256 + (UInt8.ofNat v).toNat = v
  rw [toNat_ofNat, toNat_ofNat]
  omega

@[simp] theorem length_toBe16 (v : ℕ) : (toBe16 v).length = 2 := rfl

variable {data : Bytes} {opts : List EdnsOption}

/-- A word in front of the rest. -/
theorem be16_of_drop {pos v : ℕ} {rest : Bytes} (hv : v < 2 ^ 16)
    (h : data.drop pos = toBe16 v ++ rest) : be16 data pos = v ∧ data.drop (pos + 2) = rest := by
  have hword := be16_drop data pos 0
  rw [h, be16_toBe16 hv] at hword
  exact ⟨hword.symm, by rw [← List.drop_drop, h, ← length_toBe16 v, List.drop_left]⟩

theorem length_edns_option (opt : EdnsOption) : opt.bytes.length = 4 + opt.data.length := by
  rw [EdnsOption.bytes, List.length_append, List.length_append, length_toBe16, length_toBe16,
    ← Nat.add_assoc]

/-- The loop reads options that are written one behind the other. -/
theorem parseEdnsOptionsLoop_ok {offset fuel : ℕ} {out : List EdnsOption}
    (hdata : data.drop offset = opts.flatMap EdnsOption.bytes) (hin : offset ≤ data.length)
    (hlen : ∀ o ∈ opts, o.data.length < 2 ^ 16) (hfuel : data.length < offset + fuel) :
    parseEdnsOptionsLoop data fuel offset out = out ++ opts := by
  induction opts generalizing offset fuel out with
  | nil =>
    have hend := List.drop_eq_nil_iff.mp hdata
    rw [List.append_nil]
    cases fuel with
    | zero => rfl
    | succ fuel => exact if_neg (by omega)
  | cons o opts ih =>
    obtain ⟨ho, hopts⟩ := List.forall_mem_cons.mp hlen
    have hsize := congrArg List.length hdata
    rw [List.length_drop, List.flatMap_cons, List.length_append, length_edns_option] at hsize
    rw [List.flatMap_cons, EdnsOption.bytes, Nat.mod_eq_of_lt ho, List.append_assoc] at hdata
    obtain ⟨hcode, hrest⟩ := be16_of_drop o.code.toNat_lt hdata
    rw [List.append_assoc] at hrest
    obtain ⟨hlength, hrest⟩ := be16_of_drop ho hrest
    have htake : (data.drop (offset + 4)).take o.data.length = o.data := by
      rw [hrest, List.take_left]
    obtain ⟨fuel, rfl⟩ : ∃ n, fuel = n + 1 := ⟨fuel - 1, by omega⟩
    rw [parseEdnsOptionsLoop, if_pos (by omega), hcode, hlength]
    dsimp only
    rw [if_neg (by omega), htake, UInt16.ofNat_toNat,
      ih (by rw [← List.drop_drop, hrest, List.drop_left]) (by omega) hopts (by omega),
      List.append_assoc, List.singleton_append]

theorem length_data_le (h : opts.flatMap EdnsOption.bytes = data) :
    ∀ o ∈ opts, o.data.length ≤ data.length := by
  intro o ho
  obtain ⟨s, t, rfl⟩ := List.append_of_mem ho
  rw [← h, List.flatMap_append, List.flatMap_cons, List.length_append, List.length_append,
    length_edns_option]
  omega

namespace OptRecord

variable {opt : OptRecord}

theorem parseEdnsOptions_rdata (h : opt.rdata.length < 2 ^ 16) :
    parseEdnsOptions opt.rdata = opt.options := by
  have hlen := length_data_le (show opt.options.flatMap EdnsOption.bytes = opt.rdata from rfl)
  rw [parseEdnsOptions]
  exact parseEdnsOptionsLoop_ok rfl (Nat.zero_le _)
    (fun o ho => Nat.lt_of_le_of_lt (hlen o ho) h) (by omega)

theorem fromU16_toU16 (flags : EdnsFlags) : EdnsFlags.fromU16 flags.toU16 = flags := by
  obtain ⟨dnssecOk⟩ := flags
  cases dnssecOk with
  | true => rfl
  | false => rfl

theorem toU16_lt (flags : EdnsFlags) : flags.toU16 < 2 ^ 16 := by
  rw [EdnsFlags.toU16]
  split <;> decide

/-- The bytes of the lifetime: the extended code, the version and the flags. -/
theorem toBe32_ttlField (opt : OptRecord) :
    toBe32 opt.ttlField = opt.extendedRcode :: opt.version :: toBe16 opt.flags.toU16 := by
  have hrcode := opt.extendedRcode.toNat_lt
  have hversion := opt.version.toNat_lt
  have hflags := toU16_lt opt.flags
  have hsum : opt.ttlField =
      (opt.extendedRcode.toNat * 2 ^ 8 + opt.version.toNat) * 2 ^ 16 + opt.flags.toU16 := by
    have hhigh : opt.extendedRcode.toNat <<< 24 ||| opt.version.toNat <<< 16 =
        (opt.extendedRcode.toNat * 2 ^ 8 + opt.version.toNat) <<< 16 := by
      rw [← Nat.shiftLeft_add_eq_or_of_lt (by rw [Nat.shiftLeft_eq]; omega)]
      simp only [Nat.shiftLeft_eq]
      omega
    rw [ttlField, hhigh, ← Nat.shiftLeft_add_eq_or_of_lt hflags, Nat.shiftLeft_eq]
  have hbyte : ∀ {m n : ℕ}, m % 2 ^ 8 = n % 2 ^ 8 → UInt8.ofNat m = UInt8.ofNat n := by
    intro m n h
    apply UInt8.toNat_inj.mp
    rwa [toNat_ofNat, toNat_ofNat]
  rw [toBe32, toBe16, ← @UInt8.ofNat_toNat opt.extendedRcode, ← @UInt8.ofNat_toNat opt.version,
    hbyte (m := opt.ttlField / 2 ^ 24) (n := opt.extendedRcode.toNat) (by omega),
    hbyte (m := opt.ttlField / 2 ^ 16) (n := opt.version.toNat) (by omega),
    hbyte (m := opt.ttlField / 2 ^ 8) (n := opt.flags.toU16 / 256) (by omega),
    hbyte (m := opt.ttlField) (n := opt.flags.toU16) (by omega)]

theorem fixed_eq (h : opt.rdata.length < 2 ^ 16) : opt.fixed =
    toBe16 optRecord ++ (toBe16 opt.udpPayloadSize.toNat ++ (opt.extendedRcode :: opt.version ::
      (toBe16 opt.flags.toU16 ++ toBe16 opt.rdata.length))) := by
  rw [fixed, toBe32_ttlField, Nat.mod_eq_of_lt h]
  rfl

theorem length_fixed (opt : OptRecord) : opt.fixed.length = 10 := rfl

/-- The fields of the record, at their offsets. -/
theorem parse_fixed (h : opt.rdata.length < 2 ^ 16) :
    parse (opt.fixed ++ opt.rdata) = some opt := by
  have hlen : (opt.fixed ++ opt.rdata).length = 10 + opt.rdata.length := by
    rw [List.length_append, length_fixed]
  have hdrop : ((opt.fixed ++ opt.rdata).drop 10).take opt.rdata.length = opt.rdata :=
    List.take_of_length_le (Nat.le_refl _)
  rw [fixed_eq h] at hlen hdrop ⊢
  generalize hdata : toBe16 optRecord ++ _ ++ opt.rdata = data at hlen hdrop ⊢
  have htype : be16 data 0 = optRecord := hdata ▸ be16_toBe16 (by decide) []
  have hudp : be16 data 2 = opt.udpPayloadSize.toNat :=
    hdata ▸ be16_toBe16 opt.udpPayloadSize.toNat_lt []
  have hflags : be16 data 6 = opt.flags.toU16 := hdata ▸ be16_toBe16 (toU16_lt opt.flags) []
  have hrdlen : be16 data 8 = opt.rdata.length := hdata ▸ be16_toBe16 h []
  have hrcode : data.getD 4 0 = opt.extendedRcode := hdata ▸ rfl
  have hversion : data.getD 5 0 = opt.version := hdata ▸ rfl
  rw [parse, if_neg (by omega), if_neg (not_not.mpr htype), hrdlen]
  dsimp only
  rw [if_neg (by omega), hudp, hflags, hrcode, hversion, hdrop, UInt16.ofNat_toNat, fromU16_toU16,
    parseEdnsOptions_rdata h]

/-- The record as a part of a message. -/
def record (opt : OptRecord) (h : opt.rdata.length < 2 ^ 16) : WireRecord where
  name := rootName
  fixed := opt.fixed
  rdata := opt.rdata
  length_fixed := opt.length_fixed
  length_rdata := by
    rw [fixed_eq h]
    exact (be16_toBe16 h []).symm

theorem record_bytes (h : opt.rdata.length < 2 ^ 16) : (opt.record h).bytes = opt.toBytes := rfl

theorem record_isOpt (h : opt.rdata.length < 2 ^ 16) : (opt.record h).IsOpt := by
  show be16 opt.fixed 0 = optRecord
  exact be16_toBe16 (by decide) _

end OptRecord

end OxidizedSystemd.Resolved
