import OxidizedSystemd.Journal.NativeProtocol
import OxidizedSystemd.Lib.Grouping
import OxidizedSystemd.Lib.Lines

/-!
# Trusted fields

Model of the native socket listener (`journald/src/main.rs`, lines 1773–1799) and of the setters
of `journal/entry.rs` (lines 206–307 and 637–675). What is read of the sender's process and of the
host is a parameter: each read gives its content or fails. A setter is the list of the fields that
it sets, in order.

* `get?_enrich`: a field of the dispatched entry is the one that the journal sets last, or the
  client's.
* `dispatched_settled_iff`: when no underscore field of a client gets through.
-/

namespace OxidizedSystemd.Journal.Native

open OxidizedSystemd.Lib

/-! ## What is read -/

/-- The reads of `/proc/<pid>`. A file of text that is not UTF-8 fails. -/
structure ProcReads where
  comm : Option String
  exe : Option Bytes
  cmdline : Option Bytes
  status : Option String
  cgroup : Option String
  environ : Option Bytes

/-- The other reads: the process data of a PID, and the files of the host. -/
structure Reads where
  proc : ℕ → ProcReads
  bootId : Option String
  machineId : Option String
  hostname : Option String

/-! ## The setters -/

/-- `set_field`. -/
def field (key : String) (value : List Char) : String × Bytes :=
  (key, asBytes (String.ofList value))

/-- The components of a path. -/
def components (path : List Char) : List (List Char) := (path.splitOn '/').filter (· ≠ [])

def unitSuffixes : List String :=
  [".service", ".scope", ".mount", ".socket", ".timer", ".path", ".swap", ".target"]

/-- `derive_unit_from_cgroup` (lines 643–662). -/
def deriveUnitFromCgroup (path : List Char) : Option (List Char) :=
  (components path).reverse.find? fun component =>
    unitSuffixes.any fun suffix => suffix.toList.isSuffixOf component

/-- `derive_slice_from_cgroup` (lines 665–675). -/
def deriveSliceFromCgroup (path : List Char) : Option (List Char) :=
  (components path).find? fun component => ".slice".toList.isSuffixOf component

/-- The command line with blanks for its NULs (lines 225–231). -/
def commandLine (cmdline : Bytes) : List Char :=
  [' '].intercalate
    (((cmdline.splitOn 0).filter (· ≠ [])).map fun arg => (fromUtf8Lossy arg).toList)

/-- A line of the status file (lines 240–249). -/
def statusFields (line : List Char) : List (String × Bytes) :=
  match stripPrefix "Uid:".toList line with
  | some rest => (splitWhitespace rest).head?.toList.map (field "_UID")
  | none =>
    match stripPrefix "Gid:".toList line with
    | some rest => (splitWhitespace rest).head?.toList.map (field "_GID")
    | none => []

/-- The cgroup of the unified hierarchy (lines 255–267). -/
def cgroupFields (path : List Char) : List (String × Bytes) :=
  field "_SYSTEMD_CGROUP" path ::
    ((deriveUnitFromCgroup path).toList.map (field "_SYSTEMD_UNIT") ++
      (deriveSliceFromCgroup path).toList.map (field "_SYSTEMD_SLICE"))

/-- `INVOCATION_ID=`. -/
def invocationIdKey : Bytes := asBytes "INVOCATION_ID="

/-- The invocation id of an environment (lines 274–282). -/
def invocationId (environ : Bytes) : Option String :=
  (environ.splitOn 0).findSome? fun entry =>
    if invocationIdKey.isPrefixOf entry then
      (fromUtf8 (entry.drop invocationIdKey.length)).filter (· ≠ "")
    else none

/-- `set_trusted_process_fields` (lines 206–284). -/
def trustedProcessFields (proc : ProcReads) (pid : ℕ) : List (String × Bytes) :=
  field "_PID" (decimal pid) ::
    (proc.comm.toList.map (fun comm => field "_COMM" (trim comm.toList)) ++
      proc.exe.toList.map (fun exe => field "_EXE" (fromUtf8Lossy exe).toList) ++
      ((proc.cmdline.map commandLine).filter (· ≠ [])).toList.map (field "_CMDLINE") ++
      proc.status.toList.flatMap (fun status => (textLines status.toList).flatMap statusFields) ++
      (proc.cgroup.bind fun cgroup =>
        (textLines cgroup.toList).findSome? (stripPrefix "0::".toList)).toList.flatMap
          cgroupFields ++
      (proc.environ.bind invocationId).toList.map (fun id =>
        field "_SYSTEMD_INVOCATION_ID" id.toList))

/-- `set_boot_id`, `set_machine_id` and `set_hostname` (lines 287–307). -/
def hostFields (reads : Reads) : List (String × Bytes) :=
  reads.bootId.toList.map (fun id => field "_BOOT_ID" ((trim id.toList).filter (· ≠ '-'))) ++
    reads.machineId.toList.map (fun id => field "_MACHINE_ID" (trim id.toList)) ++
    reads.hostname.toList.map (fun name => field "_HOSTNAME" (trim name.toList))

/-! ## The listener -/

def u32Max : ℕ := 2 ^ 32 - 1

/-- The PID of the sender: of the credentials, or else the one that the client gives (lines
    1780–1788). -/
def senderPid (cred : Option ℕ) (entry : JournalEntry) : ℕ :=
  ((cred.filter (0 < ·)).or ((entry.fields.get? "SYSLOG_PID").bind fun value =>
    fromStrRadix 10 u32Max (fromUtf8Lossy value).toList)).getD 0

/-- The fields that the listener sets, in order (lines 1790–1796). -/
def trustedFields (reads : Reads) (cred : Option ℕ) (entry : JournalEntry) :
    List (String × Bytes) :=
  let pid := senderPid cred entry
  (if 0 < pid then trustedProcessFields (reads.proc pid) pid else []) ++
    field "_TRANSPORT" "journal".toList :: hostFields reads

/-- The entry with the trusted fields. -/
def enrich (reads : Reads) (cred : Option ℕ) (entry : JournalEntry) : JournalEntry :=
  { entry with
    fields := (trustedFields reads cred entry).foldl (fun m p => m.insert p.1 p.2) entry.fields }

/-- The entry that the listener dispatches for a datagram (lines 1774–1798). -/
def dispatched (checks : Bool) (reads : Reads) (cred : Option ℕ) (datagram : Bytes)
    (realtimeUsec monotonicUsec : UInt64) : Faulty JournalEntry := do
  let entry ← parseNativeMessage checks datagram realtimeUsec monotonicUsec
  return enrich reads cred entry

/-! ## Two datagrams -/

/-- The name starts with an underscore. -/
def IsTrusted (key : String) : Prop := ['_'] <+: key.toList

instance (key : String) : Decidable (IsTrusted key) :=
  inferInstanceAs (Decidable (['_'] <+: key.toList))

/-- The entries have the same fields of clients. -/
def SameClientFields (e₁ e₂ : JournalEntry) : Prop :=
  ∀ key, ¬ IsTrusted key → e₁.fields.get? key = e₂.fields.get? key

/-- The names of the fields that the journal sets. -/
def settledKeys (reads : Reads) (cred : Option ℕ) (entry : JournalEntry) : List String :=
  (trustedFields reads cred entry).map Prod.fst

/-- Every underscore field of the dispatched entry is what the journal sets, whatever the client
    puts there. -/
def NothingSurvives (reads : Reads) (cred : Option ℕ) (entry dispatched : JournalEntry) : Prop :=
  ∀ key, IsTrusted key →
    dispatched.fields.get? key = lastAt (trustedFields reads cred entry) key

/-- The entries of two datagrams agree on the underscore fields, and no client's field gets
    through. -/
structure Unspoofed (reads : Reads) (cred : Option ℕ) (e₁ e₂ f₁ f₂ : JournalEntry) : Prop where
  agree : ∀ key, IsTrusted key → f₁.fields.get? key = f₂.fields.get? key
  first : NothingSurvives reads cred e₁ f₁
  second : NothingSurvives reads cred e₂ f₂

section Listener

variable {reads : Reads} {cred : Option ℕ} {entry e₁ e₂ : JournalEntry} {key : String}

theorem get?_enrich : (enrich reads cred entry).fields.get? key =
    (lastAt (trustedFields reads cred entry) key).or (entry.fields.get? key) :=
  get?_foldl_insert _ _ _

theorem lastAt_trustedFields_eq_none_iff :
    lastAt (trustedFields reads cred entry) key = none ↔ key ∉ settledKeys reads cred entry := by
  rw [lastAt_eq_none_iff, settledKeys, List.mem_map]
  constructor
  · rintro h ⟨p, hp, rfl⟩
    exact h p.2 hp
  · intro h v hv
    exact h ⟨(key, v), hv, rfl⟩

/-- The PID that a client gives is in a field of clients. -/
theorem senderPid_congr (h : SameClientFields e₁ e₂) : senderPid cred e₁ = senderPid cred e₂ := by
  rw [senderPid, senderPid, h "SYSLOG_PID" (by decide)]

theorem trustedFields_congr (h : SameClientFields e₁ e₂) :
    trustedFields reads cred e₁ = trustedFields reads cred e₂ := by
  rw [trustedFields, trustedFields, senderPid_congr h]

/-- Nothing survives exactly if the client's underscore fields are among those that the journal
    sets. -/
theorem nothingSurvives_iff : NothingSurvives reads cred entry (enrich reads cred entry) ↔
    ∀ key, IsTrusted key → key ∉ settledKeys reads cred entry → entry.fields.get? key = none := by
  constructor
  · intro h key hkey hnot
    have hnone := lastAt_trustedFields_eq_none_iff.mpr hnot
    have hget := h key hkey
    rw [get?_enrich, hnone, Option.none_or] at hget
    exact hget
  · intro h key hkey
    rw [get?_enrich]
    cases hlast : lastAt (trustedFields reads cred entry) key with
    | some v => rfl
    | none => exact h key hkey (lastAt_trustedFields_eq_none_iff.mp hlast)

end Listener

/-- Two datagrams with the same fields of clients, from one sender and with the same outcome of
    every read: their entries agree on the underscore fields and nothing of the clients survives
    there, exactly if every underscore field of the two is one that the journal sets. -/
theorem dispatched_unspoofed_iff (checks : Bool) (reads : Reads) (cred : Option ℕ)
    {d₁ d₂ : Datagram} {realtimeUsec monotonicUsec : UInt64} {e₁ e₂ : JournalEntry}
    (h₁ : parseNativeMessage checks d₁.bytes realtimeUsec monotonicUsec = .ok e₁)
    (h₂ : parseNativeMessage checks d₂.bytes realtimeUsec monotonicUsec = .ok e₂)
    (hclient : SameClientFields e₁ e₂) :
    (∃ f₁ f₂, dispatched checks reads cred d₁.bytes realtimeUsec monotonicUsec = .ok f₁ ∧
        dispatched checks reads cred d₂.bytes realtimeUsec monotonicUsec = .ok f₂ ∧
        Unspoofed reads cred e₁ e₂ f₁ f₂) ↔
      ∀ key, IsTrusted key → key ∉ settledKeys reads cred e₁ →
        e₁.fields.get? key = none ∧ e₂.fields.get? key = none := by
  have hf₁ : dispatched checks reads cred d₁.bytes realtimeUsec monotonicUsec =
      .ok (enrich reads cred e₁) := by
    rw [dispatched, h₁]
    rfl
  have hf₂ : dispatched checks reads cred d₂.bytes realtimeUsec monotonicUsec =
      .ok (enrich reads cred e₂) := by
    rw [dispatched, h₂]
    rfl
  have hfields : trustedFields reads cred e₁ = trustedFields reads cred e₂ :=
    trustedFields_congr hclient
  have hkeys : settledKeys reads cred e₁ = settledKeys reads cred e₂ := by
    rw [settledKeys, settledKeys, hfields]
  constructor
  · rintro ⟨f₁, f₂, hf₁', hf₂', h⟩ key hkey hnot
    rw [hf₁] at hf₁'
    rw [hf₂] at hf₂'
    obtain rfl := Except.ok.inj hf₁'
    obtain rfl := Except.ok.inj hf₂'
    exact ⟨nothingSurvives_iff.mp h.first key hkey hnot,
      nothingSurvives_iff.mp h.second key hkey (hkeys ▸ hnot)⟩
  · intro h
    have hfirst : NothingSurvives reads cred e₁ (enrich reads cred e₁) :=
      nothingSurvives_iff.mpr fun key hkey hnot => (h key hkey hnot).1
    have hsecond : NothingSurvives reads cred e₂ (enrich reads cred e₂) :=
      nothingSurvives_iff.mpr fun key hkey hnot => (h key hkey (hkeys ▸ hnot)).2
    refine ⟨_, _, hf₁, hf₂, ?_, hfirst, hsecond⟩
    intro key hkey
    rw [hfirst key hkey, hsecond key hkey, hfields]

/-- Every read fails. -/
def noReads : Reads :=
  ⟨fun _ => ⟨none, none, none, none, none, none⟩, none, none, none⟩

/-- `_A=1`. -/
def spoofingDatagram : Datagram := ⟨[0x5F, 0x41, 0x3D, 0x31], by decide⟩

def emptyDatagram : Datagram := ⟨[], by decide⟩

/-- `A=1`. -/
def plainDatagram : Datagram := ⟨[0x41, 0x3D, 0x31], by decide⟩

/-- The entry with one field. -/
def oneField (key : String) (value : Bytes) : JournalEntry :=
  ⟨SortedMap.empty.insert key value, 0, 0, 0⟩

theorem dispatched_unspoofed_plain :
    ∃ f₁ f₂, dispatched true noReads (some 1) plainDatagram.bytes 0 0 = .ok f₁ ∧
      dispatched true noReads (some 1) plainDatagram.bytes 0 0 = .ok f₂ ∧
      Unspoofed noReads (some 1) (oneField "A" [0x31]) (oneField "A" [0x31]) f₁ f₂ := by
  have hparse : parseNativeMessage true plainDatagram.bytes 0 0 = .ok (oneField "A" [0x31]) := by
    decide
  refine (dispatched_unspoofed_iff true noReads (some 1) hparse hparse fun _ _ => rfl).mpr ?_
  intro key hkey _
  have hne : key ≠ "A" := by
    rintro rfl
    revert hkey
    decide
  rw [oneField, SortedMap.get?_insert, if_neg hne]
  exact ⟨rfl, rfl⟩

/-- A client's underscore field gets through. -/
theorem underscore_field_survives : ¬ ∀ checks reads cred (d₁ d₂ : Datagram) r m e₁ e₂ f₁ f₂,
    parseNativeMessage checks d₁.bytes r m = .ok e₁ →
    parseNativeMessage checks d₂.bytes r m = .ok e₂ → SameClientFields e₁ e₂ →
    dispatched checks reads cred d₁.bytes r m = .ok f₁ →
    dispatched checks reads cred d₂.bytes r m = .ok f₂ →
    ∀ key, IsTrusted key → f₁.fields.get? key = f₂.fields.get? key := by
  intro h
  have h₁ : parseNativeMessage true spoofingDatagram.bytes 0 0 = .ok (oneField "_A" [0x31]) := by
    decide
  have h₂ : parseNativeMessage true emptyDatagram.bytes 0 0 =
      .ok ⟨SortedMap.empty, 0, 0, 0⟩ := by
    decide
  have hclient : SameClientFields (oneField "_A" [0x31]) ⟨SortedMap.empty, 0, 0, 0⟩ := by
    intro key hkey
    have hne : key ≠ "_A" := by
      rintro rfl
      exact hkey (by decide)
    rw [oneField, SortedMap.get?_insert, if_neg hne]
  have hf₁ : dispatched true noReads (some 1) spoofingDatagram.bytes 0 0 =
      .ok (enrich noReads (some 1) (oneField "_A" [0x31])) := by
    rw [dispatched, h₁]
    rfl
  have hf₂ : dispatched true noReads (some 1) emptyDatagram.bytes 0 0 =
      .ok (enrich noReads (some 1) ⟨SortedMap.empty, 0, 0, 0⟩) := by
    rw [dispatched, h₂]
    rfl
  have hagree := h true noReads (some 1) _ _ 0 0 _ _ _ _ h₁ h₂ hclient hf₁ hf₂ "_A" (by decide)
  revert hagree
  decide

end OxidizedSystemd.Journal.Native
