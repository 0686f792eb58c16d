import OxidizedSystemd.Journal.TrustedFields
import OxidizedSystemd.Lib.Hex

/-!
# Stdout streams

Model of the two handlers of a stdout stream (`journald/src/main.rs`, lines 66–76, 1373–1380,
1430–1464, 2062–2195 and 2369–2698): the one that reads the header, and the one of the stream
that the journal gets back from the service manager when it restarts. What the journal then
knows of the header is in the name of the descriptor.

A line is given as the reader delivers it: its text, the credentials of the writer and what the
reader has of the process.

* `recoverStream_fdName`: the name carries the header's fields except the invocation id.
* `lastAt_unit`, `lastAt_invocationId`: what an entry takes from the process.
* `alike_iff_of_alive`: for a writer that is alive, only the invocation id matters.
* `recovered_alike_iff`: exactly when both handlers log a line alike.
-/

namespace OxidizedSystemd.Journal.StdoutStream

open OxidizedSystemd.Lib
open OxidizedSystemd.Journal.Native (Reads ProcReads field hostFields trustedProcessFields
  deriveUnitFromCgroup deriveSliceFromCgroup statusFields cgroupFields commandLine
  invocationIdKey)

abbrev Text := List Char

/-! ## Process data -/

/-- `struct ProcMeta` (lines 2066–2076). -/
structure ProcMeta where
  comm : Option Text
  exe : Option Text
  cmdline : Option Text
  uid : Option Text
  gid : Option Text
  cgroup : Option Text
  unit : Option Text
  slice : Option Text
  invocationId : Option Text

/-- The first word of the last line that starts with a key and has one. -/
def lastWord (key : Text) (lines : List Text) : Option Text :=
  (lines.filterMap fun line =>
    (stripPrefix key line).bind fun rest => (splitWhitespace rest).head?).getLast?

/-- `ProcMeta::read_for_pid` (lines 2080–2163). -/
def ProcMeta.readForPid (proc : ProcReads) : ProcMeta :=
  let status := (proc.status.map fun status => textLines status.toList).getD []
  let cgroup := proc.cgroup.bind fun cgroup =>
    (textLines cgroup.toList).findSome? (stripPrefix "0::".toList)
  let invocationId := proc.environ.bind fun environ =>
    ((environ.splitOn 0).find? invocationIdKey.isPrefixOf).bind fun entry =>
      (fromUtf8 (entry.drop invocationIdKey.length)).filter (· ≠ "")
  { comm := proc.comm.map fun comm => trim comm.toList
    exe := (proc.exe.bind fromUtf8).map String.toList
    cmdline := (proc.cmdline.map commandLine).filter (· ≠ [])
    uid := lastWord "Uid:".toList status
    gid := lastWord "Gid:".toList status
    cgroup := cgroup
    unit := cgroup.bind deriveUnitFromCgroup
    slice := cgroup.bind deriveSliceFromCgroup
    invocationId := invocationId.map String.toList }

/-- `get_or_read_meta` (lines 2246–2260): the metadata and the cache behind it. -/
def getOrReadMeta (reads : Reads) (cache : ℕ → Option ProcMeta) (pid : ℕ) :
    ProcMeta × (ℕ → Option ProcMeta) :=
  let fresh := ProcMeta.readForPid (reads.proc pid)
  if fresh.exe.isSome then (fresh, Function.update cache pid (some fresh))
  else
    match cache pid with
    | some cached => (cached, cache)
    | none => (fresh, Function.update cache pid (some fresh))

/-- The fields that `ProcMeta::apply_to_entry` sets, in order (lines 2165–2195). -/
def ProcMeta.fields (procMeta : ProcMeta) (pid : ℕ) : List (String × Bytes) :=
  field "_PID" (decimal pid) ::
    (procMeta.comm.toList.map (field "_COMM") ++
      procMeta.exe.toList.map (field "_EXE") ++
      procMeta.cmdline.toList.map (field "_CMDLINE") ++
      procMeta.uid.toList.map (field "_UID") ++
      procMeta.gid.toList.map (field "_GID") ++
      procMeta.cgroup.toList.map (field "_SYSTEMD_CGROUP") ++
      procMeta.unit.toList.map (field "_SYSTEMD_UNIT") ++
      procMeta.slice.toList.map (field "_SYSTEMD_SLICE") ++
      procMeta.invocationId.toList.map (field "_SYSTEMD_INVOCATION_ID"))

/-- `libc::ucred`. -/
structure Ucred where
  pid : ℕ
  uid : ℕ
  gid : ℕ

/-- `struct CredLine` (lines 2199–2207). -/
structure CredLine where
  text : Text
  cred : Option Ucred
  procMeta : Option (ℕ × ProcMeta)
  pidChange : Bool

/-! ## The header -/

/-- What the handler reads from the header (lines 2401–2404). -/
structure StreamHeader where
  identifier : Text
  priority : ℕ
  levelPrefix : Bool
  unitName : Text
  invocationId : Text
  deriving DecidableEq

/-- `char::is_ascii_hexdigit`. -/
def isAsciiHexdigit (c : Char) : Bool := (toDigit 16 c).isSome

/-- The test of an eighth line (lines 2445–2448). -/
def isInvocationId (line : Text) : Bool :=
  !line.isEmpty && (asBytes (String.ofList line)).length == 32 && line.all isAsciiHexdigit

/-- The header that the lines begin with, and the log lines behind it (lines 2401–2455); `none`
    if the stream ends before. -/
def readHeader : List Text → Option (StreamHeader × List Text)
  | idLine :: unitLine :: priorityLine :: lp :: _ :: _ :: _ :: rest =>
    let identifier := if idLine = [] then "unknown".toList else idLine
    let priority := match fromStrRadix 10 255 priorityLine with
      | some p => if p ≤ 7 then p else 6
      | none => 6
    let (invocationId, rest) := match rest with
      | line :: lines => if isInvocationId line then (line, lines) else ([], line :: lines)
      | [] => ([], [])
    some (⟨identifier, priority, decide (lp ≠ ['0']), unitLine, invocationId⟩, rest)
  | _ => none

/-! ## The name of the descriptor -/

/-- `hex_encode` (lines 66–68). -/
def hexEncode (s : Text) : Text := hexOfBytes (asBytes (String.ofList s))

/-- `hex_decode` (lines 70–76). -/
def hexDecode (s : Text) : Option Text :=
  ((bytesOfHex s).bind fromUtf8).map String.toList

/-- What the name of a stream with metadata begins with. -/
def fdNamePrefix : Text := "stdout-stream-".toList

/-- `meta_name` (lines 2480–2486). -/
def fdName (stream : StreamHeader) : Text :=
  fdNamePrefix ++ hexEncode stream.identifier ++ '-' :: decimal stream.priority ++
    '-' :: (if stream.levelPrefix then ['1'] else ['0']) ++ '-' :: hexEncode stream.unitName

/-- `struct RecoveredStream` (lines 1374–1380), without the descriptor. -/
structure RecoveredStream where
  identifier : Text
  priority : ℕ
  levelPrefix : Bool
  unitName : Text
  deriving DecidableEq

/-- The stream of a name without metadata. -/
def unknownStream : RecoveredStream := ⟨"unknown".toList, 6, true, []⟩

/-- The stream of a descriptor's name, if it is one (lines 1430–1464). -/
def recoverStream (fdName : Text) : Option RecoveredStream :=
  if fdName = "stdout-stream".toList ∨ fdNamePrefix.isPrefixOf fdName then
    match stripPrefix fdNamePrefix fdName with
    | some rest =>
      match splitN '-' 4 rest with
      | [identifier, priority, levelPrefix, unitName] =>
        some { identifier := (hexDecode identifier).getD "unknown".toList
               priority := (fromStrRadix 10 255 priority).getD 6
               levelPrefix := decide (levelPrefix ≠ ['0'])
               unitName := (hexDecode unitName).getD [] }
      | _ => some unknownStream
    | none => some unknownStream
  else none

/-! ## The lines -/

/-- `parse_level_prefix_line` (lines 2686–2696). -/
def parseLevelPrefixLine (line : Text) (defaultPriority : ℕ) : ℕ × Text :=
  let parsed := do
    let rest ← stripPrefix ['<'] line
    let (digits, message) ← splitOnce ['>'] rest
    if (asBytes (String.ofList digits)).length ≤ 1 then
      let p ← fromStrRadix 10 255 digits
      if p ≤ 7 then some (p, message) else none
    else none
  parsed.getD (defaultPriority, line)

/-- What the entry takes from the process of the writer. -/
inductive Sender
  | captured (pid : ℕ) (procMeta : ProcMeta)
  | lazy (pid : ℕ) (proc : ProcReads)
  | unknown

/-- The fields that are set of the process. -/
def Sender.fields : Sender → List (String × Bytes)
  | captured pid procMeta => procMeta.fields pid
  | lazy pid proc => trustedProcessFields proc pid
  | unknown => []

section Lines

variable (reads : Reads) (peerMeta : Option (ℕ × ProcMeta)) (peerCred : Option Ucred)

/-- The process that is read only now, by the credentials (lines 2530–2536). -/
def lazySender (cl : CredLine) : Sender :=
  let writePid := (cl.cred.map Ucred.pid).filter (0 < ·)
  match writePid.or (peerCred.map Ucred.pid) with
  | some pid => .lazy pid (reads.proc pid)
  | none => .unknown

/-- The process of a line of `handle_stdout_connection` (lines 2513–2537). -/
def liveSender (cl : CredLine) : Sender :=
  match cl.procMeta.filter fun captured => captured.2.exe.isSome with
  | some (pid, procMeta) => .captured pid procMeta
  | none =>
    match peerMeta.filter fun captured => captured.2.exe.isSome with
    | some (pid, procMeta) => .captured ((cl.procMeta.map Prod.fst).getD pid) procMeta
    | none => lazySender reads peerCred cl

/-- The process of a line of `handle_recovered_stdout_connection` (lines 2640–2649). -/
def recoveredSender (cl : CredLine) : Sender :=
  match cl.procMeta with
  | some (pid, procMeta) => .captured pid procMeta
  | none => lazySender reads peerCred cl

/-- The fields behind `_TRANSPORT` (lines 2552–2570 and 2659–2674). -/
def closingFields (cl : CredLine) : List (String × Bytes) :=
  (if cl.pidChange then [field "_LINE_BREAK" "pid-change".toList] else []) ++
    ((cl.cred.map Ucred.uid).or (peerCred.map Ucred.uid)).toList.map
      (fun uid => field "_UID" (decimal uid)) ++
    ((cl.cred.map Ucred.gid).or (peerCred.map Ucred.gid)).toList.map
      (fun gid => field "_GID" (decimal gid)) ++
    hostFields reads

/-- A new entry with the fields set in order. -/
def newEntry (realtimeUsec monotonicUsec : UInt64) (fields : List (String × Bytes)) :
    JournalEntry :=
  ⟨fields.foldl (fun m p => m.insert p.1 p.2) .empty, realtimeUsec, monotonicUsec, 0⟩

/-- The priority and the message of a line. -/
def effectiveMessage (levelPrefix : Bool) (priority : ℕ) (text : Text) : ℕ × Text :=
  let (effectivePriority, message) :=
    if levelPrefix then parseLevelPrefixLine text priority else (priority, text)
  (effectivePriority, trimEnd message)

/-- `process_line` of `handle_stdout_connection` (lines 2490–2573): the entry that it
    dispatches. -/
def processLine (stream : StreamHeader) (realtimeUsec monotonicUsec : UInt64) (cl : CredLine) :
    Option JournalEntry :=
  if cl.text = [] then none
  else
    let (effectivePriority, message) :=
      effectiveMessage stream.levelPrefix stream.priority cl.text
    if message = [] then none
    else some (newEntry realtimeUsec monotonicUsec
      ((liveSender reads peerMeta peerCred cl).fields ++
        [field "MESSAGE" message, field "PRIORITY" (decimal effectivePriority),
          field "SYSLOG_IDENTIFIER" stream.identifier] ++
        (if stream.unitName = [] then [] else [field "_SYSTEMD_UNIT" stream.unitName]) ++
        (if stream.invocationId = [] then []
          else [field "_SYSTEMD_INVOCATION_ID" stream.invocationId]) ++
        field "_TRANSPORT" "stdout".toList :: closingFields reads peerCred cl))

/-- The loop body of `handle_recovered_stdout_connection` (lines 2621–2676): the entry that it
    dispatches. -/
def processRecoveredLine (recovered : RecoveredStream) (realtimeUsec monotonicUsec : UInt64)
    (cl : CredLine) : Option JournalEntry :=
  if cl.text = [] then none
  else
    let (effectivePriority, message) :=
      effectiveMessage recovered.levelPrefix recovered.priority cl.text
    if message = [] then none
    else some (newEntry realtimeUsec monotonicUsec
      ((recoveredSender reads peerCred cl).fields ++
        [field "MESSAGE" message, field "PRIORITY" (decimal effectivePriority),
          field "SYSLOG_IDENTIFIER" recovered.identifier] ++
        (if recovered.unitName = [] then []
          else [field "_SYSTEMD_UNIT" recovered.unitName]) ++
        field "_TRANSPORT" "stdout".toList :: closingFields reads peerCred cl))

end Lines

/-! ## The name carries the stream -/

theorem hexDecode_hexEncode (s : Text) : hexDecode (hexEncode s) = some s := by
  rw [hexDecode, hexEncode, bytesOfHex_hexOfBytes, Option.bind_some, fromUtf8_asBytes,
    Option.map_some, String.toList_ofList]

theorem not_mem_hexEncode {c : Char} (hc : ∀ d < 16, c ≠ Nat.digitChar d) (s : Text) :
    c ∉ hexEncode s := by
  intro h
  obtain ⟨d, hd, heq⟩ := mem_hexOfBytes h
  exact hc d hd heq

/-- What a header is read as has a priority of syslog. -/
theorem priority_le_of_readHeader {lines rest : List Text} {stream : StreamHeader}
    (h : readHeader lines = some (stream, rest)) : stream.priority ≤ 7 := by
  rw [readHeader.eq_def] at h
  split at h
  · obtain ⟨rfl, -⟩ := Prod.mk.inj (Option.some.inj h)
    dsimp only
    split
    · split
      · assumption
      · decide
    · decide
  · cases h

/-- The name carries the header's fields except the invocation id. -/
theorem recoverStream_fdName {stream : StreamHeader} (h : stream.priority ≤ 7) :
    recoverStream (fdName stream) =
      some ⟨stream.identifier, stream.priority, stream.levelPrefix, stream.unitName⟩ := by
  have hhex := not_mem_hexEncode (c := '-') (by decide)
  have hdecimal := not_mem_decimal (c := '-') (by decide) stream.priority
  have hflag : '-' ∉ (if stream.levelPrefix then ['1'] else ['0']) := by
    cases stream.levelPrefix <;> decide
  have hname : fdName stream = fdNamePrefix ++ (hexEncode stream.identifier ++ '-' ::
      (decimal stream.priority ++ '-' :: ((if stream.levelPrefix then ['1'] else ['0']) ++
        '-' :: hexEncode stream.unitName))) := by
    simp only [fdName, List.append_assoc, List.cons_append]
  have hprefix : fdNamePrefix.isPrefixOf (fdName stream) = true := by
    rw [hname]
    exact List.isPrefixOf_iff_prefix.mpr (List.prefix_append _ _)
  rw [recoverStream, if_pos (Or.inr hprefix), hname, stripPrefix_eq_some_iff.mpr rfl]
  dsimp only
  rw [splitN_append (hhex _), splitN_append hdecimal, splitN_append hflag, splitN]
  dsimp only
  have hpriority := fromStrRadix_decimal (show stream.priority ≤ 255 by omega)
  rw [decimal, trim_toDigits (by decide) (by decide), ← decimal] at hpriority
  rw [hexDecode_hexEncode, hexDecode_hexEncode, hpriority]
  cases stream.levelPrefix <;> rfl

/-! ## What an entry takes from the process -/

/-- The bytes of a value. -/
def bytesOf (value : Text) : Bytes := asBytes (String.ofList value)

theorem bytesOf_injective : Function.Injective bytesOf := by
  intro v w h
  have hlossy := congrArg fromUtf8Lossy h
  rw [bytesOf, bytesOf, fromUtf8Lossy_asBytes, fromUtf8Lossy_asBytes] at hlossy
  simpa using congrArg String.toList hlossy

/-- The cgroup of a process that is read now. -/
def cgroupOf (proc : ProcReads) : Option Text :=
  proc.cgroup.bind fun cgroup =>
    (textLines cgroup.toList).findSome? (stripPrefix "0::".toList)

/-- The unit of the process. -/
def Sender.unit : Sender → Option Text
  | captured _ procMeta => procMeta.unit
  | lazy _ proc => (cgroupOf proc).bind deriveUnitFromCgroup
  | unknown => none

/-- The invocation id in the environment of the process. -/
def Sender.invocationId : Sender → Option Text
  | captured _ procMeta => procMeta.invocationId
  | lazy _ proc => (proc.environ.bind Native.invocationId).map String.toList
  | unknown => none

theorem bytesOf_comp_toList : bytesOf ∘ String.toList = asBytes := by
  funext s
  simp [bytesOf]

theorem lastAt_option (o : Option Text) (key k : String) :
    lastAt (o.toList.map (field key)) k = if key = k then o.map bytesOf else none :=
  lastAt_toList_map key k bytesOf o

theorem lastAt_status (status : Option String) {k : String} (huid : k ≠ "_UID")
    (hgid : k ≠ "_GID") :
    lastAt (status.toList.flatMap fun status =>
      (textLines status.toList).flatMap statusFields) k = none := by
  rw [lastAt_eq_none_iff]
  intro v hv
  obtain ⟨status, -, hv⟩ := List.mem_flatMap.mp hv
  obtain ⟨line, -, hv⟩ := List.mem_flatMap.mp hv
  rw [statusFields] at hv
  split at hv
  · obtain ⟨uid, -, heq⟩ := List.mem_map.mp hv
    exact huid (Prod.mk.inj heq).1.symm
  · split at hv
    · obtain ⟨gid, -, heq⟩ := List.mem_map.mp hv
      exact hgid (Prod.mk.inj heq).1.symm
    · exact absurd hv List.not_mem_nil

theorem lastAt_cgroup (cgroup : Option Text) (k : String) :
    lastAt (cgroup.toList.flatMap cgroupFields) k =
      ((lastAt ((cgroup.bind deriveSliceFromCgroup).toList.map (field "_SYSTEMD_SLICE")) k).or
        (lastAt ((cgroup.bind deriveUnitFromCgroup).toList.map (field "_SYSTEMD_UNIT")) k)).or
          (lastAt (cgroup.toList.map (field "_SYSTEMD_CGROUP")) k) := by
  cases cgroup with
  | none => rfl
  | some path =>
    simp only [Option.toList_some, List.flatMap_singleton, cgroupFields, Option.bind_some,
      List.map_singleton]
    rw [← List.singleton_append, lastAt_append, lastAt_append]

/-- The unit of an entry, before the header's. -/
theorem lastAt_unit (sender : Sender) :
    lastAt sender.fields "_SYSTEMD_UNIT" = sender.unit.map bytesOf := by
  cases sender with
  | captured pid procMeta =>
    simp [Sender.fields, Sender.unit, ProcMeta.fields, lastAt_append, lastAt_cons, lastAt_option,
      field]
  | lazy pid proc =>
    have hstatus := lastAt_status proc.status (k := "_SYSTEMD_UNIT") (by decide) (by decide)
    simp [Sender.fields, Sender.unit, trustedProcessFields, lastAt_append, lastAt_cons,
      lastAt_option, lastAt_cgroup, lastAt_toList_map, field, hstatus, cgroupOf]
  | unknown => rfl

/-- The invocation id of an entry, before the header's. -/
theorem lastAt_invocationId (sender : Sender) :
    lastAt sender.fields "_SYSTEMD_INVOCATION_ID" = sender.invocationId.map bytesOf := by
  cases sender with
  | captured pid procMeta =>
    simp [Sender.fields, Sender.invocationId, ProcMeta.fields, lastAt_append, lastAt_cons,
      lastAt_option, field]
  | lazy pid proc =>
    have hstatus := lastAt_status proc.status (k := "_SYSTEMD_INVOCATION_ID") (by decide)
      (by decide)
    simp [Sender.fields, Sender.invocationId, trustedProcessFields, lastAt_append, lastAt_cons,
      lastAt_option, lastAt_cgroup, lastAt_toList_map, field, hstatus, bytesOf_comp_toList]
  | unknown => rfl

/-! ## Two handlers of one line -/

/-- The fields that are to be the same. -/
def watchedKeys : List String :=
  ["MESSAGE", "PRIORITY", "SYSLOG_IDENTIFIER", "_SYSTEMD_UNIT", "_SYSTEMD_INVOCATION_ID",
    "_TRANSPORT"]

/-- Both handlers dispatch an entry, with the same watched fields, or neither does. -/
def Alike (live recovered : Option JournalEntry) : Prop :=
  ∀ key ∈ watchedKeys,
    live.map (fun e => e.fields.get? key) = recovered.map fun e => e.fields.get? key

instance (live recovered : Option JournalEntry) : Decidable (Alike live recovered) :=
  inferInstanceAs (Decidable (∀ key ∈ watchedKeys, _ = _))

/-- What an entry has to take from the process is the same for both handlers: the unit, if the
    header has none, and the invocation id, where the recovered stream lacks the header's. -/
def SameProcess (stream : StreamHeader) (live recovered : Sender) : Prop :=
  (stream.unitName = [] → live.unit = recovered.unit) ∧
    recovered.invocationId =
      if stream.invocationId = [] then live.invocationId else some stream.invocationId

section Alike

variable {reads : Reads} {peerMeta : Option (ℕ × ProcMeta)} {peerCred : Option Ucred}
  {stream : StreamHeader} {cl₁ cl₂ : CredLine} {fields fields₁ fields₂ : List (String × Bytes)}
  {realtimeUsec monotonicUsec : UInt64}

theorem get?_newEntry (key : String) :
    (newEntry realtimeUsec monotonicUsec fields).fields.get? key = lastAt fields key := by
  rw [newEntry, get?_foldl_insert, SortedMap.get?_empty, Option.or_none]

theorem lastAt_closingFields (cl : CredLine) :
    ∀ key ∈ watchedKeys, lastAt (closingFields reads peerCred cl) key = none := by
  cases hchange : cl.pidChange <;>
    simp [watchedKeys, closingFields, hchange, hostFields, lastAt_append, lastAt_cons, field,
      lastAt_toList_map]

/-- A field of the header comes last, if the header has it. -/
theorem lastAt_header (key k : String) (value : Text) :
    lastAt (if value = [] then [] else [field key value]) k =
      if value ≠ [] ∧ key = k then some (bytesOf value) else none := by
  by_cases hvalue : value = []
  · simp [hvalue]
  · rw [if_neg hvalue, field, lastAt_cons]
    simp [hvalue, bytesOf]

/-- The watched fields of an entry. -/
theorem map_lastAt_watchedKeys (sender : Sender)
    (message priority identifier unitName invocationId : Text)
    (h : ∀ key ∈ watchedKeys, lastAt fields key = none) :
    watchedKeys.map (lastAt (sender.fields ++
        [field "MESSAGE" message, field "PRIORITY" priority,
          field "SYSLOG_IDENTIFIER" identifier] ++
        (if unitName = [] then [] else [field "_SYSTEMD_UNIT" unitName]) ++
        (if invocationId = [] then [] else [field "_SYSTEMD_INVOCATION_ID" invocationId]) ++
        field "_TRANSPORT" "stdout".toList :: fields)) =
      [some (bytesOf message), some (bytesOf priority), some (bytesOf identifier),
        (if unitName = [] then sender.unit else some unitName).map bytesOf,
        (if invocationId = [] then sender.invocationId else some invocationId).map bytesOf,
        some (bytesOf "stdout".toList)] := by
  have hfield : ∀ key value, field key value = (key, bytesOf value) := fun _ _ => rfl
  simp only [watchedKeys, List.forall_mem_cons] at h
  obtain ⟨hm, hp, hs, hu, hi, ht, -⟩ := h
  simp only [watchedKeys, List.map_cons, List.map_nil, lastAt_append, lastAt_header]
  simp only [hfield, lastAt_cons, lastAt_nil, lastAt_unit, lastAt_invocationId, hm, hp, hs, hu,
    hi, ht]
  by_cases hunit : unitName = [] <;> by_cases hid : invocationId = [] <;> simp [hunit, hid]

/-- The entries agree exactly if they agree on what may come from the process. -/
theorem fields_agree_iff (live recovered : Sender) (message priority : Text)
    (h₁ : ∀ key ∈ watchedKeys, lastAt fields₁ key = none)
    (h₂ : ∀ key ∈ watchedKeys, lastAt fields₂ key = none) :
    (∀ key ∈ watchedKeys,
      lastAt (live.fields ++
        [field "MESSAGE" message, field "PRIORITY" priority,
          field "SYSLOG_IDENTIFIER" stream.identifier] ++
        (if stream.unitName = [] then [] else [field "_SYSTEMD_UNIT" stream.unitName]) ++
        (if stream.invocationId = [] then []
          else [field "_SYSTEMD_INVOCATION_ID" stream.invocationId]) ++
        field "_TRANSPORT" "stdout".toList :: fields₁) key =
      lastAt (recovered.fields ++
        [field "MESSAGE" message, field "PRIORITY" priority,
          field "SYSLOG_IDENTIFIER" stream.identifier] ++
        (if stream.unitName = [] then [] else [field "_SYSTEMD_UNIT" stream.unitName]) ++
        field "_TRANSPORT" "stdout".toList :: fields₂) key) ↔
      SameProcess stream live recovered := by
  have hmap : ∀ v w : Option Text, v.map bytesOf = w.map bytesOf ↔ v = w := fun _ _ =>
    (Option.map_injective bytesOf_injective).eq_iff
  have hlive := map_lastAt_watchedKeys live message priority stream.identifier stream.unitName
    stream.invocationId h₁
  -- the other handler logs like this one does without an invocation id
  have hrecovered := map_lastAt_watchedKeys recovered message priority stream.identifier
    stream.unitName [] h₂
  rw [if_pos rfl, List.append_nil, if_pos rfl] at hrecovered
  rw [← List.map_inj_left, hlive, hrecovered]
  simp only [List.cons.injEq, hmap, true_and, and_true, SameProcess]
  apply and_congr
  · by_cases hunit : stream.unitName = [] <;> simp [hunit]
  · exact eq_comm

/-- Nothing is dispatched for a line without a message. -/
theorem effectiveMessage_nil (levelPrefix : Bool) (priority : ℕ) :
    (effectiveMessage levelPrefix priority []).2 = [] := by
  cases levelPrefix <;> rfl

theorem processLine_eq : processLine reads peerMeta peerCred stream realtimeUsec monotonicUsec cl₁ =
    if (effectiveMessage stream.levelPrefix stream.priority cl₁.text).2 = [] then none
    else some (newEntry realtimeUsec monotonicUsec
      ((liveSender reads peerMeta peerCred cl₁).fields ++
        [field "MESSAGE" (effectiveMessage stream.levelPrefix stream.priority cl₁.text).2,
          field "PRIORITY"
            (decimal (effectiveMessage stream.levelPrefix stream.priority cl₁.text).1),
          field "SYSLOG_IDENTIFIER" stream.identifier] ++
        (if stream.unitName = [] then [] else [field "_SYSTEMD_UNIT" stream.unitName]) ++
        (if stream.invocationId = [] then []
          else [field "_SYSTEMD_INVOCATION_ID" stream.invocationId]) ++
        field "_TRANSPORT" "stdout".toList :: closingFields reads peerCred cl₁)) := by
  rw [processLine]
  by_cases htext : cl₁.text = []
  · rw [if_pos htext, htext, if_pos (effectiveMessage_nil _ _)]
  · rw [if_neg htext]

theorem processRecoveredLine_eq {recovered : RecoveredStream} :
    processRecoveredLine reads peerCred recovered realtimeUsec monotonicUsec cl₂ =
    if (effectiveMessage recovered.levelPrefix recovered.priority cl₂.text).2 = [] then none
    else some (newEntry realtimeUsec monotonicUsec
      ((recoveredSender reads peerCred cl₂).fields ++
        [field "MESSAGE" (effectiveMessage recovered.levelPrefix recovered.priority cl₂.text).2,
          field "PRIORITY"
            (decimal (effectiveMessage recovered.levelPrefix recovered.priority cl₂.text).1),
          field "SYSLOG_IDENTIFIER" recovered.identifier] ++
        (if recovered.unitName = [] then []
          else [field "_SYSTEMD_UNIT" recovered.unitName]) ++
        field "_TRANSPORT" "stdout".toList :: closingFields reads peerCred cl₂)) := by
  rw [processRecoveredLine]
  by_cases htext : cl₂.text = []
  · rw [if_pos htext, htext, if_pos (effectiveMessage_nil _ _)]
  · rw [if_neg htext]

theorem alike_iff {r₁ m₁ r₂ m₂ : UInt64} (htext : cl₁.text = cl₂.text) :
    Alike (processLine reads peerMeta peerCred stream r₁ m₁ cl₁)
        (processRecoveredLine reads peerCred
          ⟨stream.identifier, stream.priority, stream.levelPrefix, stream.unitName⟩ r₂ m₂ cl₂) ↔
      (effectiveMessage stream.levelPrefix stream.priority cl₁.text).2 = [] ∨
        SameProcess stream (liveSender reads peerMeta peerCred cl₁)
          (recoveredSender reads peerCred cl₂) := by
  rw [processLine_eq, processRecoveredLine_eq, ← htext]
  by_cases hmessage : (effectiveMessage stream.levelPrefix stream.priority cl₁.text).2 = []
  · simp [hmessage, Alike]
  · rw [if_neg hmessage, if_neg hmessage, or_iff_right hmessage, Alike]
    simp only [Option.map_some, Option.some.injEq, get?_newEntry]
    exact fields_agree_iff _ _ _ _ (lastAt_closingFields cl₁) (lastAt_closingFields cl₂)

/-- What is read of a process that is alive does not depend on the cache. -/
theorem getOrReadMeta_of_exe {pid : ℕ} (cache : ℕ → Option ProcMeta)
    (h : (ProcMeta.readForPid (reads.proc pid)).exe.isSome) :
    (getOrReadMeta reads cache pid).1 = .readForPid (reads.proc pid) := by
  rw [getOrReadMeta, if_pos h]

/-- For a writer that is alive, both handlers log a line alike exactly if the header has no
    invocation id or the one in the environment of the writer. -/
theorem alike_iff_of_alive {r₁ m₁ r₂ m₂ : UInt64} {pid : ℕ} {cache₁ cache₂ : ℕ → Option ProcMeta}
    (htext : cl₁.text = cl₂.text)
    (hlive : cl₁.procMeta = some (pid, (getOrReadMeta reads cache₁ pid).1))
    (hrecovered : cl₂.procMeta = some (pid, (getOrReadMeta reads cache₂ pid).1))
    (hexe : (ProcMeta.readForPid (reads.proc pid)).exe.isSome) :
    Alike (processLine reads peerMeta peerCred stream r₁ m₁ cl₁)
        (processRecoveredLine reads peerCred
          ⟨stream.identifier, stream.priority, stream.levelPrefix, stream.unitName⟩ r₂ m₂ cl₂) ↔
      (effectiveMessage stream.levelPrefix stream.priority cl₁.text).2 = [] ∨
        stream.invocationId = [] ∨
        (ProcMeta.readForPid (reads.proc pid)).invocationId = some stream.invocationId := by
  rw [getOrReadMeta_of_exe _ hexe] at hlive hrecovered
  have hsender : liveSender reads peerMeta peerCred cl₁ =
      .captured pid (.readForPid (reads.proc pid)) := by
    rw [liveSender, hlive, Option.filter_some, if_pos hexe]
  have hsender' : recoveredSender reads peerCred cl₂ =
      .captured pid (.readForPid (reads.proc pid)) := by
    rw [recoveredSender, hrecovered]
  rw [alike_iff htext, hsender, hsender']
  apply or_congr_right
  by_cases hid : stream.invocationId = []
  · simp [SameProcess, hid]
  · simp [SameProcess, hid, Sender.invocationId]

end Alike

/-! ## The stream after a restart -/

/-- For every header and every line behind it: both handlers log the line alike exactly if
    there is nothing to log or what the entries have to take from the process is the same. -/
theorem recovered_alike_iff {lines rest : List Text} {stream : StreamHeader}
    (h : readHeader lines = some (stream, rest)) :
    ∃ recovered, recoverStream (fdName stream) = some recovered ∧
      ∀ (reads : Reads) (peerMeta : Option (ℕ × ProcMeta)) (peerCred : Option Ucred) (text : Text)
        (cred : Option Ucred) (meta₁ meta₂ : Option (ℕ × ProcMeta)) (change₁ change₂ : Bool)
        (r₁ m₁ r₂ m₂ : UInt64),
        Alike (processLine reads peerMeta peerCred stream r₁ m₁ ⟨text, cred, meta₁, change₁⟩)
            (processRecoveredLine reads peerCred recovered r₂ m₂ ⟨text, cred, meta₂, change₂⟩) ↔
          (effectiveMessage stream.levelPrefix stream.priority text).2 = [] ∨
            SameProcess stream
              (liveSender reads peerMeta peerCred ⟨text, cred, meta₁, change₁⟩)
              (recoveredSender reads peerCred ⟨text, cred, meta₂, change₂⟩) := by
  refine ⟨_, recoverStream_fdName (priority_le_of_readHeader h), ?_⟩
  intro reads peerMeta peerCred text cred meta₁ meta₂ change₁ change₂ r₁ m₁ r₂ m₂
  exact alike_iff rfl

/-- It applies to a header of seven lines and a line of a writer that is not known. -/
theorem recovered_alike_iff_seven_lines :
    let stream : StreamHeader := ⟨"app".toList, 6, true, "app.service".toList, []⟩
    let cl : CredLine := ⟨"<3>hello".toList, none, none, false⟩
    ∃ recovered, recoverStream (fdName stream) = some recovered ∧
      Alike (processLine Native.noReads none none stream 0 0 cl)
        (processRecoveredLine Native.noReads none recovered 0 0 cl) := by
  have hheader : readHeader (["app", "app.service", "6", "1", "0", "0", "0"].map String.toList) =
      some (⟨"app".toList, 6, true, "app.service".toList, []⟩, []) := by decide
  obtain ⟨recovered, hrecovered, halike⟩ := recovered_alike_iff hheader
  exact ⟨recovered, hrecovered,
    (halike _ _ _ _ _ _ _ _ _ _ _ _ _).mpr (Or.inr ⟨by decide, rfl⟩)⟩

/-- A stream with an invocation id, of which the name of the descriptor has nothing. -/
theorem invocation_id_is_lost :
    let header := ["app", "app.service", "6", "1", "0", "0", "0",
      "0123456789abcdef0123456789abcdef"].map String.toList
    let cl : CredLine := ⟨"hello".toList, some ⟨42, 0, 0⟩,
      some (42, .readForPid (Native.noReads.proc 42)), false⟩
    let live := (readHeader header).bind fun parsed =>
      processLine Native.noReads none none parsed.1 0 0 cl
    let recovered := (readHeader header).bind fun parsed =>
      (recoverStream (fdName parsed.1)).bind fun recovered =>
        processRecoveredLine Native.noReads none recovered 0 0 cl
    live.bind (·.fields.get? "_SYSTEMD_INVOCATION_ID") =
        some (asBytes "0123456789abcdef0123456789abcdef") ∧
      recovered.map (·.fields.get? "_SYSTEMD_INVOCATION_ID") = some none ∧
      ¬ Alike live recovered := by
  decide

end OxidizedSystemd.Journal.StdoutStream
