import SandD.Lib.Base64
import SandD.Lib.Json
import SandD.Protocol.Message

/-!
# Messages as JSON

The internally tagged format of `Message`: an object whose member "type" names the variant, next to
the members of its fields.  A field of type `Option` may be missing whether or not it is marked
`#[serde(default)]`.  `usize` has 64 bits.  Serde also takes a variant from an array, which neither
program writes; such arrays are not read here.

* `Variant`, `variants`: the declarations that `Serialize` and `Deserialize` are derived from.
* `Message.encode`, `Message.decode`.
* `wire_format`: the format is lossless and unambiguous, and has the defaults it declares.
-/

namespace SandD

/-- `base64_bytes`. -/
def base64Bytes : Codec (List UInt8) :=
  Codec.string.via Base64.encode Base64.decode Base64.decode_encode

def optionString : Codec (Option String) := Codec.string.option fun _ _ => nofun

namespace SnapshotInfo

def fields : Fields (String × ℕ × String × List String × ℕ × ℕ × Unit) :=
  .required "id" .string <|
  .required "created_at" (.uint 64) <|
  .required "message" .string <|
  .required "tags" (.list .string) <|
  .required "file_count" (.uint 64) <|
  .required "total_size" (.uint 64) .nil

def codec : Codec SnapshotInfo :=
  .record fields (by decide)
    (fun info =>
      (info.id, info.createdAt, info.message, info.tags, info.fileCount, info.totalSize, ()))
    (fun (id, createdAt, message, tags, fileCount, totalSize, _) =>
      ⟨id, createdAt, message, tags, fileCount, totalSize⟩)
    fun _ => rfl

end SnapshotInfo

namespace DaemonMetadata

def fields : Fields (String × String × String × String × StringMap String × Unit) :=
  .required "hostname" .string <|
  .required "platform" .string <|
  .required "arch" .string <|
  .defaulted "version" .string "" <|
  .defaulted "labels" .stringMap ∅ .nil

def parts (metadata : DaemonMetadata) :
    String × String × String × String × StringMap String × Unit :=
  (metadata.hostname, metadata.platform, metadata.arch, metadata.version, metadata.labels, ())

def codec : Codec DaemonMetadata :=
  .record fields (by decide) parts
    (fun (hostname, platform, arch, version, labels, _) =>
      ⟨hostname, platform, arch, version, labels⟩)
    fun _ => rfl

end DaemonMetadata

/-- A variant of `Message`. -/
structure Variant where
  type : String
  τ : Type
  fields : Fields τ
  make : τ → Message

namespace Variant

def register : Variant where
  type := "register"
  τ := _
  fields := .required "daemon_id" .string <| .required "metadata" DaemonMetadata.codec .nil
  make := fun (daemonId, metadata, _) => .register daemonId metadata

def registerAck : Variant where
  type := "register_ack"
  τ := _
  fields := .required "success" .bool <| .required "message" .string .nil
  make := fun (success, message, _) => .registerAck success message

def heartbeat : Variant where
  type := "heartbeat"
  τ := _
  fields := .nil
  make := fun _ => .heartbeat

def heartbeatAck : Variant where
  type := "heartbeat_ack"
  τ := _
  fields := .required "success" .bool <| .required "reason" .string .nil
  make := fun (success, reason, _) => .heartbeatAck success reason

def pong : Variant where
  type := "pong"
  τ := _
  fields := .nil
  make := fun _ => .pong

def executeCommand : Variant where
  type := "execute_command"
  τ := _
  fields :=
    .required "request_id" .string <|
    .required "command" .string <|
    .defaulted "timeout_secs" (.uint 64) 300 <|
    .defaulted "env" .stringMap ∅ <|
    .defaulted "cwd" optionString none .nil
  make := fun (requestId, command, timeoutSecs, env, cwd, _) =>
    .executeCommand requestId command timeoutSecs env cwd

def commandOutput : Variant where
  type := "command_output"
  τ := _
  fields :=
    .required "request_id" .string <|
    .required "stdout" .string <|
    .required "stderr" .string <|
    .required "exit_code" (.int 31) <|
    .required "duration_ms" (.uint 64) .nil
  make := fun (requestId, stdout, stderr, exitCode, durationMs, _) =>
    .commandOutput requestId stdout stderr exitCode durationMs

def commandError : Variant where
  type := "command_error"
  τ := _
  fields := .required "request_id" .string <| .required "error" .string .nil
  make := fun (requestId, error, _) => .commandError requestId error

def newSession : Variant where
  type := "new_session"
  τ := _
  fields :=
    .required "session_id" .string <|
    .required "rows" (.uint 16) <|
    .required "cols" (.uint 16) <|
    .defaulted "term" .string "xterm-256color" .nil
  make := fun (sessionId, rows, cols, term, _) => .newSession sessionId rows cols term

def sessionStarted : Variant where
  type := "session_started"
  τ := _
  fields :=
    .required "session_id" .string <|
    .required "success" .bool <|
    .defaulted "error" optionString none .nil
  make := fun (sessionId, success, error, _) => .sessionStarted sessionId success error

def sessionInput : Variant where
  type := "session_input"
  τ := _
  fields := .required "session_id" .string <| .required "data" base64Bytes .nil
  make := fun (sessionId, data, _) => .sessionInput sessionId data

def sessionOutput : Variant where
  type := "session_output"
  τ := _
  fields := .required "session_id" .string <| .required "data" base64Bytes .nil
  make := fun (sessionId, data, _) => .sessionOutput sessionId data

def sessionResize : Variant where
  type := "session_resize"
  τ := _
  fields :=
    .required "session_id" .string <|
    .required "rows" (.uint 16) <|
    .required "cols" (.uint 16) .nil
  make := fun (sessionId, rows, cols, _) => .sessionResize sessionId rows cols

def sessionClose : Variant where
  type := "session_close"
  τ := _
  fields := .required "session_id" .string .nil
  make := fun (sessionId, _) => .sessionClose sessionId

def sessionExit : Variant where
  type := "session_exit"
  τ := _
  fields := .required "session_id" .string <| .required "exit_code" (.int 31) .nil
  make := fun (sessionId, exitCode, _) => .sessionExit sessionId exitCode

def fileUploadStart : Variant where
  type := "file_upload_start"
  τ := _
  fields :=
    .required "request_id" .string <|
    .required "path" .string <|
    .required "total_size" (.uint 64) <|
    .defaulted "mode" (.option (.uint 32) fun _ _ => nofun) none .nil
  make := fun (requestId, path, totalSize, mode, _) =>
    .fileUploadStart requestId path totalSize mode

def fileUploadChunk : Variant where
  type := "file_upload_chunk"
  τ := _
  fields :=
    .required "request_id" .string <|
    .required "data" base64Bytes <|
    .required "offset" (.uint 64) .nil
  make := fun (requestId, data, offset, _) => .fileUploadChunk requestId data offset

def fileUploadComplete : Variant where
  type := "file_upload_complete"
  τ := _
  fields :=
    .required "request_id" .string <|
    .required "success" .bool <|
    .defaulted "error" optionString none .nil
  make := fun (requestId, success, error, _) => .fileUploadComplete requestId success error

def fileDownloadStart : Variant where
  type := "file_download_start"
  τ := _
  fields := .required "request_id" .string <| .required "path" .string .nil
  make := fun (requestId, path, _) => .fileDownloadStart requestId path

def fileDownloadChunk : Variant where
  type := "file_download_chunk"
  τ := _
  fields :=
    .required "request_id" .string <|
    .required "data" base64Bytes <|
    .required "offset" (.uint 64) <|
    .required "is_last" .bool .nil
  make := fun (requestId, data, offset, isLast, _) =>
    .fileDownloadChunk requestId data offset isLast

def fileDownloadError : Variant where
  type := "file_download_error"
  τ := _
  fields := .required "request_id" .string <| .required "error" .string .nil
  make := fun (requestId, error, _) => .fileDownloadError requestId error

def createSnapshot : Variant where
  type := "create_snapshot"
  τ := _
  fields :=
    .required "request_id" .string <|
    .required "workspace" .string <|
    .defaulted "message" optionString none <|
    .defaulted "tags" (.option (.list .string) fun _ _ => nofun) none .nil
  make := fun (requestId, workspace, message, tags, _) =>
    .createSnapshot requestId workspace message tags

def snapshotCreated : Variant where
  type := "snapshot_created"
  τ := _
  fields :=
    .required "request_id" .string <|
    .required "snapshot_id" .string <|
    .required "file_count" (.uint 64) <|
    .required "total_size" (.uint 64) .nil
  make := fun (requestId, snapshotId, fileCount, totalSize, _) =>
    .snapshotCreated requestId snapshotId fileCount totalSize

def restoreSnapshot : Variant where
  type := "restore_snapshot"
  τ := _
  fields :=
    .required "request_id" .string <|
    .required "snapshot_id" .string <|
    .required "destination" .string .nil
  make := fun (requestId, snapshotId, destination, _) =>
    .restoreSnapshot requestId snapshotId destination

def snapshotRestored : Variant where
  type := "snapshot_restored"
  τ := _
  fields := .required "request_id" .string <| .required "file_count" (.uint 64) .nil
  make := fun (requestId, fileCount, _) => .snapshotRestored requestId fileCount

def listSnapshots : Variant where
  type := "list_snapshots"
  τ := _
  fields :=
    .required "request_id" .string <|
    .defaulted "tags" (.option (.list .string) fun _ _ => nofun) none .nil
  make := fun (requestId, tags, _) => .listSnapshots requestId tags

def snapshotList : Variant where
  type := "snapshot_list"
  τ := _
  fields :=
    .required "request_id" .string <|
    .required "snapshots" (.list SnapshotInfo.codec) .nil
  make := fun (requestId, snapshots, _) => .snapshotList requestId snapshots

def findSnapshotByTag : Variant where
  type := "find_snapshot_by_tag"
  τ := _
  fields := .required "request_id" .string <| .required "tag" .string .nil
  make := fun (requestId, tag, _) => .findSnapshotByTag requestId tag

def getSnapshot : Variant where
  type := "get_snapshot"
  τ := _
  fields := .required "request_id" .string <| .required "snapshot_id" .string .nil
  make := fun (requestId, snapshotId, _) => .getSnapshot requestId snapshotId

def snapshotDetails : Variant where
  type := "snapshot_details"
  τ := _
  fields :=
    .required "request_id" .string <|
    .defaulted "snapshot" (.option SnapshotInfo.codec fun _ _ => nofun) none .nil
  make := fun (requestId, snapshot, _) => .snapshotDetails requestId snapshot

def deleteSnapshot : Variant where
  type := "delete_snapshot"
  τ := _
  fields := .required "request_id" .string <| .required "snapshot_id" .string .nil
  make := fun (requestId, snapshotId, _) => .deleteSnapshot requestId snapshotId

def snapshotDeleted : Variant where
  type := "snapshot_deleted"
  τ := _
  fields := .required "request_id" .string .nil
  make := fun (requestId, _) => .snapshotDeleted requestId

def snapshotError : Variant where
  type := "snapshot_error"
  τ := _
  fields := .required "request_id" .string <| .required "error" .string .nil
  make := fun (requestId, error, _) => .snapshotError requestId error

def error : Variant where
  type := "error"
  τ := _
  fields := .required "message" .string <| .defaulted "recoverable" .bool false .nil
  make := fun (message, recoverable, _) => .error message recoverable

end Variant

/-- All variants. -/
def variants : List Variant :=
  [.register, .registerAck, .heartbeat, .heartbeatAck, .pong, .executeCommand, .commandOutput,
    .commandError, .newSession, .sessionStarted, .sessionInput, .sessionOutput, .sessionResize,
    .sessionClose, .sessionExit, .fileUploadStart, .fileUploadChunk, .fileUploadComplete,
    .fileDownloadStart, .fileDownloadChunk, .fileDownloadError, .createSnapshot,
    .snapshotCreated, .restoreSnapshot, .snapshotRestored, .listSnapshots, .snapshotList,
    .findSnapshotByTag, .getSnapshot, .snapshotDetails, .deleteSnapshot, .snapshotDeleted,
    .snapshotError, .error]

namespace Message

/-- The variant of a message, with the values of its fields. -/
def variant : Message → Σ v : Variant, v.τ
  | register daemonId metadata => ⟨.register, daemonId, metadata, ()⟩
  | registerAck success message => ⟨.registerAck, success, message, ()⟩
  | heartbeat => ⟨.heartbeat, ()⟩
  | heartbeatAck success reason => ⟨.heartbeatAck, success, reason, ()⟩
  | pong => ⟨.pong, ()⟩
  | executeCommand requestId command timeoutSecs env cwd =>
    ⟨.executeCommand, requestId, command, timeoutSecs, env, cwd, ()⟩
  | commandOutput requestId stdout stderr exitCode durationMs =>
    ⟨.commandOutput, requestId, stdout, stderr, exitCode, durationMs, ()⟩
  | commandError requestId err => ⟨.commandError, requestId, err, ()⟩
  | newSession sessionId rows cols term => ⟨.newSession, sessionId, rows, cols, term, ()⟩
  | sessionStarted sessionId success err => ⟨.sessionStarted, sessionId, success, err, ()⟩
  | sessionInput sessionId data => ⟨.sessionInput, sessionId, data, ()⟩
  | sessionOutput sessionId data => ⟨.sessionOutput, sessionId, data, ()⟩
  | sessionResize sessionId rows cols => ⟨.sessionResize, sessionId, rows, cols, ()⟩
  | sessionClose sessionId => ⟨.sessionClose, sessionId, ()⟩
  | sessionExit sessionId exitCode => ⟨.sessionExit, sessionId, exitCode, ()⟩
  | fileUploadStart requestId path totalSize mode =>
    ⟨.fileUploadStart, requestId, path, totalSize, mode, ()⟩
  | fileUploadChunk requestId data offset => ⟨.fileUploadChunk, requestId, data, offset, ()⟩
  | fileUploadComplete requestId success err =>
    ⟨.fileUploadComplete, requestId, success, err, ()⟩
  | fileDownloadStart requestId path => ⟨.fileDownloadStart, requestId, path, ()⟩
  | fileDownloadChunk requestId data offset isLast =>
    ⟨.fileDownloadChunk, requestId, data, offset, isLast, ()⟩
  | fileDownloadError requestId err => ⟨.fileDownloadError, requestId, err, ()⟩
  | createSnapshot requestId workspace message tags =>
    ⟨.createSnapshot, requestId, workspace, message, tags, ()⟩
  | snapshotCreated requestId snapshotId fileCount totalSize =>
    ⟨.snapshotCreated, requestId, snapshotId, fileCount, totalSize, ()⟩
  | restoreSnapshot requestId snapshotId destination =>
    ⟨.restoreSnapshot, requestId, snapshotId, destination, ()⟩
  | snapshotRestored requestId fileCount => ⟨.snapshotRestored, requestId, fileCount, ()⟩
  | listSnapshots requestId tags => ⟨.listSnapshots, requestId, tags, ()⟩
  | snapshotList requestId snapshots => ⟨.snapshotList, requestId, snapshots, ()⟩
  | findSnapshotByTag requestId tag => ⟨.findSnapshotByTag, requestId, tag, ()⟩
  | getSnapshot requestId snapshotId => ⟨.getSnapshot, requestId, snapshotId, ()⟩
  | snapshotDetails requestId snapshot => ⟨.snapshotDetails, requestId, snapshot, ()⟩
  | deleteSnapshot requestId snapshotId => ⟨.deleteSnapshot, requestId, snapshotId, ()⟩
  | snapshotDeleted requestId => ⟨.snapshotDeleted, requestId, ()⟩
  | snapshotError requestId err => ⟨.snapshotError, requestId, err, ()⟩
  | error message recoverable => ⟨.error, message, recoverable, ()⟩

/-- The integers of the message are those of its Rust types. -/
def InRange (m : Message) : Prop := m.variant.1.fields.Valid m.variant.2

/-- The members of the object for a message. -/
def members (order : MapOrder) (m : Message) : List (String × Json) :=
  ("type", .str m.variant.1.type) :: m.variant.1.fields.write order m.variant.2

/-- `Serialize`. -/
def encode (order : MapOrder) (m : Message) : Json := .obj (m.members order)

/-- `Deserialize` for the variant of a type. -/
def decodeVariant (type : String) (members : List (String × Json)) : Option Message :=
  match variants.find? fun v => decide (v.type = type) with
  | some v => (v.fields.read members).map v.make
  | none => none

/-- `Deserialize`. -/
def decode : Json → Option Message
  | .obj members => do
    let type ← Fields.readField .string none (Json.values "type" members)
    decodeVariant type members
  | _ => none

theorem make_variant (m : Message) : m.variant.1.make m.variant.2 = m := by
  cases m <;> rfl

/-- The type names the variant. -/
theorem find?_variant (m : Message) :
    variants.find? (fun v => decide (v.type = m.variant.1.type)) = some m.variant.1 := by
  cases m <;> rfl

theorem variant_mem (m : Message) : m.variant.1 ∈ variants :=
  List.mem_of_find?_eq_some m.find?_variant

theorem nodup_members (m : Message) (order : MapOrder) :
    ((m.members order).map Prod.fst).Nodup := by
  have hall : ∀ v ∈ variants, ("type" :: v.fields.keys).Nodup := by decide
  rw [members, List.map_cons, Fields.map_fst_write]
  exact hall _ m.variant_mem

/-- The keys of the fields marked as having a default. -/
def defaultKeys : List String :=
  ["timeout_secs", "env", "cwd", "term", "mode", "recoverable", "version", "labels"]

/-- The message with the defaults in the fields of the given keys. -/
def withDefaults (omitted : String → Bool) : Message → Message
  | register daemonId metadata =>
    register daemonId
      { metadata with
        version := if omitted "version" then "" else metadata.version
        labels := if omitted "labels" then ∅ else metadata.labels }
  | executeCommand requestId command timeoutSecs env cwd =>
    executeCommand requestId command
      (if omitted "timeout_secs" then 300 else timeoutSecs)
      (if omitted "env" then ∅ else env)
      (if omitted "cwd" then none else cwd)
  | newSession sessionId rows cols term =>
    newSession sessionId rows cols (if omitted "term" then "xterm-256color" else term)
  | fileUploadStart requestId path totalSize mode =>
    fileUploadStart requestId path totalSize (if omitted "mode" then none else mode)
  | error message recoverable =>
    error message (if omitted "recoverable" then false else recoverable)
  | m => m

/-- An object that has what the object for the message has, in any order and next to other members,
but for some fields. -/
def Given (order : MapOrder) (omitted : String → Bool) (ms : List (String × Json)) :
    Message → Prop
  | register daemonId metadata =>
    Json.Gives omitted ms ("type", .str "register") ∧
      Json.Gives omitted ms ("daemon_id", .str daemonId) ∧
      ∃ ms', Json.Gives omitted ms ("metadata", .obj ms') ∧
        ∀ member ∈ DaemonMetadata.fields.write order metadata.parts, Json.Gives omitted ms' member
  | m => ∀ member ∈ m.members order, Json.Gives omitted ms member

theorem decode_obj {ms : List (String × Json)} {m : Message} {omitted : String → Bool}
    (h : Json.Gives omitted ms ("type", .str m.variant.1.type)) (htype : omitted "type" = false) :
    decode (.obj ms) = (m.variant.1.fields.read ms).map m.variant.1.make := by
  rw [decode, h.values_eq htype]
  show decodeVariant m.variant.1.type ms = _
  rw [decodeVariant, m.find?_variant]

theorem make_withDefaults {omitted : String → Bool}
    (homitted : ∀ key, omitted key = true → key ∈ defaultKeys) (m : Message)
    (hm : ∀ daemonId metadata, m ≠ register daemonId metadata) :
    m.variant.1.make (m.variant.1.fields.withDefaults omitted m.variant.2) =
      m.withDefaults omitted := by
  have hfalse : ∀ key, key ∉ defaultKeys → omitted key = false := fun key hkey =>
    Bool.eq_false_iff.2 fun h => hkey (homitted key h)
  have herror := hfalse "error" (by decide)
  have hmessage := hfalse "message" (by decide)
  have htags := hfalse "tags" (by decide)
  have hsnapshot := hfalse "snapshot" (by decide)
  cases m with
  | register daemonId metadata => exact absurd rfl (hm daemonId metadata)
  | sessionStarted requestId success err =>
    show sessionStarted requestId success (if omitted "error" then none else err) = _
    rw [herror]
    rfl
  | fileUploadComplete requestId success err =>
    show fileUploadComplete requestId success (if omitted "error" then none else err) = _
    rw [herror]
    rfl
  | createSnapshot requestId workspace message tags =>
    show createSnapshot requestId workspace (if omitted "message" then none else message)
      (if omitted "tags" then none else tags) = _
    rw [hmessage, htags]
    rfl
  | listSnapshots requestId tags =>
    show listSnapshots requestId (if omitted "tags" then none else tags) = _
    rw [htags]
    rfl
  | snapshotDetails requestId snapshot =>
    show snapshotDetails requestId (if omitted "snapshot" then none else snapshot) = _
    rw [hsnapshot]
    rfl
  | _ => rfl

/-- **A message is read from any object that has its fields, but for some of those marked as having
a default.** -/
theorem decode_of_given {order : MapOrder} {omitted : String → Bool} {ms : List (String × Json)}
    {m : Message} (hm : m.InRange) (homitted : ∀ key, omitted key = true → key ∈ defaultKeys)
    (h : m.Given order omitted ms) : decode (.obj ms) = some (m.withDefaults omitted) := by
  have hfalse : ∀ key, key ∉ defaultKeys → omitted key = false := fun key hkey =>
    Bool.eq_false_iff.2 fun h => hkey (homitted key h)
  have htype := hfalse "type" (by decide)
  have hrequired : ∀ v ∈ variants, ∀ key ∈ v.fields.requiredKeys, key ∉ defaultKeys := by decide
  by_cases hregister : ∃ daemonId metadata, m = register daemonId metadata
  · obtain ⟨daemonId, metadata, rfl⟩ := hregister
    obtain ⟨hgives, hid, ms', hmetadata, hms'⟩ := h
    have hread := Fields.read_of_gives DaemonMetadata.fields metadata.parts hm.2.1
      (fun key hkey => hfalse key ((by decide :
        ∀ key ∈ DaemonMetadata.fields.requiredKeys, key ∉ defaultKeys) key hkey)) hms'
    have hcodec : DaemonMetadata.codec.read (.obj ms') = some
        { metadata with
          version := if omitted "version" then "" else metadata.version
          labels := if omitted "labels" then ∅ else metadata.labels } := by
      show (DaemonMetadata.fields.read ms').map _ = _
      rw [hread]
      rfl
    rw [decode_obj (m := register daemonId metadata) hgives htype]
    show ((Fields.required "daemon_id" .string
      (.required "metadata" DaemonMetadata.codec .nil)).read ms).map _ = _
    rw [Fields.required, Fields.required, Fields.read, Fields.read,
      hid.values_eq (hfalse "daemon_id" (by decide)),
      hmetadata.values_eq (hfalse "metadata" (by decide)), Fields.readField, Fields.readField,
      hcodec]
    rfl
  · have hne : ∀ daemonId metadata, m ≠ register daemonId metadata := fun daemonId metadata heq =>
      hregister ⟨daemonId, metadata, heq⟩
    have hgiven : ∀ member ∈ m.members order, Json.Gives omitted ms member := by
      cases m with
      | register daemonId metadata => exact absurd rfl (hne daemonId metadata)
      | _ => exact h
    rw [decode_obj (hgiven _ List.mem_cons_self) htype,
      Fields.read_of_gives _ _ hm (fun key hkey => hfalse key (hrequired _ m.variant_mem key hkey))
        fun member hmem => hgiven member (List.mem_cons_of_mem _ hmem)]
    exact congrArg some (make_withDefaults homitted m hne)

@[simp] theorem withDefaults_false (m : Message) : m.withDefaults (fun _ => false) = m := by
  cases m <;> rfl

/-- The object for a message gives the message. -/
theorem given_members (m : Message) (order : MapOrder) :
    m.Given order (fun _ => false) (m.members order) := by
  have hall : ∀ member ∈ m.members order,
      Json.Gives (fun _ => false) (m.members order) member := fun member hmem =>
    Json.gives_self (m.nodup_members order) hmem
  cases m with
  | register daemonId metadata =>
    refine ⟨hall _ List.mem_cons_self, hall _ (List.mem_cons_of_mem _ List.mem_cons_self),
      DaemonMetadata.fields.write order metadata.parts, ?_, fun member hmem => ?_⟩
    · exact hall _ (List.mem_cons_of_mem _ (List.mem_cons_of_mem _ List.mem_cons_self))
    · refine Json.gives_self ?_ hmem
      rw [Fields.map_fst_write]
      decide
  | _ => exact hall

theorem decode_encode {m : Message} (hm : m.InRange) (order : MapOrder) :
    decode (m.encode order) = some m := by
  refine (decode_of_given hm ?_ (m.given_members order)).trans (congrArg some m.withDefaults_false)
  exact fun _ h => absurd h Bool.false_ne_true

/-- **The wire format: decoding undoes encoding, whatever the order of hash maps; messages whose
encodings decode to the same value are the same; and fields that are left out get their
defaults.** -/
theorem wire_format (order order' : MapOrder) :
    (∀ m, InRange m → decode (m.encode order) = some m) ∧
    (∀ m m', InRange m → InRange m' → decode (m.encode order) = decode (m'.encode order') →
      m = m') ∧
    ∀ (omitted : String → Bool) (ms : List (String × Json)) m, InRange m →
      (∀ key, omitted key = true → key ∈ defaultKeys) → m.Given order omitted ms →
        decode (.obj ms) = some (m.withDefaults omitted) := by
  refine ⟨fun m hm => decode_encode hm order, fun m m' hm hm' h => ?_,
    fun omitted ms m hm homitted h => decode_of_given hm homitted h⟩
  rw [decode_encode hm, decode_encode hm'] at h
  exact Option.some_inj.1 h

/-- The theorem at a message, and at an object without the optional fields. -/
theorem wire_format_sample :
    decode (encode .sorted (.fileUploadStart "r" "/tmp/f" 3 (some 0o644))) =
        some (.fileUploadStart "r" "/tmp/f" 3 (some 0o644)) ∧
      decode (.obj [("command", .str "ls"), ("type", .str "execute_command"),
        ("request_id", .str "r")]) = some (.executeCommand "r" "ls" 300 ∅ none) := by
  have hsize : (3 : ℕ) < 2 ^ 64 := by decide
  have hmode : (0o644 : ℕ) < 2 ^ 32 := by decide
  have htimeout : (5 : ℕ) < 2 ^ 64 := by decide
  refine ⟨(wire_format .sorted .sorted).1 _ ⟨trivial, trivial, hsize, ?_, trivial⟩,
    (wire_format .sorted .sorted).2.2 (fun key => decide (key ∈ defaultKeys)) _
      (.executeCommand "r" "ls" 5 ∅ (some "/")) ⟨trivial, trivial, htimeout, trivial, ?_, trivial⟩
      (fun _ => of_decide_eq_true) ?_⟩
  · rintro mode ⟨⟩
    exact hmode
  · exact fun _ _ => trivial
  · show ∀ member ∈ [_, _, _, _, _, _], _
    refine List.forall_mem_cons.2 ⟨rfl, List.forall_mem_cons.2 ⟨rfl, List.forall_mem_cons.2
      ⟨rfl, List.forall_mem_cons.2 ⟨rfl, List.forall_mem_cons.2 ⟨rfl, ?_⟩⟩⟩⟩⟩
    exact List.forall_mem_singleton.2 rfl

end Message

end SandD
