import TraceDB.Data.Codec
import TraceDB.Data.Runs
import TraceDB.Data.Sha256
import TraceDB.Data.Versioned

/-!
# The object store of a branch

`tracedb-remote-storage`: the manifest pointer and the writer lease of a branch are objects of an
S3-compatible store, which is reached by single requests.  The store itself is not part of the
repository; it is taken as a cell with versions (`Versioned`), the ETags: each request is atomic, a
put gets an ETag that was never used for the key, and conditions are enforced by the request.
-/

namespace TraceDB

/-- `ObjectKind`. -/
inductive ObjectKind where
  | walChunk
  | checkpoint
  | manifestPointer
  | lease
  | segment
  | snapshot
  | «export»
  deriving DecidableEq

/-- `ObjectKind::as_path`. -/
def ObjectKind.asPath : ObjectKind → String
  | .walChunk => "wal"
  | .checkpoint => "checkpoints"
  | .manifestPointer => "manifests"
  | .lease => "leases"
  | .segment => "segments"
  | .snapshot => "snapshots"
  | .export => "exports"

/-- `ObjectKey`. -/
structure ObjectKey where
  databaseId : String
  branchId : String
  kind : ObjectKind
  name : String
  deriving DecidableEq

/-- `safe_component`. -/
def safeComponent (value : String) : String :=
  let output := String.join ((utf8 value).map fun byte =>
    if isPlainByte byte then String.singleton (Char.ofNat byte.toNat) else "_" ++ hexByte byte)
  if output = "" then "_empty" else output

/-- `ObjectKey::path`. -/
def ObjectKey.path (key : ObjectKey) : String :=
  "databases/" ++ safeComponent key.databaseId ++ "/branches/" ++
    safeComponent key.branchId ++ "/" ++
    key.kind.asPath ++ "/" ++ safeComponent key.name

/-- `prefix.trim_matches('/')`. -/
def trimSlashes (text : String) : String :=
  String.ofList (((text.toList.dropWhile (· = '/')).reverse.dropWhile (· = '/')).reverse)

/-- `S3CompatibleStorageProfile::object_path`, for the prefix of a profile. -/
def objectPath (objectPrefix : String) (key : ObjectKey) : String :=
  let trimmed := trimSlashes objectPrefix
  if trimmed.isEmpty then key.path else trimmed ++ "/" ++ key.path

/-- `StorageError`. -/
inductive StorageError where
  | objectNotFound (key : String)
  | manifestCasFailed (databaseId branchId : String)
  | leaseHeld (holder : String)
  | invalidConfig (message : String)
  | provider (message : String)
  deriving DecidableEq

/-- `PutCondition`. -/
inductive PutCondition where
  | none
  | ifAbsent
  | ifMatchEtag (etag : String)
  deriving DecidableEq

/-- What the store keeps of an `S3PutObject`. -/
structure S3Object where
  bytes : Bytes
  checksumSha256 : String
  metadata : List (String × String)
  deriving DecidableEq

/-- The object at a path, with its ETag and the ETags of the past. -/
abbrev S3Cell := Versioned String S3Object

/-- The condition of a put, as the store enforces it. -/
def PutCondition.Holds (cell : S3Cell) : PutCondition → Prop
  | .none => True
  | .ifAbsent => cell.object = Option.none
  | .ifMatchEtag etag => cell.version? = some etag

/-- `sha256_hex`. -/
def sha256Hex (bytes : Bytes) : String :=
  "sha256:" ++ String.join ((sha256 bytes).bytes.map hexByte)

/-- `serde_json` on the records that are stored. -/
structure RemoteFormat (α : Type) where
  toVec : α → Bytes
  fromSlice : Bytes → Except String α
  fromSlice_toVec : ∀ a, fromSlice (toVec a) = .ok a

/-- A format that is built from a stream format. -/
def RemoteFormat.ofCodec {α : Type} (c : StreamCodec α) : RemoteFormat α where
  toVec := c.enc
  fromSlice bytes :=
    match c.dec bytes with
    | some (a, _) => .ok a
    | none => .error "expected value at line 1 column 1"
  fromSlice_toVec a := by
    have hdec := c.dec_enc a []
    rw [List.append_nil] at hdec
    simp only [hdec]

/-- The object that holds a record. -/
def RemoteFormat.object {α : Type} (F : RemoteFormat α) (a : α)
    (metadata : List (String × String)) :
    S3Object :=
  ⟨F.toVec a, sha256Hex (F.toVec a), metadata⟩

/-- The record in a cell. -/
def RemoteFormat.stored {α : Type} (F : RemoteFormat α) (cell : S3Cell) : Option α :=
  cell.value?.bind fun record => (F.fromSlice record.bytes).toOption

end TraceDB
