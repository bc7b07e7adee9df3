import VersionedQueue.Consumer.Basic
import VersionedQueue.Consumer.Claim
import VersionedQueue.Entry.Basic
import VersionedQueue.Entry.Lifecycle
import VersionedQueue.Queue.Counter
import VersionedQueue.Record.Document

/-!
# Records

The document forms of the values that callers store or pass on.  Unknown fields are ignored, numbers
have to be whole and in range, and only the fields that may be absent accept the null value.
-/

set_option autoImplicit false
set_option relaxedAutoImplicit false

namespace VersionedQueue

/-- Values with a document form. -/
class Record (α : Type) where
  /-- The value that a document holds. -/
  read? : Format → Document → Option α
  /-- The document of a value. -/
  write : α → Document

namespace Record

instance : Record Partitioner where
  read? format d := (d.choice? format).bind Partitioner.ofName?
  write p := .text p.name

instance : Record EntryState where
  read? format d := (d.choice? format).bind EntryState.ofName?
  write s := .text s.name

instance : Record ClaimState where
  read? format d := (d.choice? format).bind ClaimState.ofName?
  write s := .text s.name

instance : Record Config where
  read? format d := do
    match ← d.record? ["partitioner", "batch_size"] with
    | [partitioner, batchSize] =>
        let partitioner ← Document.required? (read? format) partitioner
        let batchSize ← Document.default? Limits.defaultBatchSize Document.uint32? batchSize
        return { partitioner, batchSize }
    | _ => none
  write c :=
    .fields [("partitioner", write c.partitioner), ("batch_size", .ofNat c.batchSize.toNat)]

instance : Record Entry where
  read? _ d := do
    match ← d.record? ["data", "partitioning"] with
    | [payload, partitioning] =>
        let payload ← Document.required? (Document.listOf? Document.uint8?) payload
        let partitioning ← Document.default? [] (Document.mapOf? Document.int32?) partitioning
        return { payload, partitioning := Std.TreeMap.ofList partitioning }
    | _ => none
  write e :=
    .fields [
      ("data", .list (e.payload.map fun b => .ofNat b.toNat)),
      ("partitioning", .fields (e.partitioning.toList.map fun h => (h.1, .integer h.2.toInt)))]

instance : Record Consumer where
  read? format d := do
    match ← d.record? ["group_id", "instance_id", "group_size", "partitioning_key", "config"] with
    | [group, member, groupSize, partitioningKey, config] =>
        let group ← Document.required? Document.uint64? group
        let member ← Document.required? Document.uint32? member
        let groupSize ← Document.required? Document.uint32? groupSize
        let partitioningKey ←
          Document.default? none (Document.orNull? Document.text?) partitioningKey
        let config ← Document.default? none (Document.orNull? (read? format)) config
        return { group, member, groupSize, partitioningKey, config }
    | _ => none
  write c :=
    .fields [
      ("group_id", .ofNat c.group.toNat),
      ("instance_id", .ofNat c.member.toNat),
      ("group_size", .ofNat c.groupSize.toNat),
      ("partitioning_key", (c.partitioningKey.map Document.text).getD .null),
      ("config", (c.config.map write).getD .null)]

instance : Record Pointer where
  read? _ d := do
    match ← d.record? ["queue_name", "entry_id"] with
    | [queue, id] =>
        let queue ← Document.required? Document.text? queue
        let id ← Document.required? Document.uint64? id
        return { queue, id }
    | _ => none
  write p := .fields [("queue_name", .text p.queue), ("entry_id", .ofNat p.id.toNat)]

instance : Record QueueInfo where
  read? _ d := do
    match ← d.record? ["name", "write_pointer"] with
    | [name, writePointer] =>
        let name ← Document.required? Document.text? name
        let writePointer ← Document.required? Document.uint64? writePointer
        return { name, writePointer }
    | _ => none
  write i := .fields [("name", .text i.name), ("write_pointer", .ofNat i.writePointer.toNat)]

/-- A version is stored as a bare number. -/
instance : Record Version where
  read? _ d := d.uint64?
  write v := .ofNat v.toNat

instance : Record Snapshot where
  read? _ d := do
    match ← d.record? ["maximum", "excluded"] with
    | [maximum, excluded] =>
        let maximum ← Document.required? Document.uint64? maximum
        let excluded ← Document.default? [] (Document.listOf? Document.uint64?) excluded
        return .upToExcept maximum excluded
    | _ => none
  write s :=
    .fields [
      ("maximum", .ofNat s.maximum.toNat),
      ("excluded", .list (s.excluded.toList.map fun v => .ofNat v.toNat))]

end Record

end VersionedQueue
