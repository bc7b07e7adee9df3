import VersionedQueue.Key.Column
import VersionedQueue.Key.Row

/-!
# Different keys for different places

Within one queue the key of a row tells which row it is, and within one row the key of a column
tells which column it is.  The length of the name in front keeps the rows of different queues apart, as
long as it fits in its two bytes.
-/

set_option autoImplicit false
set_option relaxedAutoImplicit false

namespace VersionedQueue

namespace Bytes

theorem ofUInt64_injective {a b : UInt64} (h : ofUInt64 a = ofUInt64 b) : a = b := by
  have same := congrArg toUInt64? h
  simpa using same

theorem ofUInt32_injective {a b : UInt32} (h : ofUInt32 a = ofUInt32 b) : a = b := by
  have same := congrArg toNat h
  simp only [ofUInt32, toNat_bigEndian] at same
  have width : Nat.pow 256 4 = 2 ^ 32 := by decide
  rw [width, Nat.mod_eq_of_lt a.toNat_lt, Nat.mod_eq_of_lt b.toNat_lt] at same
  exact UInt32.toNat_inj.1 same

theorem length_eq_of_ofUInt16 {m n : Nat} (hm : m < UInt16.size) (hn : n < UInt16.size)
    (h : ofUInt16 (UInt16.ofNat m) = ofUInt16 (UInt16.ofNat n)) : m = n := by
  have same := congrArg toNat h
  have width : Nat.pow 256 2 = UInt16.size := by decide
  simp only [ofUInt16, toNat_bigEndian] at same
  rwa [width, UInt16.toNat_ofNat_of_lt' hm, UInt16.toNat_ofNat_of_lt' hn, Nat.mod_eq_of_lt hm,
    Nat.mod_eq_of_lt hn] at same

theorem ofText_injective {s t : String} (h : ofText s = ofText t) : s = t := by
  apply String.toByteArray_inj.1
  apply ByteArray.ext
  exact Array.toList_inj.1 h

end Bytes

namespace RowKey

theorem encode_ne_nil (queue : String) (key : RowKey) : key.encode queue ≠ [] := by
  simp [encode]

theorem encode_injective {queue : String} {a b : RowKey} (h : a.encode queue = b.encode queue) :
    a = b := by
  have tails : a.family :: a.ids = b.family :: b.ids := List.append_cancel_left h
  obtain ⟨families, ids⟩ := List.cons.inj tails
  cases a <;> cases b <;> simp [family] at families <;> simp only [RowKey.ids] at ids
  case entryCounter.entryCounter => rfl
  case groupPointer.groupPointer g g' => rw [Bytes.ofUInt64_injective ids]
  case entry.entry i i' => rw [Bytes.ofUInt64_injective ids]
  case consumer.consumer g m g' m' =>
    obtain ⟨groups, members⟩ := List.append_inj ids (by simp [Bytes.ofUInt64])
    rw [Bytes.ofUInt64_injective groups, Bytes.ofUInt32_injective members]
  case groupCounter.groupCounter => rfl

/-- What the rows of a queue begin with is not the beginning of a row of another queue. -/
theorem namespaceOf_prefixFree {queue queue' : String} {x y : Bytes}
    (short : (Bytes.ofText queue).length < UInt16.size)
    (short' : (Bytes.ofText queue').length < UInt16.size)
    (h : namespaceOf queue ++ x = namespaceOf queue' ++ y) : queue = queue' ∧ x = y := by
  simp only [namespaceOf, List.append_assoc] at h
  obtain ⟨lengths, rest⟩ := List.append_inj h (by simp [Bytes.ofUInt16])
  obtain ⟨names, rest⟩ := List.append_inj rest (Bytes.length_eq_of_ofUInt16 short short' lengths)
  exact ⟨Bytes.ofText_injective names, rest⟩

theorem encode_injective_of_short {queue queue' : String} {a b : RowKey}
    (short : (Bytes.ofText queue).length < UInt16.size)
    (short' : (Bytes.ofText queue').length < UInt16.size)
    (h : a.encode queue = b.encode queue') : queue = queue' ∧ a = b := by
  obtain ⟨rfl, -⟩ := namespaceOf_prefixFree short short' h
  exact ⟨rfl, encode_injective h⟩

end RowKey

namespace Column

/-- The columns of a consumer's row. -/
def InConsumerRow : Column → Prop
  | active | claim _ | readPointer => True
  | counter | state | payload | header _ => False

/-- The columns of an entry's row. -/
def InEntryRow : Column → Prop
  | state | payload | header _ => True
  | counter | active | claim _ | readPointer => False

theorem encode_ne_nil (c : Column) : c.encode ≠ [] := by
  cases c <;> simp [encode]

theorem encode_injective_of_consumer {a b : Column} (ha : a.InConsumerRow) (hb : b.InConsumerRow)
    (h : a.encode = b.encode) : a = b := by
  cases a <;> cases b <;> simp_all [InConsumerRow, encode]
  exact Bytes.ofUInt64_injective h

theorem encode_injective_of_entry {a b : Column} (ha : a.InEntryRow) (hb : b.InEntryRow)
    (h : a.encode = b.encode) : a = b := by
  cases a <;> cases b <;> simp_all [InEntryRow, encode]
  exact Bytes.ofText_injective h

end Column

end VersionedQueue
