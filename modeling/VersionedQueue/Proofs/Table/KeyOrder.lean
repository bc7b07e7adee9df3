import VersionedQueue.Proofs.Table.Keys

/-!
# The byte order of keys

Tables keep their rows in the byte order of the keys.  No key of a row begins with the key of another
row, whichever queues they belong to.  Numbers are written in fixed width, most significant byte first, so
the entries of a queue come in the order of their ids, its consumers in the order of their groups and
numbers, and the claims in a consumer's row in the order of the entries.  A scan from one entry of a queue
to another one meets the entries between them and no other row of any queue: the names of queues are
arbitrary, but the length in front and the byte of the family leave no key to imitate another.
-/

set_option autoImplicit false
set_option relaxedAutoImplicit false

namespace VersionedQueue

namespace Bytes

theorem append_lt_append_iff (common : Bytes) {x y : Bytes} :
    common ++ x < common ++ y ↔ x < y := by
  induction common with
  | nil => exact Iff.rfl
  | cons b common ih =>
      simp only [List.cons_append, List.cons_lt_cons_iff, true_and, ih]
      exact or_iff_right (UInt8.lt_irrefl b)

theorem append_lt_append_iff_of_length {a b x y : Bytes} (length : a.length = b.length) :
    a ++ x < b ++ y ↔ a < b ∨ a = b ∧ x < y := by
  induction a generalizing b with
  | nil =>
      obtain rfl := List.eq_nil_of_length_eq_zero length.symm
      simp
  | cons d a ih =>
      cases b with
      | nil => cases length
      | cons d' b =>
          simp only [List.cons_append, List.cons_lt_cons_iff, ih (Nat.succ.inj length),
            List.cons.injEq]
          grind

theorem toNat_lt (b : Bytes) : b.toNat < Nat.pow 256 b.length := by
  induction b with
  | nil => decide
  | cons d b ih =>
      have digit := d.toNat_lt
      have most : (d.toNat + 1) * Nat.pow 256 b.length ≤ 256 * Nat.pow 256 b.length :=
        Nat.mul_le_mul_right _ (by omega)
      simp only [toNat_cons, List.length_cons, Nat.pow_eq, Nat.pow_succ] at ih most ⊢
      rw [Nat.add_mul] at most
      omega

theorem lt_iff_toNat_lt {a b : Bytes} (length : a.length = b.length) :
    a < b ↔ a.toNat < b.toNat := by
  induction a generalizing b with
  | nil =>
      obtain rfl := List.eq_nil_of_length_eq_zero length.symm
      simp
  | cons d a ih =>
      cases b with
      | nil => cases length
      | cons d' b =>
          have same := Nat.succ.inj length
          have low := toNat_lt a
          have low' := toNat_lt b
          rw [List.cons_lt_cons_iff, ih same, toNat_cons, toNat_cons, same, UInt8.lt_iff_toNat_lt,
            ← UInt8.toNat_inj]
          rw [same] at low
          generalize Nat.pow 256 b.length = unit at low low'
          -- The first digits decide, since what follows them is less than one of their units.
          rcases Nat.lt_trichotomy d.toNat d'.toNat with less | equal | more
          · have step : (d.toNat + 1) * unit ≤ d'.toNat * unit := Nat.mul_le_mul_right _ less
            rw [Nat.add_mul] at step
            omega
          · simp [equal]
          · have step : (d'.toNat + 1) * unit ≤ d.toNat * unit := Nat.mul_le_mul_right _ more
            rw [Nat.add_mul] at step
            omega

theorem bigEndian_lt_iff {width m n : Nat} (hm : m < Nat.pow 256 width) (hn : n < Nat.pow 256 width) :
    bigEndian width m < bigEndian width n ↔ m < n := by
  rw [lt_iff_toNat_lt (by simp), toNat_bigEndian, toNat_bigEndian, Nat.mod_eq_of_lt hm,
    Nat.mod_eq_of_lt hn]

theorem ofUInt64_lt_iff {a b : UInt64} : ofUInt64 a < ofUInt64 b ↔ a < b := by
  have width : Nat.pow 256 8 = 2 ^ 64 := by decide
  rw [UInt64.lt_iff_toNat_lt]
  exact bigEndian_lt_iff (width ▸ a.toNat_lt) (width ▸ b.toNat_lt)

theorem ofUInt32_lt_iff {a b : UInt32} : ofUInt32 a < ofUInt32 b ↔ a < b := by
  have width : Nat.pow 256 4 = 2 ^ 32 := by decide
  rw [UInt32.lt_iff_toNat_lt]
  exact bigEndian_lt_iff (width ▸ a.toNat_lt) (width ▸ b.toNat_lt)

/-- What is between two byte strings with a common beginning begins in the same way. -/
theorem prefix_of_between {common x y z : Bytes} (low : common ++ x ≤ z) (high : z ≤ common ++ y) :
    common <+: z := by
  induction common generalizing z with
  | nil => exact List.nil_prefix
  | cons b common ih =>
      cases z with
      | nil => exact absurd (List.nil_lt_cons b (common ++ x)) low
      | cons d z =>
          have notBelow : ¬ (d < b ∨ d = b ∧ z < common ++ x) := mt List.cons_lt_cons_iff.2 low
          have notAbove : ¬ (b < d ∨ b = d ∧ common ++ y < z) := mt List.cons_lt_cons_iff.2 high
          obtain rfl : b = d :=
            UInt8.le_antisymm (UInt8.not_lt.1 fun less => notBelow (.inl less))
              (UInt8.not_lt.1 fun more => notAbove (.inl more))
          refine List.cons_prefix_cons.2 ⟨rfl, ih (fun less => ?_) fun more => ?_⟩
          · exact notBelow (.inr ⟨rfl, less⟩)
          · exact notAbove (.inr ⟨rfl, more⟩)

end Bytes

namespace RowKey

variable {queue queue' : String} {key key' : RowKey}

theorem length_ids_of_family (h : key.family = key'.family) : key.ids.length = key'.ids.length := by
  cases key <;> cases key' <;> simp [family] at h <;>
    simp [ids, Bytes.ofUInt64, Bytes.ofUInt32]

/-- No key begins with the key of another row. -/
theorem encode_prefixFree (short : queue.utf8ByteSize < UInt16.size)
    (short' : queue'.utf8ByteSize < UInt16.size) (h : key.encode queue <+: key'.encode queue') :
    queue = queue' ∧ key = key' := by
  obtain ⟨rest, same⟩ := h
  rw [encode, encode, List.append_assoc] at same
  obtain ⟨rfl, tails⟩ := namespaceOf_prefixFree short short' same
  rw [List.cons_append, List.cons.injEq] at tails
  obtain ⟨families, ids⟩ := tails
  have nothing : rest = [] := by
    have lengths := congrArg List.length ids
    rw [List.length_append, length_ids_of_family families] at lengths
    exact List.eq_nil_of_length_eq_zero (by omega)
  rw [nothing, List.append_nil] at ids
  exact ⟨rfl, @encode_injective queue key key' (by rw [encode, encode, families, ids])⟩

theorem entry_lt_entry_iff {a b : EntryId} : (entry a).encode queue < (entry b).encode queue ↔ a < b := by
  rw [encode, encode, Bytes.append_lt_append_iff]
  change [(20 : UInt8)] ++ Bytes.ofUInt64 a < [(20 : UInt8)] ++ Bytes.ofUInt64 b ↔ a < b
  rw [Bytes.append_lt_append_iff, Bytes.ofUInt64_lt_iff]

theorem consumer_lt_consumer_iff {g g' : GroupId} {m m' : InstanceId} :
    (consumer g m).encode queue < (consumer g' m').encode queue ↔ g < g' ∨ g = g' ∧ m < m' := by
  have group : Bytes.ofUInt64 g = Bytes.ofUInt64 g' ↔ g = g' :=
    ⟨Bytes.ofUInt64_injective, congrArg _⟩
  rw [encode, encode, Bytes.append_lt_append_iff]
  change [(30 : UInt8)] ++ (Bytes.ofUInt64 g ++ Bytes.ofUInt32 m) <
    [(30 : UInt8)] ++ (Bytes.ofUInt64 g' ++ Bytes.ofUInt32 m') ↔ _
  rw [Bytes.append_lt_append_iff, Bytes.append_lt_append_iff_of_length (by simp [Bytes.ofUInt64]),
    Bytes.ofUInt64_lt_iff, Bytes.ofUInt32_lt_iff, group]

theorem between_entries_iff (short : queue.utf8ByteSize < UInt16.size)
    (short' : queue'.utf8ByteSize < UInt16.size) {a b : EntryId} :
    (entry a).encode queue ≤ key.encode queue' ∧ key.encode queue' ≤ (entry b).encode queue ↔
      queue' = queue ∧ ∃ id, key = entry id ∧ a ≤ id ∧ id ≤ b := by
  constructor
  · rintro ⟨low, high⟩
    have shape (id : EntryId) : (entry id).encode queue =
        (namespaceOf queue ++ [20]) ++ Bytes.ofUInt64 id := by
      rw [List.append_assoc]
      rfl
    obtain ⟨rest, begins⟩ := Bytes.prefix_of_between (shape a ▸ low) (shape b ▸ high)
    rw [encode, List.append_assoc] at begins
    obtain ⟨rfl, tails⟩ := namespaceOf_prefixFree short short' begins
    have family : key.family = 20 := (List.cons.inj tails).1.symm
    cases key with
    | entry id =>
        refine ⟨rfl, id, rfl, ?_, ?_⟩
        · exact UInt64.not_lt.1 fun less => low (entry_lt_entry_iff.2 less)
        · exact UInt64.not_lt.1 fun more => high (entry_lt_entry_iff.2 more)
    | entryCounter => exact absurd family (by decide)
    | groupPointer g => exact absurd family (by simp [RowKey.family])
    | consumer g m => exact absurd family (by simp [RowKey.family])
    | groupCounter => exact absurd family (by decide)
  · rintro ⟨rfl, id, rfl, least, most⟩
    exact ⟨fun less => UInt64.not_lt.2 least (entry_lt_entry_iff.1 less),
      fun more => UInt64.not_lt.2 most (entry_lt_entry_iff.1 more)⟩

end RowKey

/-- For queues with names that fit, no key of a row begins with the key of another row; the rows of the
entries of a queue are in the order of their ids and those of its consumers in the order of groups and
numbers; and a scan from the row of one entry to that of another meets the entries between them alone, of
all rows of all queues.  Within a row, keys of columns are different for different columns, and claims
are in the order of the entries. -/
theorem keys_kept_apart_and_ordered {queue queue' : String} (short : queue.utf8ByteSize < UInt16.size)
    (short' : queue'.utf8ByteSize < UInt16.size) :
    (∀ key key' : RowKey, key.encode queue <+: key'.encode queue' ↔ queue = queue' ∧ key = key') ∧
    (∀ a b, (RowKey.entry a).encode queue < (RowKey.entry b).encode queue ↔ a < b) ∧
    (∀ g m g' m', (RowKey.consumer g m).encode queue < (RowKey.consumer g' m').encode queue ↔
      g < g' ∨ g = g' ∧ m < m') ∧
    (∀ (a b : EntryId) (key : RowKey), (RowKey.entry a).encode queue ≤ key.encode queue' ∧
      key.encode queue' ≤ (RowKey.entry b).encode queue ↔
        queue' = queue ∧ ∃ id, key = .entry id ∧ a ≤ id ∧ id ≤ b) ∧
    (∀ key key' : String, (Column.header key).encode ≠ Column.state.encode ∧
      (Column.header key).encode ≠ Column.payload.encode ∧
      ((Column.header key).encode = (Column.header key').encode ↔ key = key')) ∧
    ∀ a b : EntryId, ((Column.claim a).encode = (Column.claim b).encode ↔ a = b) ∧
      ((Column.claim a).encode < (Column.claim b).encode ↔ a < b) ∧
      (Column.claim a).encode ≠ Column.active.encode ∧
      (Column.claim a).encode ≠ Column.readPointer.encode := by
  refine ⟨fun key key' => ⟨RowKey.encode_prefixFree short short', ?_⟩,
    fun a b => RowKey.entry_lt_entry_iff, fun g m g' m' => RowKey.consumer_lt_consumer_iff,
    fun a b key => RowKey.between_entries_iff short short', fun key key' => ?_, fun a b => ?_⟩
  · rintro ⟨rfl, rfl⟩
    exact List.prefix_refl _
  · have apart {column : Column} (other : Column.header key ≠ column) (own : column.InEntryRow) :
        (Column.header key).encode ≠ column.encode :=
      mt (Column.encode_injective_of_entry trivial own) other
    refine ⟨apart nofun trivial, apart nofun trivial, fun same => ?_,
      congrArg fun key => (Column.header key).encode⟩
    exact Column.header.inj (Column.encode_injective_of_entry trivial trivial same)
  · have apart {column : Column} (other : Column.claim a ≠ column) (own : column.InConsumerRow) :
        (Column.claim a).encode ≠ column.encode :=
      mt (Column.encode_injective_of_consumer trivial own) other
    refine ⟨⟨fun same => ?_, congrArg fun id => (Column.claim id).encode⟩, ?_,
      apart nofun trivial, apart nofun trivial⟩
    · exact Column.claim.inj (Column.encode_injective_of_consumer trivial trivial same)
    · change [(20 : UInt8)] ++ Bytes.ofUInt64 a < [(20 : UInt8)] ++ Bytes.ofUInt64 b ↔ a < b
      rw [Bytes.append_lt_append_iff, Bytes.ofUInt64_lt_iff]

/-- The id of an entry of queue `a` spells the rest of the name of queue `ab` and the byte of the entry
rows; still the keys are kept apart, and no entry of `ab` is between two of `a`. -/
theorem imitation_kept_apart :
    Bytes.ofUInt64 0x6214000000000001 = [98, 20, 0, 0, 0, 0, 0, 1] ∧
      ¬ (RowKey.entry 0x6214000000000001).encode "a" <+: (RowKey.entry 1).encode "ab" ∧
      ¬ ((RowKey.entry 0).encode "a" ≤ (RowKey.entry 1).encode "ab" ∧
        (RowKey.entry 1).encode "ab" ≤ (RowKey.entry 0xffffffffffffffff).encode "a") := by
  have other : ¬ "a" = "ab" := by decide
  obtain ⟨prefixFree, _, _, between, _⟩ :=
    @keys_kept_apart_and_ordered "a" "ab" (by decide) (by decide)
  exact ⟨by decide, fun begins => other ((prefixFree _ _).1 begins).1,
    fun within => other ((between _ _ _).1 within).1.symm⟩

end VersionedQueue
