import Mathlib.Data.Finset.Max
import Mathlib.Data.List.Sort
import VersionedQueue.Proofs.Table.Writes

/-!
# What a table answers

A journal keeps all that was ever written to a table, in the order of the calls.  A snapshot reads of a
cell what was written last at the greatest version that it sees.  A table answers every read as its
journal would, and a cell has as many versions as its journal names.  So writes that a snapshot does not
see make no difference to it, and it makes no difference in which order the versions of a cell are
written.
-/

set_option autoImplicit false
set_option relaxedAutoImplicit false

namespace VersionedQueue

/-- One write to a cell; a deletion writes no value. -/
structure Write where
  place : Place
  version : Version
  value : Option Bytes
  deriving DecidableEq, Repr

/-- All that was written to a table, the latest write first. -/
abbrev Journal := List Write

namespace Journal

/-- The writes to one cell. -/
def cell (j : Journal) (p : Place) : Journal := j.filter (·.place = p)

/-- The writes to one cell that a snapshot sees. -/
def seen (j : Journal) (s : Snapshot) (p : Place) : Journal := (j.cell p).filter (s.sees ·.version)

/-- The last of some writes among those at their greatest version. -/
def newest? (j : Journal) : Option Write := j.find? fun w => j.all (·.version ≤ w.version)

/-- What a snapshot is to read of a cell. -/
def read (j : Journal) (s : Snapshot) (p : Place) : Option Bytes := (newest? (j.seen s p)).bind (·.value)

/-- The versions at which a cell was written. -/
def versions (j : Journal) (p : Place) : Finset Version := ((j.cell p).map (·.version)).toFinset

/-- What was written last to a cell at a version, if anything was. -/
def at? (j : Journal) (p : Place) (v : Version) : Option (Option Bytes) :=
  ((j.cell p).find? (·.version = v)).map (·.value)

variable {j later earlier : Journal} {p : Place} {s : Snapshot} {v : Version} {w : Write}

theorem at?_cons (w : Write) (j : Journal) (p : Place) (v : Version) :
    at? (w :: j) p v = if w.place = p ∧ w.version = v then some w.value else j.at? p v := by
  by_cases here : w.place = p
  · by_cases now : w.version = v <;> simp [at?, cell, here, now]
  · simp [at?, cell, here]

theorem at?_append (later earlier : Journal) (p : Place) (v : Version) :
    at? (later ++ earlier) p v = (later.at? p v).or (earlier.at? p v) := by
  induction later with
  | nil => rfl
  | cons w later ih =>
      rw [List.cons_append, at?_cons, at?_cons, ih]
      split <;> rfl

theorem mem_of_at? {x : Option Bytes} (found : j.at? p v = some x) : ⟨p, v, x⟩ ∈ j := by
  induction j with
  | nil => cases found
  | cons w j ih =>
      rw [at?_cons] at found
      split at found
      · rename_i here
        obtain ⟨rfl, rfl⟩ := here
        cases found
        exact List.mem_cons_self
      · exact List.mem_cons_of_mem w (ih found)

theorem mem_versions : v ∈ j.versions p ↔ j.at? p v ≠ none := by
  simp [versions, at?, List.find?_eq_none]

theorem exists_newest (some : j ≠ []) : ∃ w ∈ j, ∀ other ∈ j, other.version ≤ w.version := by
  obtain ⟨w, mem, top⟩ := j.toFinset.exists_max_image (·.version.toNat)
    ((List.toFinset_nonempty_iff j).2 some)
  refine ⟨w, List.mem_toFinset.1 mem, fun other here => ?_⟩
  exact UInt64.le_iff_toNat_le.2 (top other (List.mem_toFinset.2 here))

theorem newest?_spec (h : newest? j = some w) :
    w ∈ j ∧ (∀ other ∈ j, other.version ≤ w.version) ∧ j.find? (·.version = w.version) = some w := by
  unfold newest? at h
  have greatest : ∀ other ∈ j, other.version ≤ w.version := by simpa using List.find?_some h
  refine ⟨List.mem_of_find?_eq_some h, greatest, ?_⟩
  -- A later write at the same version would have been found first.
  obtain ⟨_, later, earlier, split, passed⟩ := List.find?_eq_some_iff_append.1 h
  refine List.find?_eq_some_iff_append.2 ⟨by simp, later, earlier, split, fun other mem => ?_⟩
  by_contra same
  have same : other.version = w.version := by simpa using same
  have top : j.all (·.version ≤ other.version) = true := by simpa [same] using greatest
  simpa [top] using passed other mem

theorem newest?_eq_none : newest? j = none ↔ j = [] := by
  constructor
  · intro none
    by_contra some
    obtain ⟨w, mem, top⟩ := exists_newest some
    exact List.find?_eq_none.1 none w mem (List.all_eq_true.2 fun other here => by
      simpa using top other here)
  · rintro rfl
    rfl

/-- What a snapshot reads was written last at a version that it sees, and it sees no greater one. -/
theorem read_spec (j : Journal) (s : Snapshot) (p : Place) :
    (j.read s p = none ∧ ∀ v ∈ j.versions p, s.sees v = false) ∨
      ∃ v, s.sees v = true ∧ j.at? p v = some (j.read s p) ∧
        ∀ u ∈ j.versions p, s.sees u = true → u ≤ v := by
  have mem_seen {w : Write} : w ∈ j.seen s p ↔ w ∈ j.cell p ∧ s.sees w.version = true :=
    List.mem_filter
  unfold read
  cases top : newest? (j.seen s p) with
  | none =>
      refine .inl ⟨rfl, fun v written => ?_⟩
      obtain ⟨w, mem, rfl⟩ := List.mem_map.1 (List.mem_toFinset.1 written)
      by_contra visible
      have here : w ∈ j.seen s p := mem_seen.2 ⟨mem, by simpa using visible⟩
      rw [newest?_eq_none.1 top] at here
      cases here
  | some w =>
      obtain ⟨here, greatest, last⟩ := newest?_spec top
      have visible := (mem_seen.1 here).2
      refine .inr ⟨w.version, visible, ?_, fun u written sees => ?_⟩
      · have sees (u : Write) : (s.sees u.version = true ∧ decide (u.version = w.version) = true) ↔
            u.version = w.version := by
          by_cases same : u.version = w.version <;> simp [same, visible]
        rw [seen, List.find?_filter] at last
        simp only [sees] at last
        simp [at?, last]
      · obtain ⟨other, mem, rfl⟩ := List.mem_map.1 (List.mem_toFinset.1 written)
        exact greatest other (mem_seen.2 ⟨mem, sees⟩)

theorem read_of_hidden {hidden : Journal} (unseen : ∀ w ∈ hidden, s.sees w.version = false) :
    read (later ++ (hidden ++ earlier)) s p = read (later ++ earlier) s p := by
  have nothing : hidden.seen s p = [] :=
    List.filter_eq_nil_iff.2 fun w mem => by simp [unseen w (List.mem_of_mem_filter mem)]
  have same : seen (later ++ (hidden ++ earlier)) s p = seen (later ++ earlier) s p := by
    simp only [seen, cell, List.filter_append] at nothing ⊢
    rw [nothing, List.nil_append]
  rw [read, same, read]

theorem at?_comm {a b : Journal}
    (apart : ∀ w ∈ a, ∀ w' ∈ b, w.place = w'.place → w.version ≠ w'.version) :
    at? (later ++ (a ++ (b ++ earlier))) p v = at? (later ++ (b ++ (a ++ earlier))) p v := by
  simp only [at?_append]
  cases inA : a.at? p v with
  | none => rfl
  | some x =>
      cases inB : b.at? p v with
      | none => rfl
      | some y => exact (apart _ (mem_of_at? inA) _ (mem_of_at? inB) rfl rfl).elim

end Journal

/-- A history has kept what a journal says of a cell. -/
def History.Keeps (h : History) (j : Journal) (p : Place) : Prop := ∀ v, h.at? v = j.at? p v

namespace History.Keeps

variable {h : History} {j : Journal} {p : Place}

theorem mem_versions (keeps : h.Keeps j p) {v : Version} : v ∈ j.versions p ↔ h.Has v := by
  rw [Journal.mem_versions, Has, keeps v]

theorem read (keeps : h.Keeps j p) (s : Snapshot) : h.read s = j.read s p := by
  rcases j.read_spec s p with ⟨nothing, hidden⟩ | ⟨v, seen, last, greatest⟩
  · rcases h.read_cases s with ⟨unread, _⟩ | ⟨v, _, seen, here, _⟩
    · rw [unread, nothing]
    · have written : v ∈ j.versions p := keeps.mem_versions.2 (by simp [Has, here])
      cases seen.symm.trans (hidden v written)
  · exact read_of_newest seen ((keeps v).trans last) fun u visible has =>
      greatest u (keeps.mem_versions.2 has) visible

theorem size (keeps : h.Keeps j p) : h.size = (j.versions p).card := by
  have distinct : (h.revisions.map (·.version)).Nodup :=
    List.pairwise_map.2 (h.descending.imp fun less => (UInt64.ne_of_lt less).symm)
  have same : (h.revisions.map (·.version)).toFinset = j.versions p := by
    ext v
    rw [List.mem_toFinset, keeps.mem_versions, List.mem_map]
    constructor
    · rintro ⟨r, mem, rfl⟩
      simp [Has, mem_revisions.1 mem]
    · intro has
      obtain ⟨x, here⟩ := Option.ne_none_iff_exists'.1 has
      exact ⟨⟨v, x⟩, mem_revisions.2 here, rfl⟩
  rw [← same, List.toFinset_card_of_nodup distinct, List.length_map, History.size]

/-- There is one history for what a journal says of a cell. -/
theorem unique {h' : History} (keeps : h.Keeps j p) (keeps' : h'.Keeps j p) : h = h' := by
  have newer : Std.Irrefl fun a b : Revision => b.version < a.version := ⟨fun _ => UInt64.lt_irrefl _⟩
  have apart : Std.Antisymm fun a b : Revision => b.version < a.version :=
    ⟨fun a b less more => absurd (UInt64.lt_trans less more) (UInt64.lt_irrefl _)⟩
  have same : h.revisions = h'.revisions := h.descending.eq_of_mem_iff h'.descending fun r => by
    rw [mem_revisions, mem_revisions, keeps, keeps']
  cases h
  cases h'
  cases same
  rfl

end History.Keeps

end VersionedQueue
